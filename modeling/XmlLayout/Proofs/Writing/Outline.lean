import XmlLayout.Proofs.Indent.Standing
import XmlLayout.Writing.Encoding

/-!
# The outline of an encoding

What an encoding writes, why it ends early if it does, the depth at which it ends and the greatest
depth that it comes to, all from the tree and the depth alone. `encodeNode_follows` says that an
encoding does what its outline says, whatever state the stack is in, as long as it stands at the
depth: what the stack holds from before never reaches the text.

The one indent that depends on more than the depth is that of a closing tag at the document level.
It is written only behind children, and then the second level has been reached.
-/

namespace XmlLayout.Writing

open Document Indent

/-- What an encoding from some depth on comes to. -/
structure Outline where
  text : String
  fault : Option Error
  /-- The depth in the end. -/
  depth : Nat
  /-- The greatest depth. -/
  deepest : Nat

def Outline.blank (depth : Nat) (fault : Option Error) : Outline :=
  ⟨"", fault, depth, depth⟩

/-- What an element comes to, by its opening tag without the bracket and what its children come
to. -/
def Outline.wrap (step : Int) (depth : Nat) (tag : Tag) (children : List Node)
    (inner : Outline) : Outline :=
  let opening := openingAt step depth ++ openingText tag
  if children.isEmpty && tag.text.isNone then ⟨opening ++ "/>", none, depth, depth + 1⟩
  else match inner.fault with
    | some cause =>
      ⟨opening ++ ">" ++ contentText tag ++ inner.text, some cause, inner.depth, inner.deepest⟩
    | none =>
      ⟨opening ++ ">" ++ contentText tag ++ inner.text ++
          (if children.isEmpty then "" else closingAt step depth 2) ++ closingText tag,
        none, depth, inner.deepest⟩

/-- What two encodings come to, the second one behind the first. -/
def Outline.andThen (first second : Outline) : Outline :=
  match first.fault with
  | some _ => first
  | none => ⟨first.text ++ second.text, second.fault, second.depth, max first.deepest second.deepest⟩

mutual

/-- What the encoding of a node at a depth comes to. -/
def outline (step : Int) (depth : Nat) : Node → Outline
  | .foreign value => .blank depth (some (.notElement value.kind))
  | .element tag children => match fault? tag children with
    | some cause => .blank depth (some cause)
    | none => match openingFault? step depth with
      | some cause => .blank depth (some cause)
      | none => .wrap step depth tag children (outlineAll step (depth + 1) children)

/-- What the encoding of several nodes at a depth comes to. -/
def outlineAll (step : Int) (depth : Nat) : List Node → Outline
  | [] => .blank depth none
  | node :: rest => (outline step depth node).andThen (outlineAll step depth rest)

end

theorem Outline.depth_lt_deepest_wrap (step : Int) {depth : Nat} (tag : Tag)
    (children : List Node) {inner : Outline} (h : depth + 1 ≤ inner.deepest) :
    depth + 1 ≤ (wrap step depth tag children inner).deepest := by
  unfold wrap
  dsimp only
  split
  · exact Nat.le_refl _
  · split <;> exact h

/-- An element ends early where its children do. -/
theorem Outline.fault_wrap (step : Int) (depth : Nat) (tag : Tag) {children : List Node}
    {inner : Outline} (hNil : children = [] → inner.fault = none) :
    (wrap step depth tag children inner).fault = inner.fault := by
  unfold wrap
  dsimp only
  split
  · rename_i hLeaf
    rw [Bool.and_eq_true, List.isEmpty_iff] at hLeaf
    exact (hNil hLeaf.1).symm
  · cases inner.fault <;> rfl

theorem outline_eq_wrap {step : Int} {depth : Nat} {tag : Tag} {children : List Node}
    (hTag : fault? tag children = none) (hHere : openingFault? step depth = none) :
    outline step depth (.element tag children) =
      .wrap step depth tag children (outlineAll step (depth + 1) children) := by
  rw [outline, hTag, hHere]

/-- An element ends early for a cause of its own, or where its children do. -/
theorem fault_outline_element (step : Int) (depth : Nat) (tag : Tag) (children : List Node) :
    (outline step depth (.element tag children)).fault =
      ((fault? tag children).or (openingFault? step depth)).or
        (outlineAll step (depth + 1) children).fault := by
  cases hTag : fault? tag children with
  | some cause =>
    rw [outline, hTag]
    rfl
  | none =>
    cases hHere : openingFault? step depth with
    | some cause =>
      rw [outline, hTag, hHere]
      rfl
    | none =>
      rw [outline_eq_wrap hTag hHere]
      refine Outline.fault_wrap step depth tag fun hNil => ?_
      rw [hNil, outlineAll]
      rfl

theorem Outline.fault_andThen (first second : Outline) :
    (first.andThen second).fault = first.fault.or second.fault := by
  unfold andThen
  cases hFault : first.fault with
  | none => rfl
  | some cause => exact hFault

mutual

theorem depth_le_deepest_outline (step : Int) (depth : Nat) (node : Node) :
    depth ≤ (outline step depth node).deepest := by
  cases node with
  | foreign value =>
    rw [outline]
    exact Nat.le_refl _
  | element tag children =>
    rw [outline]
    split
    · exact Nat.le_refl _
    · split
      · exact Nat.le_refl _
      · have hInner := depth_le_deepest_outlineAll step (depth + 1) children
        have hWrap := Outline.depth_lt_deepest_wrap step tag children hInner
        omega

theorem depth_le_deepest_outlineAll (step : Int) (depth : Nat) (nodes : List Node) :
    depth ≤ (outlineAll step depth nodes).deepest := by
  cases nodes with
  | nil =>
    rw [outlineAll]
    exact Nat.le_refl _
  | cons node rest =>
    have hFirst := depth_le_deepest_outline step depth node
    rw [outlineAll, Outline.andThen]
    split
    · exact hFirst
    · exact Nat.le_trans hFirst (Nat.le_max_left _ _)

end

/-- A node that is written has a level of its own. -/
theorem depth_lt_deepest_outline {step : Int} {depth : Nat} {node : Node}
    (h : (outline step depth node).fault = none) :
    depth + 1 ≤ (outline step depth node).deepest := by
  cases node with
  | foreign value =>
    rw [outline] at h
    cases h
  | element tag children =>
    rw [outline] at h ⊢
    split at h
    · cases h
    · split at h
      · cases h
      · exact Outline.depth_lt_deepest_wrap step tag children
          (depth_le_deepest_outlineAll step (depth + 1) children)

theorem depth_lt_deepest_outlineAll {step : Int} {depth : Nat} {nodes : List Node}
    (h : (outlineAll step depth nodes).fault = none) (hSome : nodes ≠ []) :
    depth + 1 ≤ (outlineAll step depth nodes).deepest := by
  cases nodes with
  | nil => exact absurd rfl hSome
  | cons node rest =>
    rw [outlineAll, Outline.andThen] at h ⊢
    split at h
    · rename_i hFault
      rw [hFault] at h
      cases h
    · rename_i hNone
      exact Nat.le_trans (depth_lt_deepest_outline hNone) (Nat.le_max_left _ _)

theorem depth_outline {step : Int} {depth : Nat} {node : Node}
    (h : (outline step depth node).fault = none) : (outline step depth node).depth = depth := by
  cases node with
  | foreign value =>
    rw [outline]
    rfl
  | element tag children =>
    rw [outline] at h ⊢
    split
    · rfl
    · split
      · rfl
      · rename_i hFault _ hFits
        rw [hFault, hFits] at h
        dsimp only at h
        unfold Outline.wrap at h ⊢
        dsimp only at h ⊢
        split
        · rfl
        · rename_i hInner
          rw [if_neg hInner] at h
          split at h
          · cases h
          · rfl

/-- Where nothing fails the depth in the end is that at the start. -/
theorem depth_outlineAll {step : Int} {depth : Nat} {nodes : List Node}
    (h : (outlineAll step depth nodes).fault = none) :
    (outlineAll step depth nodes).depth = depth := by
  induction nodes with
  | nil =>
    rw [outlineAll]
    rfl
  | cons node rest ih =>
    rw [outlineAll, Outline.andThen] at h ⊢
    split at h
    · rename_i hFault
      rw [hFault] at h
      cases h
    · exact ih h

/-! ## Encodings and their outlines -/

theorem bind_of_ok {α β : Type} {x : Encoding α} {f : α → Encoding β} {d d' : Draft} {a : α}
    (h : x d = .ok a d') : (x >>= f) d = f a d' := by
  simp only [bind, EStateM.bind, h]

theorem bind_of_error {α β : Type} {x : Encoding α} {f : α → Encoding β} {d d' : Draft}
    {cause : Error} (h : x d = .error cause d') : (x >>= f) d = .error cause d' := by
  simp only [bind, EStateM.bind, h]

theorem emit_bind {β : Type} (piece : String) (f : Unit → Encoding β) (d : Draft) :
    (emit piece >>= f) d = f () { d with text := d.text ++ piece } :=
  rfl

/-- The result of an encoding that comes to an outline and leaves a stack. -/
def Outline.result (o : Outline) (text : String) (stack : Stack) :
    EStateM.Result Error Draft Unit :=
  match o.fault with
  | none => .ok () ⟨stack, text ++ o.text⟩
  | some cause => .error cause ⟨stack, text ++ o.text⟩

/-- An encoding from a draft on ends as its outline says, with the stack where that says; `top` is
the greatest depth before. -/
def Follows (size : Nat) (x : Encoding Unit) (d : Draft) (top : Nat) (o : Outline) : Prop :=
  ∃ stack, x d = o.result d.text stack ∧ Stack.SameSetup stack d.stack ∧
    stack.Refines size ⟨o.depth, max top o.deepest⟩

variable {size depth top : Nat} {d : Draft}

theorem Follows.blank (h : d.stack.Refines size ⟨depth, top⟩) (fault : Option Error)
    {x : Encoding Unit} (hx : x d = (Outline.blank depth fault).result d.text d.stack) :
    Follows size x d top (.blank depth fault) := by
  refine ⟨d.stack, hx, ⟨rfl, rfl, rfl⟩, ?_⟩
  have hTop : (depth : Int) ≤ top := h.depth_le
  have hMax : max top depth = top := by omega
  simp only [Outline.blank, hMax]
  exact h

theorem Follows.fail (h : d.stack.Refines size ⟨depth, top⟩) (cause : Error) :
    Follows size (throw cause) d top (.blank depth (some cause)) := by
  refine .blank h (some cause) ?_
  simp only [Outline.result, Outline.blank, String.append_empty]
  rfl

/-- Two encodings, one behind the other, end as their outlines say together. -/
theorem Follows.andThen {x y : Encoding Unit} {first second : Outline}
    (hx : Follows size x d top first)
    (hy : first.fault = none → ∀ stack, Stack.SameSetup stack d.stack →
      stack.Refines size ⟨first.depth, max top first.deepest⟩ →
      Follows size y ⟨stack, d.text ++ first.text⟩ (max top first.deepest) second) :
    Follows size (x >>= fun _ => y) d top (first.andThen second) := by
  obtain ⟨stack, hRun, hSetup, hStack⟩ := hx
  unfold Outline.andThen
  cases hFault : first.fault with
  | some cause =>
    refine ⟨stack, ?_, hSetup, hStack⟩
    rw [Outline.result, hFault] at hRun ⊢
    exact bind_of_error hRun
  | none =>
    obtain ⟨last, hRun', hSetup', hStack'⟩ := hy hFault stack hSetup hStack
    refine ⟨last, ?_, hSetup'.trans hSetup, ?_⟩
    · rw [Outline.result, hFault] at hRun
      rw [bind_of_ok hRun, hRun']
      simp only [Outline.result, String.append_assoc]
    · rw [Nat.max_assoc] at hStack'
      exact hStack'

theorem openLevel_of_refines (h : d.stack.Refines size ⟨depth, top⟩)
    (hFault : openingFault? d.stack.step depth = none) :
    ∃ stack, openLevel d = .ok (openingAt d.stack.step depth) { d with stack := stack } ∧
      Stack.SameSetup stack d.stack ∧
      stack.Refines size ⟨(depth + 1 : Nat), max top (depth + 1)⟩ := by
  obtain ⟨slots, hPush, hAfter⟩ := h.push hFault
  exact ⟨_, indentBy_of_ok hPush, ⟨rfl, rfl, rfl⟩, hAfter⟩

theorem openLevel_of_fault (h : d.stack.Refines size ⟨depth, top⟩) {cause : Error}
    (hFault : openingFault? d.stack.step depth = some cause) :
    openLevel d = .error cause d :=
  indentBy_of_error (h.push_of_fault hFault)

theorem closeLevel_of_refines (h : d.stack.Refines size ⟨(depth + 1 : Nat), top⟩) :
    ∃ stack, closeLevel d = .ok (closingAt d.stack.step depth top) { d with stack := stack } ∧
      Stack.SameSetup stack d.stack ∧ stack.Refines size ⟨depth, top⟩ := by
  have hDepth : ((depth + 1 : Nat) : Int) - 1 = depth := by omega
  have hTop : ((depth + 1 : Nat) : Int) ≤ top := h.depth_le
  obtain ⟨slots, hPop, hAfter⟩ := h.pop (by dsimp only; omega)
  rw [hDepth] at hPop hAfter
  refine ⟨_, indentBy_of_ok hPop, ⟨rfl, rfl, rfl⟩, ?_⟩
  have hGoal : Standing.goTo ⟨(depth + 1 : Nat), top⟩ depth = ⟨depth, top⟩ := by
    simp only [Standing.goTo, Standing.mk.injEq, true_and]
    omega
  rw [← hGoal]
  exact hAfter

theorem closingAt_eq {step depth : Int} {top : Nat} (h : 2 ≤ top) :
    closingAt step depth top = closingAt step depth 2 := by
  simp only [closingAt, h, Nat.le_refl]

/-- An element whose tag can be written ends as its outline says, if its children do. -/
theorem Follows.wrap {tag : Tag} {children : List Node} {inner : Outline}
    (h : d.stack.Refines size ⟨depth, top⟩) (hFault : fault? tag children = none)
    (hFits : openingFault? d.stack.step depth = none)
    (hInner : ∀ stack text, Stack.SameSetup stack d.stack →
      stack.Refines size ⟨(depth + 1 : Nat), max top (depth + 1)⟩ →
      Follows size (encodeNodes children) ⟨stack, text⟩ (max top (depth + 1)) inner)
    (hDepth : inner.fault = none → inner.depth = depth + 1)
    (hDeepest : inner.fault = none → children ≠ [] → depth + 2 ≤ inner.deepest)
    (hLess : depth + 1 ≤ inner.deepest) :
    Follows size (encodeNode (.element tag children)) d top
      (.wrap d.stack.step depth tag children inner) := by
  obtain ⟨opened, hOpen, hSetup, hOpened⟩ := openLevel_of_refines h hFits
  unfold Follows
  rw [encodeNode, hFault]
  dsimp only
  rw [bind_of_ok hOpen, emit_bind, emit_bind]
  unfold Outline.wrap
  dsimp only
  by_cases hLeaf : (children.isEmpty && tag.text.isNone) = true
  · rw [if_pos hLeaf, if_pos hLeaf]
    obtain ⟨closed, hClose, hSetup', hClosed⟩ := closeLevel_of_refines
      (d := ⟨opened, d.text ++ openingAt d.stack.step depth ++ openingText tag⟩) hOpened
    refine ⟨closed, ?_, hSetup'.trans hSetup, hClosed⟩
    rw [bind_of_ok hClose]
    simp only [emit_apply, Outline.result, String.append_assoc]
  · rw [if_neg hLeaf, if_neg hLeaf, emit_bind, emit_bind]
    obtain ⟨left, hRun, hSetup', hLeft⟩ := hInner opened
      (d.text ++ openingAt d.stack.step depth ++ openingText tag ++ ">" ++ contentText tag)
      hSetup hOpened
    rw [Nat.max_assoc, Nat.max_eq_right hLess] at hLeft
    rw [Outline.result] at hRun
    cases hEnd : inner.fault with
    | some cause =>
      rw [hEnd] at hRun
      refine ⟨left, ?_, hSetup'.trans hSetup, hLeft⟩
      rw [bind_of_error hRun]
      simp only [Outline.result, String.append_assoc]
    | none =>
      rw [hEnd] at hRun
      rw [hDepth hEnd] at hLeft
      obtain ⟨closed, hClose, hSetup'', hClosed⟩ := closeLevel_of_refines (d := ⟨left, _⟩) hLeft
      refine ⟨closed, ?_, hSetup''.trans (hSetup'.trans hSetup), hClosed⟩
      rw [bind_of_ok hRun, bind_of_ok hClose, emit_bind]
      have hStep : left.step = d.stack.step := (hSetup'.trans hSetup).1
      have hIndent : (if children.isEmpty then ""
            else closingAt left.step depth (max top inner.deepest)) =
          if children.isEmpty then "" else closingAt d.stack.step depth 2 := by
        cases children with
        | nil => rfl
        | cons child rest =>
          have hTwo := hDeepest hEnd (by simp)
          rw [hStep, closingAt_eq (by omega)]
      dsimp only
      rw [hIndent]
      simp only [emit_apply, Outline.result, String.append_assoc]

mutual

/-- The encoding of a node does what its outline says. -/
theorem encodeNode_follows (node : Node) {d : Draft} {depth top : Nat}
    (h : d.stack.Refines size ⟨depth, top⟩) :
    Follows size (encodeNode node) d top (outline d.stack.step depth node) := by
  cases node with
  | foreign value =>
    rw [encodeNode, outline]
    exact .fail h _
  | element tag children =>
    rw [outline]
    cases hFault : fault? tag children with
    | some cause =>
      rw [encodeNode, hFault]
      exact .fail h cause
    | none =>
      cases hFits : openingFault? d.stack.step depth with
      | some cause =>
        refine .blank h (some cause) ?_
        rw [encodeNode, hFault]
        dsimp only
        rw [bind_of_error (openLevel_of_fault h hFits)]
        simp only [Outline.result, Outline.blank, String.append_empty]
      | none =>
        refine .wrap h hFault hFits ?_ depth_outlineAll depth_lt_deepest_outlineAll
          (depth_le_deepest_outlineAll _ _ _)
        intro stack text hSetup hStack
        have hInner := encodeNodes_follows children (d := ⟨stack, text⟩) hStack
        rw [hSetup.1] at hInner
        exact hInner

/-- The encoding of several nodes does what its outline says. -/
theorem encodeNodes_follows (nodes : List Node) {d : Draft} {depth top : Nat}
    (h : d.stack.Refines size ⟨depth, top⟩) :
    Follows size (encodeNodes nodes) d top (outlineAll d.stack.step depth nodes) := by
  cases nodes with
  | nil =>
    rw [encodeNodes, outlineAll]
    refine .blank h none ?_
    simp only [Outline.result, Outline.blank, String.append_empty]
    rfl
  | cons node rest =>
    rw [encodeNodes, outlineAll]
    refine .andThen (encodeNode_follows node h) ?_
    intro hNone stack hSetup hStack
    rw [depth_outline hNone] at hStack
    have hRest := encodeNodes_follows rest
      (d := ⟨stack, d.text ++ (outline d.stack.step depth node).text⟩) hStack
    rw [hSetup.1] at hRest
    exact hRest

end

/-- Encoding a tree comes to its outline at the document level, from whatever state of the stack. -/
theorem encodeWith_eq_outline {s : Stack} {p : Standing} (h : s.Refines size p) (root : Node) :
    (encodeWith s root).text = (outline s.step 0 root).text ∧
      (encodeWith s root).fault = (outline s.step 0 root).fault ∧
      Stack.SameSetup (encodeWith s root).stack s ∧
      (encodeWith s root).stack.Refines size
        ⟨(outline s.step 0 root).depth, max p.top (outline s.step 0 root).deepest⟩ := by
  have hReset : s.reset.Refines size ⟨(0 : Nat), p.top⟩ := by
    have hGoal : p.goTo 0 = ⟨(0 : Nat), p.top⟩ := by
      simp [Standing.goTo]
    rw [← hGoal]
    exact h.reset
  obtain ⟨stack, hRun, hSetup, hStack⟩ := encodeNode_follows root (d := ⟨s.reset, ""⟩) hReset
  unfold encodeWith EStateM.run
  rw [hRun, Outline.result]
  simp only [String.empty_append]
  cases hFault : (outline s.reset.step 0 root).fault with
  | none => exact ⟨rfl, hFault.symm, hSetup, hStack⟩
  | some cause => exact ⟨rfl, hFault.symm, hSetup, hStack⟩

theorem encodeToText_eq_outline (root : Node) (step : Int) :
    encodeToText root step = match (outline step 0 root).fault with
      | none => .ok (outline step 0 root).text
      | some cause => .error cause := by
  obtain ⟨hText, hFault, -⟩ := encodeWith_eq_outline (s := .ofStep step)
    (.of_fresh step 16 false .fromSlot) root
  unfold encodeToText
  dsimp only
  rw [hText, hFault]
  rfl

end XmlLayout.Writing
