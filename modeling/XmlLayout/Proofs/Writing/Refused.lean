import XmlLayout.Proofs.Document.Preorder
import XmlLayout.Proofs.Writing.Rendered
import XmlLayout.Proofs.Writing.Sharing

/-!
# What an encoding leaves that fails

The first node in document order that cannot be written ends an encoding. It is invalid, or it
stands at a level whose indent is too wide. What was written then is what every text begins with
whose tree is the same up to that node, and it ends in front of the indent of the node; the stack
stands at the depth of the node.

* `fault?_eq_some_iff`, `refused_iff`: the checks find the nodes that cannot be written.
* `fault_outline`: an encoding ends at the first of them.
* `outline_plug`: what it has come to then.
* `encode_stops_at_first`: all of this for a writer in any state.
* `not_forall_encode_invalid`: it is not always the first invalid node that ends an encoding.
-/

namespace XmlLayout.Writing

open Document Indent

/-! ## Nodes that cannot be written -/

/-- A node that cannot be written wherever it stands, and the first cause for it. -/
inductive Invalid : Node → Error → Prop
  | foreign (value : Foreign) : Invalid (.foreign value) (.notElement value.kind)
  | text {tag : Tag} {children : List Node} (hChildren : children ≠ [])
      (hText : tag.text.getD "" ≠ "") :
      Invalid (.element tag children) (.textAndChildren tag.name)
  | key {tag : Tag} {children : List Node} {legal others : List String} {key : String}
      (hText : children = [] ∨ tag.text.getD "" = "")
      (hKeys : tag.attributes.keys = legal ++ key :: others)
      (hLegal : ∀ name ∈ legal, isLegalName name = true) (hKey : isLegalName key = false) :
      Invalid (.element tag children) (.illegalAttributeName key)

/-- A node that cannot be written at a depth, and the first cause for it: where the node itself is
valid the indent in front of it is too wide. -/
def Refused (step : Int) (depth : Nat) (node : Node) (cause : Error) : Prop :=
  Invalid node cause ∨
    (∀ other, ¬Invalid node other) ∧ memoryLimit < depth * step ∧
      cause = if largestLength < depth * step then .widthTooLarge else .outOfMemory

theorem fault?_eq_some_iff {tag : Tag} {children : List Node} {cause : Error} :
    fault? tag children = some cause ↔ Invalid (.element tag children) cause := by
  have hCheck : (!children.isEmpty && decide (tag.text.getD "" ≠ "")) = true ↔
      children ≠ [] ∧ tag.text.getD "" ≠ "" := by
    rw [Bool.and_eq_true, Bool.not_eq_true', decide_eq_true_eq, List.isEmpty_eq_false_iff]
  unfold fault?
  constructor
  · intro h
    split at h
    · rename_i hBoth
      obtain ⟨hChildren, hText⟩ := hCheck.mp hBoth
      cases h
      exact .text hChildren hText
    · rename_i hBoth
      obtain ⟨key, hFind, rfl⟩ := Option.map_eq_some_iff.mp h
      obtain ⟨hKey, legal, others, hKeys, hLegal⟩ := List.find?_eq_some_iff_append.mp hFind
      refine .key ?_ hKeys ?_ (by simpa using hKey)
      · by_cases hChildren : children = []
        · exact Or.inl hChildren
        · exact Or.inr (Decidable.byContradiction fun hText => hBoth (hCheck.mpr ⟨hChildren, hText⟩))
      · intro name hName
        simpa using hLegal name hName
  · intro h
    cases h with
    | text hChildren hText => rw [if_pos (hCheck.mpr ⟨hChildren, hText⟩)]
    | key hText hKeys hLegal hKey =>
      have hNot : ¬(children ≠ [] ∧ tag.text.getD "" ≠ "") := by
        rintro ⟨hChildren, hSome⟩
        rcases hText with hNil | hNone
        · exact hChildren hNil
        · exact hSome hNone
      rw [if_neg (mt hCheck.mp hNot), Option.map_eq_some_iff]
      refine ⟨_, List.find?_eq_some_iff_append.mpr ⟨by simp [hKey], _, _, hKeys, ?_⟩, rfl⟩
      intro name hName
      simp [hLegal name hName]

/-- Why a node cannot be written at a depth, by the checks of an encoding. -/
def stop? (step : Int) : Nat × Node → Option Error
  | (_, .foreign value) => some (.notElement value.kind)
  | (depth, .element tag children) => (fault? tag children).or (openingFault? step depth)

theorem openingFault?_eq_some_iff {step : Int} {depth : Nat} {cause : Error} :
    openingFault? step depth = some cause ↔ memoryLimit < depth * step ∧
      cause = if largestLength < depth * step then .widthTooLarge else .outOfMemory := by
  have hPositive : 0 ≤ memoryLimit := by decide
  have hLess : memoryLimit ≤ largestLength := by decide
  unfold openingFault? Stack.widthFault?
  split
  · rename_i hNone
    have hProduct : depth * step ≤ 0 := by
      rcases hNone with hStep | hDepth
      · exact Int.mul_nonpos_of_nonneg_of_nonpos (by omega) hStep
      · have hZero : (depth : Int) = 0 := by omega
        simp [hZero]
    simp only [reduceCtorEq, false_iff]
    omega
  · split
    · rename_i hWord
      have hWide : memoryLimit < depth * step := by omega
      simp only [Option.some.injEq, hWide, true_and, eq_comm]
    · split
      · rename_i hWide
        simp only [Option.some.injEq, hWide, true_and, eq_comm]
      · rename_i hWide
        simp only [reduceCtorEq, hWide, false_and]

theorem refused_iff {step : Int} {depth : Nat} {node : Node} {cause : Error} :
    Refused step depth node cause ↔ stop? step (depth, node) = some cause := by
  unfold Refused
  cases node with
  | foreign value =>
    rw [stop?, Option.some.injEq]
    constructor
    · rintro (h | ⟨hValid, -⟩)
      · cases h
        rfl
      · exact absurd (.foreign value) (hValid _)
    · rintro rfl
      exact Or.inl (.foreign value)
  | element tag children =>
    rw [stop?, ← fault?_eq_some_iff, ← openingFault?_eq_some_iff]
    simp only [← fault?_eq_some_iff]
    cases hFault : fault? tag children with
    | some other => simp
    | none => simp

theorem stop?_eq_none_iff {step : Int} {entry : Nat × Node} :
    stop? step entry = none ↔ ∀ cause, ¬Refused step entry.1 entry.2 cause := by
  simp only [refused_iff, Option.eq_none_iff_forall_ne_some, ne_eq]

/-- Nothing is written of a node that cannot be written. -/
theorem outline_of_stop {step : Int} {depth : Nat} {node : Node} {cause : Error}
    (h : stop? step (depth, node) = some cause) :
    outline step depth node = .blank depth (some cause) := by
  cases node with
  | foreign value =>
    cases h
    rfl
  | element tag children =>
    rw [stop?] at h
    rw [outline]
    cases hTag : fault? tag children with
    | some other =>
      rw [hTag] at h
      exact congrArg (Outline.blank depth) h
    | none =>
      rw [hTag, Option.none_or] at h
      rw [h]

/-! ## The first of them -/

mutual

/-- An encoding ends at the first node, in document order, that cannot be written. -/
theorem fault_outline (step : Int) (depth : Nat) (node : Node) :
    (outline step depth node).fault = (node.preorder depth).findSome? (stop? step) := by
  cases node with
  | foreign value => rfl
  | element tag children =>
    have hInner := fault_outlineAll step (depth + 1) children
    rw [fault_outline_element, Node.preorder, List.findSome?_cons, stop?, ← hInner]
    cases (fault? tag children).or (openingFault? step depth) with
    | some cause => rfl
    | none => rfl

theorem fault_outlineAll (step : Int) (depth : Nat) (nodes : List Node) :
    (outlineAll step depth nodes).fault =
      (Node.preorderAll depth nodes).findSome? (stop? step) := by
  cases nodes with
  | nil => rfl
  | cons node rest =>
    rw [outlineAll, Node.preorderAll, List.findSome?_append, Outline.fault_andThen,
      fault_outline step depth node, fault_outlineAll step depth rest]

end

/-! ## Levels -/

/-- The greatest depth of some nodes, zero if there are none. -/
def greatestDepth (entries : List (Nat × Node)) : Nat :=
  (entries.map Prod.fst).foldr max 0

/-- The number of levels down to the greatest depth of some nodes. -/
def levels (entries : List (Nat × Node)) : Nat :=
  (entries.map fun entry => entry.1 + 1).foldr max 0

theorem levels_cons (entry : Nat × Node) (entries : List (Nat × Node)) :
    levels (entry :: entries) = max (entry.1 + 1) (levels entries) :=
  rfl

theorem levels_append (entries others : List (Nat × Node)) :
    levels (entries ++ others) = max (levels entries) (levels others) := by
  induction entries with
  | nil => exact (Nat.zero_max _).symm
  | cons entry rest ih => rw [List.cons_append, levels_cons, levels_cons, ih, Nat.max_assoc]

theorem levels_sub_one (entries : List (Nat × Node)) :
    levels entries - 1 = greatestDepth entries := by
  induction entries with
  | nil => rfl
  | cons entry rest ih =>
    have hCons : greatestDepth (entry :: rest) = max entry.1 (greatestDepth rest) := rfl
    rw [levels_cons, hCons, ← ih]
    omega

mutual

theorem deepest_outline {step : Int} {depth : Nat} {node : Node}
    (h : (outline step depth node).fault = none) :
    (outline step depth node).deepest = max depth (levels (node.preorder depth)) := by
  cases node with
  | foreign value => cases h
  | element tag children =>
    rw [fault_outline_element, Option.or_eq_none_iff, Option.or_eq_none_iff] at h
    obtain ⟨⟨hTag, hHere⟩, hInner⟩ := h
    have hBelow := deepest_outlineAll hInner
    rw [outline_eq_wrap hTag hHere, Node.preorder, levels_cons]
    unfold Outline.wrap
    dsimp only
    split
    · -- A level is opened for an element without content too, and closed at once.
      rename_i hLeaf
      rw [Bool.and_eq_true, List.isEmpty_iff] at hLeaf
      rw [hLeaf.1, Node.preorderAll]
      simp only [levels, List.map_nil, List.foldr_nil]
      omega
    · rw [hInner]
      dsimp only
      omega

theorem deepest_outlineAll {step : Int} {depth : Nat} {nodes : List Node}
    (h : (outlineAll step depth nodes).fault = none) :
    (outlineAll step depth nodes).deepest = max depth (levels (Node.preorderAll depth nodes)) := by
  cases nodes with
  | nil => exact (Nat.max_zero depth).symm
  | cons node rest =>
    rw [outlineAll, Outline.fault_andThen, Option.or_eq_none_iff] at h
    have hFirst := deepest_outline h.1
    have hRest := deepest_outlineAll h.2
    rw [outlineAll, Outline.andThen, h.1, Node.preorderAll, levels_append]
    dsimp only
    omega

end

/-! ## What is written up to a node -/

/-- What is written of the elements on a path and of the nodes in front of it. -/
def textBefore (step : Int) (depth : Nat) : List (Tag × List Node) → String
  | [] => ""
  | (tag, before) :: rest =>
    openingIndent step depth ++ openingText tag ++ ">" ++ contentText tag ++
      renderAll step (depth + 1) before ++ textBefore step (depth + 1) rest

theorem renderAll_append (step : Int) (depth : Nat) (nodes others : List Node) :
    renderAll step depth (nodes ++ others) =
      renderAll step depth nodes ++ renderAll step depth others := by
  induction nodes with
  | nil => exact String.empty_append.symm
  | cons node rest ih => rw [List.cons_append, renderAll, renderAll, ih, String.append_assoc]

/-- The rendering of a tree begins with what stands in front of any of its nodes. -/
theorem render_plug (step : Int) (depth : Nat) (path : Path) (node : Node) :
    ∃ rest, render step depth (path.plug node) =
      textBefore step depth path.passed ++ render step (depth + path.depth) node ++ rest := by
  induction path generalizing depth with
  | root =>
    refine ⟨"", ?_⟩
    rw [Path.plug, Path.passed, textBefore, String.empty_append, String.append_empty]
    rfl
  | into tag before rest after ih =>
    obtain ⟨behind, hRest⟩ := ih (depth + 1)
    have hDepth : depth + (rest.depth + 1) = depth + 1 + rest.depth := by omega
    have hSome : (before ++ rest.plug node :: after).isEmpty = false := by simp
    rw [Path.plug, render, hSome, Bool.false_and, renderAll_append, renderAll, hRest, Path.passed,
      textBefore, Path.depth_into, hDepth]
    refine ⟨behind ++ renderAll step (depth + 1) after ++ closingIndent step depth ++
      closingText tag, ?_⟩
    simp only [Bool.false_eq_true, if_false, String.append_assoc]

/-- What the encoding of several nodes comes to, when one of them ends it. -/
theorem outlineAll_append_cons {step : Int} {depth : Nat} {before after : List Node} {node : Node}
    (hBefore : (outlineAll step depth before).fault = none) {cause : Error}
    (hNode : (outline step depth node).fault = some cause) :
    outlineAll step depth (before ++ node :: after) =
      ⟨renderAll step depth before ++ (outline step depth node).text, some cause,
        (outline step depth node).depth,
        max (outlineAll step depth before).deepest (outline step depth node).deepest⟩ := by
  -- What comes behind the node is never looked at, so it is left as it is.
  induction before with
  | nil =>
    have hLess := depth_le_deepest_outline step depth node
    have hNil : outlineAll step depth [] = .blank depth none := by rw [outlineAll]
    have hCons : outlineAll step depth (node :: after) =
        (outline step depth node).andThen (outlineAll step depth after) := by rw [outlineAll]
    rw [List.nil_append, hCons, hNil, Outline.andThen, hNode, renderAll, String.empty_append]
    simp only [Outline.blank, Nat.max_eq_right hLess, ← hNode]
  | cons first rest ih =>
    rw [outlineAll, Outline.fault_andThen, Option.or_eq_none_iff] at hBefore
    rw [List.cons_append, outlineAll, ih hBefore.2, outlineAll, renderAll]
    simp only [Outline.andThen, hBefore.1, (outline_of_fault_eq_none hBefore.1).2,
      String.append_assoc, Nat.max_assoc]

/-- What an encoding has come to at the first node that cannot be written. -/
theorem outline_plug {step : Int} {depth : Nat} {path : Path} {node : Node} {cause : Error}
    (hEarlier : ∀ entry ∈ path.earlier node depth, stop? step entry = none)
    (hNode : stop? step (depth + path.depth, node) = some cause) :
    outline step depth (path.plug node) =
      ⟨textBefore step depth path.passed, some cause, depth + path.depth,
        max depth (levels (path.earlier node depth))⟩ := by
  -- Induction on the way: an element on it has children, so it is no single tag, and what ends the
  -- encoding of its children ends its own in front of its closing tag.
  induction path generalizing depth with
  | root =>
    have hBlank : outline step depth node = .blank depth (some cause) := outline_of_stop hNode
    rw [Path.plug, hBlank, Path.earlier, Path.passed, textBefore]
    simp only [Outline.blank, Path.depth, Path.passed, List.length_nil, Nat.add_zero, levels,
      List.map_nil, List.foldr_nil, Nat.max_zero]
  | into tag before rest after ih =>
    rw [Path.earlier, List.forall_mem_cons, List.forall_mem_append] at hEarlier
    obtain ⟨hHere, hBefore, hRest⟩ := hEarlier
    have hDepth : depth + (rest.depth + 1) = depth + 1 + rest.depth := by omega
    rw [Path.depth_into, hDepth] at hNode
    have hInner := ih hRest hNode
    have hSound : (outlineAll step (depth + 1) before).fault = none := by
      rw [fault_outlineAll]
      exact List.findSome?_eq_none_iff.mpr hBefore
    rw [Path.plug, stop?, Option.or_eq_none_iff] at hHere
    have hSome : (before ++ rest.plug node :: after).isEmpty = false := by simp
    have hStop : (outline step (depth + 1) (rest.plug node)).fault = some cause :=
      congrArg Outline.fault hInner
    rw [Path.plug, outline_eq_wrap hHere.1 hHere.2, outlineAll_append_cons hSound hStop,
      Outline.wrap, hSome, hInner, deepest_outlineAll hSound]
    simp only [Bool.false_and, Bool.false_eq_true, if_false, openingAt_eq_openingIndent,
      Path.passed, textBefore, Path.depth_into, hDepth, Path.earlier, levels_cons, levels_append,
      String.append_assoc, Outline.mk.injEq, true_and]
    omega

/-! ## Writers -/

/-- A writer fails as the outline of the tree does, whatever state it is in. -/
theorem Writer.Steady.fault_encode {size : Nat} {step : Int} {w : Writer} (h : w.Steady size step)
    (root : Node) : (w.encode root).1 = (outline step 0 root).fault := by
  obtain ⟨hStep, p, hStack⟩ := h
  obtain ⟨-, hFault, -⟩ := encodeWith_eq_outline hStack root
  rw [hStep] at hFault
  exact hFault

/-- What an encoding that ends at a node leaves of a writer. -/
theorem Writer.Steady.encode_plug {size : Nat} {step : Int} {w : Writer} (h : w.Steady size step)
    {path : Path} {node : Node} {cause : Error}
    (hEarlier : ∀ entry ∈ path.earlier node 0, ∀ other, ¬Refused step entry.1 entry.2 other)
    (hNode : Refused step path.depth node cause) :
    let (fault, behind) := w.encode (path.plug node)
    fault = some cause ∧ behind.buffer = .written (textBefore step 0 path.passed) ∧
      behind.stack.depth = path.depth ∧
      behind.stack.width = (if 0 < step then path.depth * step else 0) ∧
      behind.stack.reached = if 0 < step then
        max w.stack.reached (greatestDepth (path.earlier node 0)) else w.stack.reached := by
  obtain ⟨hStep, p, hStack⟩ := h
  have hStops : stop? step (0 + path.depth, node) = some cause := by
    rw [Nat.zero_add]
    exact refused_iff.mp hNode
  have hOutline := outline_plug (fun entry hEntry => stop?_eq_none_iff.mpr (hEarlier entry hEntry))
    hStops
  obtain ⟨hText, hFault, hSetup, hAfter⟩ := encodeWith_eq_outline hStack (path.plug node)
  rw [hStep, hOutline] at hText hFault hAfter
  have hBehind := hAfter.reached_eq
  have hBefore := hStack.reached_eq
  rw [hSetup.1.trans hStep] at hBehind
  rw [hStep] at hBefore
  refine ⟨hFault, congrArg Buffer.written hText, ?_, ?_, ?_⟩
  · have hDepth := hAfter.depth_eq
    rw [Nat.zero_add] at hDepth
    exact hDepth
  · have hWidth := hAfter.width_eq
    rw [Stack.stride, hSetup.1, hStep, Nat.zero_add] at hWidth
    change (encodeWith w.stack (path.plug node)).stack.width = _
    rw [hWidth]
    split
    · rfl
    · exact Int.mul_zero _
  · change (encodeWith w.stack (path.plug node)).stack.reached = _
    rw [hBehind, hBefore, ← levels_sub_one]
    split
    · dsimp only
      omega
    · rfl

/-- A tree of which every node can be written is encoded without a failure. -/
theorem Writer.Steady.encode_of_sound {size : Nat} {step : Int} {w : Writer}
    (h : w.Steady size step) {root : Node}
    (hSound : ∀ entry ∈ root.preorder 0, ∀ cause, ¬Refused step entry.1 entry.2 cause) :
    (w.encode root).1 = none := by
  rw [h.fault_encode, fault_outline, List.findSome?_eq_none_iff]
  intro entry hEntry
  exact stop?_eq_none_iff.mpr (hSound entry hEntry)

/-- Every text begins with what is written up to one of its elements, and goes on with the indent
and the opening tag of that element. -/
theorem textBefore_of_encodeToText {step : Int} {path : Path} {tag : Tag} {children : List Node}
    {text : String} (h : encodeToText (path.plug (.element tag children)) step = .ok text) :
    ∃ rest, text = textBefore step 0 path.passed ++ openingIndent step path.depth ++ "<" ++ rest := by
  obtain ⟨-, rfl⟩ := eq_render_of_encodeToText h
  obtain ⟨behind, hPlug⟩ := render_plug step 0 path (.element tag children)
  rw [hPlug, Nat.zero_add, render, openingText]
  simp only [String.append_assoc, String.append_right_inj]
  exact ⟨_, rfl⟩

/-- A writer at a desk, behind any history of its own tasks, those of others and moves on the stack,
encodes a tree without a failure if every node can be written. Otherwise it fails at the first node
in document order that cannot, and for the cause that holds there. Then its buffer has what was
written up to that node: every text of a tree that has an element in place of the node, and differs
only in what comes later, goes on from there with the indent and the tag of that element. The stack
stands at the depth of the node, and remembers the greatest depth that was come to. -/
theorem Desk.encode_stops_at_first (step : Int) (size : Nat) (strict : Bool) (reuse : Reuse)
    (count : Nat) (history : List (Fin count × Task)) (i : Fin count) (root : Node) :
    let w := ((ofStack (.fresh step size strict reuse) count).after history).writer i
    let (fault, behind) := w.encode root
    (fault = none ∧
        ∀ entry ∈ root.preorder 0, ∀ cause, ¬Refused step entry.1 entry.2 cause) ∨
      ∃ (path : Path) (node : Node) (cause : Error), root = path.plug node ∧
        (∃ later, root.preorder 0 = path.earlier node 0 ++ (path.depth, node) :: later) ∧
        (∀ entry ∈ path.earlier node 0, ∀ other, ¬Refused step entry.1 entry.2 other) ∧
        Refused step path.depth node cause ∧ fault = some cause ∧
        behind.buffer = .written (textBefore step 0 path.passed) ∧
        (∀ (other : Path) (tag : Tag) (children : List Node) (text : String),
          other.passed = path.passed →
          encodeToText (other.plug (.element tag children)) step = .ok text →
            ∃ rest, text =
              textBefore step 0 path.passed ++ openingIndent step path.depth ++ "<" ++ rest) ∧
        behind.stack.depth = path.depth ∧
        behind.stack.width = (if 0 < step then path.depth * step else 0) ∧
        behind.stack.reached = if 0 < step then
          max w.stack.reached (greatestDepth (path.earlier node 0)) else w.stack.reached := by
  intro w
  have hSteady : w.Steady size step :=
    ((steady_ofStack step size strict reuse count).after history).writer i
  by_cases hSome : ∃ entry ∈ root.preorder 0, ∃ cause, Refused step entry.1 entry.2 cause
  · right
    obtain ⟨path, node, rfl, ⟨cause, hNode⟩, hEarlier⟩ := Path.exists_first hSome
    rw [Nat.zero_add] at hNode
    have hBefore : ∀ entry ∈ path.earlier node 0, ∀ other, ¬Refused step entry.1 entry.2 other :=
      fun entry hEntry other hOther => hEarlier entry hEntry ⟨other, hOther⟩
    obtain ⟨later, hOrder⟩ := path.preorder_plug node 0
    rw [Nat.zero_add] at hOrder
    obtain ⟨hFault, hBuffer, hState⟩ := hSteady.encode_plug hBefore hNode
    refine ⟨path, node, cause, rfl, ⟨later, hOrder⟩, hBefore, hNode, hFault, hBuffer, ?_, hState⟩
    intro other tag children text hPassed hText
    obtain ⟨rest, hRest⟩ := textBefore_of_encodeToText hText
    rw [hPassed, Path.depth, hPassed] at hRest
    exact ⟨rest, hRest⟩
  · have hSound : ∀ entry ∈ root.preorder 0, ∀ cause, ¬Refused step entry.1 entry.2 cause :=
      fun entry hEntry cause hCause => hSome ⟨entry, hEntry, cause, hCause⟩
    exact Or.inl ⟨hSteady.encode_of_sound hSound, hSound⟩

/-- The way to the second child of an element, past a child that is valid. -/
def secondChild : Path :=
  .into ⟨"r", .empty, none⟩ [.element ⟨"a", .empty, none⟩ []] .root []

/-- An element with an attribute whose name is not legal. -/
def badlyNamed : Node :=
  .element ⟨"b", ⟨[("1", "x")], by decide⟩, none⟩ []

/-- It is not always the first invalid node that ends an encoding: the indent of an earlier node may
be too wide. -/
theorem not_forall_encode_invalid :
    ¬∀ (step : Int) (path : Path) (node : Node) (cause : Error), 0 < step →
      (∀ entry ∈ path.earlier node 0, ∀ other, ¬Invalid entry.2 other) → Invalid node cause →
        encodeToText (path.plug node) step = .error cause := by
  intro h
  have hValid {tag : Tag} {children : List Node} (hTag : fault? tag children = none)
      (other : Error) : ¬Invalid (.element tag children) other := by
    rw [← fault?_eq_some_iff, hTag]
    exact Option.some_ne_none other ∘ Eq.symm
  have hEarlier : ∀ entry ∈ secondChild.earlier badlyNamed 0, ∀ other, ¬Invalid entry.2 other := by
    intro entry hEntry
    rcases List.mem_cons.mp hEntry with rfl | hEntry
    · exact hValid (by decide)
    · rw [List.mem_singleton.mp hEntry]
      exact hValid (by decide)
  have hNode : Invalid badlyNamed (.illegalAttributeName "1") :=
    fault?_eq_some_iff.mp (by decide)
  have hText := h (2 ^ 63) secondChild badlyNamed _ (by decide) hEarlier hNode
  have hFault : (outline (2 ^ 63) 0 (secondChild.plug badlyNamed)).fault = some .widthTooLarge := by
    rw [fault_outline]
    decide +kernel
  rw [encodeToText_eq_outline, hFault] at hText
  cases hText

end XmlLayout.Writing
