import XmlLayout.Proofs.Reading.Feed
import XmlLayout.Proofs.Document.Shape
import XmlLayout.Writing.Rendering

/-!
# Reading a rendered tree

The text of a tree is read back as the tree, with the indents as texts in front of first children,
with line ends made one, and with the default namespaces that it declares (`readBackIn`; without any,
`readBack`). Reading goes through the tree as rendering does: what is between two tags goes to the
innermost open element, and what is in a node is closed with it.

* `Progress.feed_render`: what reading a node does, wherever it stands.
* `Progress.feed_render_eq_none`: a node that declares what it may not is not read.
-/

namespace XmlLayout.Writing

open Document (Tag Node)
open Reading (LegalTag)

/-- An element that can be told from its tags: its names are legal, and it has no text in front of
children. -/
structure Legible (tag : Tag) (children : List Node) : Prop where
  legal : LegalTag tag
  text : children ≠ [] → tag.text.getD "" = ""

end XmlLayout.Writing

namespace XmlLayout.Reading

open Document (Tag Node)
open Writing

/-- An element that is read back from its tags: its names are legal, it declares no namespace, and
it has no text in front of children. -/
structure Readable (tag : Tag) (children : List Node) : Prop where
  legal : LegalTag tag
  keys : "xmlns" ∉ tag.attributes.keys
  text : children ≠ [] → tag.text.getD "" = ""

theorem Readable.legible {tag : Tag} {children : List Node} (h : Readable tag children) :
    Legible tag children :=
  ⟨h.legal, h.text⟩

theorem Readable.declaresNone {tag : Tag} {children : List Node} (h : Readable tag children) :
    DeclaresNone tag children :=
  h.keys

/-! ## What is read -/

/-- A text as it is kept: no text if it is empty. -/
def keptText (text : List Char) : Option String :=
  if text = [] then none else some (String.ofList text)

/-- The text of an element as it is read: its own, or the indent of its first child. -/
def innerText (step : Int) (depth : Nat) (tag : Tag) (children : List Node) : List Char :=
  if children.isEmpty then normalizeLineEnds (tag.text.getD "").toList
  else (openingIndent step (depth + 1)).toList

mutual

/-- What a rendered node is read as. Nothing is rendered for a plain value. -/
def readBack (step : Int) (depth : Nat) : Node → Tree
  | .foreign _ => .element ⟨"", .empty, none⟩ []
  | .element tag children =>
    .element { tag with text := keptText (innerText step depth tag children) }
      (readBackAll step (depth + 1) children)

def readBackAll (step : Int) (depth : Nat) : List Node → List Tree
  | [] => []
  | node :: rest => readBack step depth node :: readBackAll step depth rest

end

mutual

/-- What a rendered node is read as, where `space` is the default namespace around it. -/
def readBackIn (space : String) (step : Int) (depth : Nat) : Node → Tree
  | .foreign _ => .element ⟨"", .empty, none⟩ []
  | .element tag children =>
    .element
      { tagIn (spaceInside space tag) tag with text := keptText (innerText step depth tag children) }
      (readBackAllIn (spaceInside space tag) step (depth + 1) children)

def readBackAllIn (space : String) (step : Int) (depth : Nat) : List Node → List Tree
  | [] => []
  | node :: rest => readBackIn space step depth node :: readBackAllIn space step depth rest

end

theorem readBackAllIn_ne_nil {space : String} {step : Int} {depth : Nat} {nodes : List Node}
    (h : nodes ≠ []) : readBackAllIn space step depth nodes ≠ [] := by
  cases nodes with
  | nil => exact absurd rfl h
  | cons node rest =>
    rw [readBackAllIn]
    exact List.cons_ne_nil _ _

mutual

/-- Without declarations every name is read as it is written. -/
theorem readBackIn_eq_readBack (step : Int) (depth : Nat) {node : Node}
    (h : node.Every Readable) : readBackIn "" step depth node = readBack step depth node := by
  cases node with
  | foreign value => rfl
  | element tag children =>
    rw [Node.Every] at h
    have hNone := h.1.declaresNone
    rw [readBackIn, readBack, hNone.spaceInside_eq, hNone.tagIn_eq,
      readBackAllIn_eq_readBackAll step (depth + 1) h.2]

theorem readBackAllIn_eq_readBackAll (step : Int) (depth : Nat) {nodes : List Node}
    (h : Node.EveryAll Readable nodes) :
    readBackAllIn "" step depth nodes = readBackAll step depth nodes := by
  cases nodes with
  | nil => rfl
  | cons node rest =>
    rw [Node.EveryAll] at h
    rw [readBackAllIn, readBackAll, readBackIn_eq_readBack step depth h.1,
      readBackAllIn_eq_readBackAll step depth h.2]

end

/-! ## Indents -/

/-- Text of line feeds and spaces. -/
def IsLayout (text : List Char) : Prop :=
  ∀ c ∈ text, c = '\n' ∨ c = ' '

theorem isLayout_indentText (width : Int) : IsLayout (Indent.indentText width).toList := by
  intro c hc
  rw [Indent.toList_indentText, List.mem_cons, List.mem_replicate] at hc
  exact hc.imp_right And.right

theorem isLayout_openingIndent (step : Int) (depth : Nat) :
    IsLayout (openingIndent step depth).toList := by
  unfold openingIndent
  split
  · intro c hc
    simp at hc
  · exact isLayout_indentText _

theorem isLayout_closingIndent (step : Int) (depth : Nat) :
    IsLayout (closingIndent step depth).toList := by
  unfold closingIndent
  split
  · intro c hc
    simp at hc
  · exact isLayout_indentText _

theorem IsLayout.escape_eq {text : List Char} (h : IsLayout text) : escape text = text := by
  induction text with
  | nil => rfl
  | cons c rest ih =>
    have hRest : escape rest = rest := ih fun d hd => h d (by simp [hd])
    have hChar : escapeChar c = [c] := by
      rcases h c (by simp) with rfl | rfl <;> rfl
    rw [escape, List.flatMap_cons, ← escape, hChar, hRest, List.singleton_append]

theorem IsLayout.normalizeLineEnds_eq {text : List Char} (h : IsLayout text) :
    normalizeLineEnds text = text := by
  refine normalizeLineEnds_of_not_mem fun hMem => ?_
  rcases h _ hMem with hEq | hEq <;> exact absurd hEq (by decide)

/-! ## Frames with children -/

/-- Adds an indent and a finished child to an open element. -/
def Frame.addChild (indent : List Char) (f : Frame) (tree : Tree) : Frame :=
  { f.addText indent with children := tree :: f.children }

namespace Frame

variable {f : Frame} {indent : List Char}

theorem scope_addChild (tree : Tree) : (f.addChild indent tree).scope = f.scope := by
  unfold addChild addText
  split <;> rfl

@[simp]
theorem children_addText (text : List Char) : (f.addText text).children = f.children := by
  unfold addText
  split <;> rfl

@[simp]
theorem scope_addText (text : List Char) : (f.addText text).scope = f.scope := by
  unfold addText
  split <;> rfl

theorem addText_of_children (h : f.children ≠ []) (text : List Char) : f.addText text = f :=
  if_neg h

theorem foldl_addChild_of_children (h : f.children ≠ []) (trees : List Tree) :
    trees.foldl (addChild indent) f = { f with children := trees.reverse ++ f.children } := by
  induction trees generalizing f with
  | nil => rfl
  | cons tree rest ih =>
    rw [List.foldl_cons, addChild, addText_of_children h, ih (List.cons_ne_nil _ _)]
    simp

end Frame

/-- An element that was read up to its closing tag. -/
def filledFrame (scope : Scope) (tag : Tag) (text : List Char) (trees : List Tree) : Frame :=
  { (openFrame scope tag).addText text with children := trees.reverse }

section Filled

variable {scope : Scope} {tag : Tag} {trees : List Tree}

theorem addText_openFrame (text : List Char) :
    (openFrame scope tag).addText text = filledFrame scope tag text [] := by
  simp [filledFrame, Frame.addText, openFrame]

/-- The first child gets the indent in front of it, and the others add nothing to the text. -/
theorem foldl_addChild_openFrame (indent : List Char) (h : trees ≠ []) :
    trees.foldl (Frame.addChild indent) (openFrame scope tag) =
      filledFrame scope tag indent trees := by
  cases trees with
  | nil => exact absurd rfl h
  | cons tree rest =>
    have hFirst : (Frame.addChild indent (openFrame scope tag) tree).children ≠ [] :=
      List.cons_ne_nil _ _
    rw [List.foldl_cons, Frame.foldl_addChild_of_children hFirst, Frame.addChild, filledFrame]
    simp [openFrame]

theorem addText_filledFrame {indent : List Char} (h : trees ≠ []) (text : List Char) :
    (filledFrame scope tag indent trees).addText text = filledFrame scope tag indent trees :=
  Frame.addText_of_children (by simpa [filledFrame] using h) text

@[simp]
theorem written_filledFrame (text : List Char) :
    (filledFrame scope tag text trees).written = ⟨none, tag.name.toList⟩ :=
  rfl

theorem close_filledFrame (text : List Char) :
    (filledFrame scope tag text trees).close =
      .element { tagIn (spaceInside scope.space tag) tag with text := keptText text } trees := by
  have hText : (filledFrame scope tag text trees).text = text.reverse := by
    simp [filledFrame, Frame.addText, openFrame, List.reverseAux_eq]
  have hChildren : (filledFrame scope tag text trees).children = trees.reverse := rfl
  rw [Frame.close, keptText, ← space_inside]
  simp only [hText, hChildren, List.reverse_eq_nil_iff, List.reverse_reverse]
  rfl

end Filled

/-! ## Nodes -/

def closingChars (name : String) : List Char :=
  '<' :: '/' :: (name.toList ++ ['>'])

/-- What is rendered of an element behind its indent. -/
def bodyChars (step : Int) (depth : Nat) (tag : Tag) (children : List Node) : List Char :=
  '<' :: (tagChars tag ++
    if children.isEmpty && tag.text.isNone then ['/', '>']
    else
      '>' :: (escape (tag.text.getD "").toList ++ ((renderAll step (depth + 1) children).toList ++
        ((if children.isEmpty then [] else (closingIndent step depth).toList) ++
          closingChars tag.name))))

theorem toList_render (step : Int) (depth : Nat) (tag : Tag) (children : List Node) :
    (render step depth (.element tag children)).toList =
      (openingIndent step depth).toList ++ bodyChars step depth tag children := by
  have hClosing : (closingText tag).toList = closingChars tag.name := toList_closingText tag
  have hContent : (contentText tag).toList = escape (tag.text.getD "").toList :=
    String.toList_ofList
  rw [render, bodyChars]
  simp only [String.toList_append, toList_openingText, List.append_assoc, List.cons_append]
  split
  · rfl
  · simp only [String.toList_append, hClosing, hContent, List.append_assoc]
    split <;> rfl

/-- What stands behind the opening tag of an element with children. -/
theorem bodyChars_parent {step : Int} {depth : Nat} {tag : Tag} {children : List Node}
    (hTag : Legible tag children) (hChildren : children ≠ []) {rest : List Char} :
    bodyChars step depth tag children ++ rest =
      '<' :: (tagChars tag ++ '>' :: ((renderAll step (depth + 1) children).toList ++
        ((closingIndent step depth).toList ++ (closingChars tag.name ++ rest)))) := by
  have hEmpty : children.isEmpty = false := by simpa using hChildren
  simp [bodyChars, hEmpty, hTag.text hChildren, escape]

theorem exists_bodyChars_eq (step : Int) (depth : Nat) (tag : Tag) (children : List Node) :
    ∃ complete more,
      bodyChars step depth tag children = '<' :: (tagChars tag ++ (tagEnd complete ++ more)) := by
  rw [bodyChars]
  split
  · exact ⟨true, [], rfl⟩
  · exact ⟨false, _, rfl⟩

namespace Progress

variable {p : Progress} {f : Frame} {outer : List Frame} {tag : Tag} {rest : List Char}

/-- Adds an indent to the innermost open element, if there is one. -/
def indented (p : Progress) (indent : List Char) (usage : Usage) : Progress :=
  { p with frames := p.frames.modifyHead (·.addText indent), usage := usage }

theorem scope_indented (p : Progress) (indent : List Char) (usage : Usage) :
    (p.indented indent usage).scope = p.scope := by
  unfold indented scope
  cases p.frames with
  | nil => rfl
  | cons f outer => exact Frame.scope_addText indent

theorem frames_indented_eq_nil {indent : List Char} {usage : Usage} :
    (p.indented indent usage).frames = [] ↔ p.frames = [] := by
  unfold indented
  cases p.frames with
  | nil => simp
  | cons f outer => simp

/-- An indent takes up no room for a root. -/
theorem room_indented (indent : List Char) (usage : Usage) (h : p.frames = [] → p.root = none)
    (hNil : (p.indented indent usage).frames = []) : (p.indented indent usage).root = none :=
  h (frames_indented_eq_nil.mp hNil)

theorem feed_layout (hFrames : p.frames = f :: outer) (hUsage : p.usage.IsModest)
    {text : List Char} (hText : IsLayout text) (hRest : rest.head? = some '<') :
    ∃ usage, p.feed .empty 0 .narrow (text ++ rest) =
        feed .empty 0 .narrow { p with frames := f.addText text :: outer, usage := usage } rest ∧
      usage.IsModest := by
  obtain ⟨usage, hFeed, hModest⟩ := feed_escape hFrames hUsage text hRest
  rw [hText.escape_eq, hText.normalizeLineEnds_eq] at hFeed
  exact ⟨usage, hFeed, hModest⟩

theorem feed_openingIndent (step : Int) {depth : Nat} (hPlace : p.frames = [] → depth = 0)
    (hUsage : p.usage.IsModest) (hRest : rest.head? = some '<') :
    ∃ usage, p.feed .empty 0 .narrow ((openingIndent step depth).toList ++ rest) =
        feed .empty 0 .narrow (p.indented (openingIndent step depth).toList usage) rest ∧
      usage.IsModest := by
  unfold indented
  cases hFrames : p.frames with
  | nil =>
    have hNone : (openingIndent step depth).toList = [] := by
      rw [hPlace hFrames, openingIndent, if_pos (Or.inr rfl)]
      rfl
    refine ⟨p.usage, ?_, hUsage⟩
    rw [hNone, List.modifyHead_nil, ← hFrames]
    rfl
  | cons f outer => exact feed_layout hFrames hUsage (isLayout_openingIndent step depth) hRest

section Bodies

variable {step : Int} {depth : Nat} {children : List Node} (hTag : Legible tag children)
  (hDeclares : DeclaresWell tag children) (hRoom : p.frames = [] → p.root = none)
  (hUsage : p.usage.IsModest)
include hTag hDeclares hRoom hUsage

theorem feed_bodyChars_childless (hChildren : children = []) (rest : List Char) :
    ∃ usage, p.feed .empty 0 .narrow (bodyChars step depth tag children ++ rest) =
        ({ p with usage := usage }.addTree
          (readBackIn p.scope.space step depth (.element tag children))).bind
          (·.feed .empty 0 .narrow rest) ∧
      usage.IsModest := by
  subst hChildren
  have hTree : readBackIn p.scope.space step depth (.element tag []) =
      (filledFrame p.scope tag (normalizeLineEnds (tag.text.getD "").toList) []).close := by
    rw [close_filledFrame, readBackIn, readBackAllIn]
    rfl
  rw [hTree]
  cases hText : tag.text with
  | none =>
    obtain ⟨usage, hFeed, hModest⟩ := feed_complete hTag.legal hUsage hDeclares hRoom rest
    refine ⟨usage, ?_, hModest⟩
    have hChars : bodyChars step depth tag [] ++ rest = '<' :: (tagChars tag ++ '/' :: '>' :: rest) := by
      simp [bodyChars, hText]
    rw [hChars, hFeed, ← Frame.addText_nil (openFrame p.scope tag), addText_openFrame]
    rfl
  | some text =>
    obtain ⟨usage₁, hOpening, hFirst⟩ := feed_opening hTag.legal hUsage hDeclares hRoom
      (escape text.toList ++ (closingChars tag.name ++ rest))
    have hClosingTag : (closingChars tag.name ++ rest).head? = some '<' := rfl
    obtain ⟨usage₂, hContent, hSecond⟩ := feed_escape
      (p := { p with frames := openFrame p.scope tag :: p.frames, usage := usage₁ }) rfl hFirst
      text.toList hClosingTag
    rw [addText_openFrame] at hContent
    obtain ⟨usage₃, hClosing, hModest⟩ := feed_closing
      (p := { p with
        frames := filledFrame p.scope tag (normalizeLineEnds text.toList) [] :: p.frames
        usage := usage₂ })
      hTag.legal.1 rfl (written_filledFrame _) hSecond rest
    refine ⟨usage₃, ?_, hModest⟩
    have hChars : bodyChars step depth tag [] ++ rest =
        '<' :: (tagChars tag ++ '>' :: (escape text.toList ++ (closingChars tag.name ++ rest))) := by
      simp [bodyChars, hText, renderAll]
    rw [Option.getD_some, hChars, hOpening, hContent, ← hClosing]
    simp [closingChars]

theorem feed_bodyChars_parent (hChildren : children ≠ [])
    (hInner : ∀ {q : Progress} {f : Frame} {outer : List Frame}, q.frames = f :: outer →
      q.usage.IsModest → ∀ rest : List Char,
      ∃ usage, q.feed .empty 0 .narrow ((renderAll step (depth + 1) children).toList ++ rest) =
          feed .empty 0 .narrow
            { q with
              frames := (readBackAllIn f.scope.space step (depth + 1) children).foldl
                (Frame.addChild (openingIndent step (depth + 1)).toList) f :: outer
              usage := usage } rest ∧
        usage.IsModest)
    (rest : List Char) :
    ∃ usage, p.feed .empty 0 .narrow (bodyChars step depth tag children ++ rest) =
        ({ p with usage := usage }.addTree
          (readBackIn p.scope.space step depth (.element tag children))).bind
          (·.feed .empty 0 .narrow rest) ∧
      usage.IsModest := by
  have hEmpty : children.isEmpty = false := by simpa using hChildren
  have hSpace : (openFrame p.scope tag).scope.space = spaceInside p.scope.space tag :=
    space_inside p.scope tag
  have hTrees : readBackAllIn (spaceInside p.scope.space tag) step (depth + 1) children ≠ [] :=
    readBackAllIn_ne_nil hChildren
  have hTree : readBackIn p.scope.space step depth (.element tag children) =
      (filledFrame p.scope tag (openingIndent step (depth + 1)).toList
        (readBackAllIn (spaceInside p.scope.space tag) step (depth + 1) children)).close := by
    rw [close_filledFrame, readBackIn, innerText, hEmpty]
    rfl
  obtain ⟨usage₁, hOpening, hFirst⟩ := feed_opening hTag.legal hUsage hDeclares hRoom
    ((renderAll step (depth + 1) children).toList ++
      ((closingIndent step depth).toList ++ (closingChars tag.name ++ rest)))
  obtain ⟨usage₂, hFill, hSecond⟩ := hInner
    (q := { p with frames := openFrame p.scope tag :: p.frames, usage := usage₁ }) rfl hFirst
    ((closingIndent step depth).toList ++ (closingChars tag.name ++ rest))
  rw [hSpace, foldl_addChild_openFrame _ hTrees] at hFill
  have hClosingTag : (closingChars tag.name ++ rest).head? = some '<' := rfl
  -- The indent of the closing tag stands behind a child and is not kept.
  obtain ⟨usage₃, hIndent, hThird⟩ := feed_layout
    (p := { p with
      frames := filledFrame p.scope tag (openingIndent step (depth + 1)).toList
        (readBackAllIn (spaceInside p.scope.space tag) step (depth + 1) children) :: p.frames
      usage := usage₂ })
    rfl hSecond (isLayout_closingIndent step depth) hClosingTag
  rw [addText_filledFrame hTrees] at hIndent
  obtain ⟨usage₄, hClosing, hModest⟩ := feed_closing
    (p := { p with
      frames := filledFrame p.scope tag (openingIndent step (depth + 1)).toList
        (readBackAllIn (spaceInside p.scope.space tag) step (depth + 1) children) :: p.frames
      usage := usage₃ })
    hTag.legal.1 rfl (written_filledFrame _) hThird rest
  refine ⟨usage₄, ?_, hModest⟩
  rw [bodyChars_parent hTag hChildren, hOpening, hFill, hIndent, hTree, ← hClosing]
  simp [closingChars]

end Bodies

mutual

/-- A rendered node is added to the innermost open element, behind its indent. -/
theorem feed_render (step : Int) (depth : Nat) {node : Node} (h : node.Every Legible)
    (hDeclares : node.Every DeclaresWell) {p : Progress}
    (hRoom : p.frames = [] → depth = 0 ∧ p.root = none) (hUsage : p.usage.IsModest)
    (rest : List Char) :
    ∃ usage, p.feed .empty 0 .narrow ((render step depth node).toList ++ rest) =
        ((p.indented (openingIndent step depth).toList usage).addTree
          (readBackIn p.scope.space step depth node)).bind (·.feed .empty 0 .narrow rest) ∧
      usage.IsModest := by
  cases node with
  | foreign value => exact h.elim
  | element tag children =>
    rw [Node.Every] at h hDeclares
    obtain ⟨hTag, hChildren⟩ := h
    have hBody : (bodyChars step depth tag children ++ rest).head? = some '<' := rfl
    obtain ⟨usage, hIndent, hFirst⟩ :=
      feed_openingIndent step (fun hNil => (hRoom hNil).1) hUsage hBody
    have hRoom' := room_indented (openingIndent step depth).toList usage fun hNil => (hRoom hNil).2
    rw [toList_render, List.append_assoc, hIndent,
      ← scope_indented p (openingIndent step depth).toList usage]
    -- Its own indent has gone to the element around it, and what follows is read for itself.
    by_cases hNil : children = []
    · exact feed_bodyChars_childless hTag hDeclares.1 hRoom' hFirst hNil rest
    · exact feed_bodyChars_parent hTag hDeclares.1 hRoom' hFirst hNil
        (feed_renderAll step depth hChildren hDeclares.2) rest

theorem feed_renderAll (step : Int) (level : Nat) {nodes : List Node}
    (h : Node.EveryAll Legible nodes) (hDeclares : Node.EveryAll DeclaresWell nodes)
    {p : Progress} {f : Frame} {outer : List Frame}
    (hFrames : p.frames = f :: outer) (hUsage : p.usage.IsModest) (rest : List Char) :
    ∃ usage, p.feed .empty 0 .narrow ((renderAll step (level + 1) nodes).toList ++ rest) =
        feed .empty 0 .narrow
          { p with
            frames := (readBackAllIn f.scope.space step (level + 1) nodes).foldl
              (Frame.addChild (openingIndent step (level + 1)).toList) f :: outer
            usage := usage } rest ∧
      usage.IsModest := by
  cases nodes with
  | nil =>
    refine ⟨p.usage, ?_, hUsage⟩
    rw [renderAll, readBackAllIn, List.foldl_nil, ← hFrames]
    rfl
  | cons node others =>
    rw [Node.EveryAll] at h hDeclares
    obtain ⟨usage₁, hNode, hFirst⟩ := feed_render_inner step level h.1 hDeclares.1 hFrames hUsage
      ((renderAll step (level + 1) others).toList ++ rest)
    obtain ⟨usage₂, hOthers, hModest⟩ := feed_renderAll step level h.2 hDeclares.2
      (p := { p with
        frames := f.addChild (openingIndent step (level + 1)).toList
          (readBackIn f.scope.space step (level + 1) node) :: outer
        usage := usage₁ })
      rfl hFirst rest
    rw [Frame.scope_addChild] at hOthers
    refine ⟨usage₂, ?_, hModest⟩
    rw [renderAll, String.toList_append, List.append_assoc, hNode, hOthers, readBackAllIn,
      List.foldl_cons]

/-- Inside an element the node becomes its next child. -/
theorem feed_render_inner (step : Int) (level : Nat) {node : Node} (h : node.Every Legible)
    (hDeclares : node.Every DeclaresWell) {p : Progress} {f : Frame} {outer : List Frame}
    (hFrames : p.frames = f :: outer) (hUsage : p.usage.IsModest) (rest : List Char) :
    ∃ usage, p.feed .empty 0 .narrow ((render step (level + 1) node).toList ++ rest) =
        feed .empty 0 .narrow
          { p with
            frames := f.addChild (openingIndent step (level + 1)).toList
              (readBackIn f.scope.space step (level + 1) node) :: outer
            usage := usage } rest ∧
      usage.IsModest := by
  have hScope : p.scope = f.scope := by rw [scope, hFrames]
  obtain ⟨usage, hNode, hModest⟩ := feed_render step (level + 1) h hDeclares
    (fun hNil => absurd (hFrames ▸ hNil) (List.cons_ne_nil f outer)) hUsage rest
  refine ⟨usage, ?_, hModest⟩
  rw [hNode, indented, addTree, hFrames, List.modifyHead_cons, hScope]
  simp [Frame.addChild]

end

mutual

/-- A node that declares a namespace that may not be declared, somewhere in it, is not read. -/
theorem feed_render_eq_none (step : Int) (depth : Nat) {node : Node} (h : node.Every Legible)
    (hDeclares : ¬node.Every DeclaresWell) {p : Progress}
    (hRoom : p.frames = [] → depth = 0 ∧ p.root = none) (hUsage : p.usage.IsModest)
    (rest : List Char) :
    p.feed .empty 0 .narrow ((render step depth node).toList ++ rest) = none := by
  cases node with
  | foreign value => exact h.elim
  | element tag children =>
    rw [Node.Every] at h hDeclares
    have hBody : (bodyChars step depth tag children ++ rest).head? = some '<' := rfl
    obtain ⟨usage, hIndent, hFirst⟩ :=
      feed_openingIndent step (fun hNil => (hRoom hNil).1) hUsage hBody
    have hRoom' := room_indented (openingIndent step depth).toList usage fun hNil => (hRoom hNil).2
    rw [toList_render, List.append_assoc, hIndent]
    by_cases hTag : DeclaresWell tag children
    · have hInner : ¬Node.EveryAll DeclaresWell children := fun hAll => hDeclares ⟨hTag, hAll⟩
      have hChildren : children ≠ [] := by
        rintro rfl
        exact hInner trivial
      obtain ⟨usage', hOpening, hSecond⟩ := feed_opening h.1.legal hFirst hTag hRoom'
        ((renderAll step (depth + 1) children).toList ++
          ((closingIndent step depth).toList ++ (closingChars tag.name ++ rest)))
      rw [bodyChars_parent h.1 hChildren, hOpening]
      exact feed_renderAll_eq_none step depth h.2 hInner rfl hSecond _
    · obtain ⟨complete, more, hChars⟩ := exists_bodyChars_eq step depth tag children
      rw [hChars, List.cons_append, List.append_assoc, List.append_assoc]
      exact feed_tagChars_eq_none h.1.legal hFirst hTag hRoom' complete _

theorem feed_renderAll_eq_none (step : Int) (level : Nat) {nodes : List Node}
    (h : Node.EveryAll Legible nodes) (hDeclares : ¬Node.EveryAll DeclaresWell nodes)
    {p : Progress} {f : Frame} {outer : List Frame}
    (hFrames : p.frames = f :: outer) (hUsage : p.usage.IsModest) (rest : List Char) :
    p.feed .empty 0 .narrow ((renderAll step (level + 1) nodes).toList ++ rest) = none := by
  cases nodes with
  | nil => exact absurd trivial hDeclares
  | cons node others =>
    rw [Node.EveryAll] at h hDeclares
    rw [renderAll, String.toList_append, List.append_assoc]
    by_cases hNode : node.Every DeclaresWell
    · obtain ⟨usage, hFeed, hModest⟩ := feed_render_inner step level h.1 hNode hFrames hUsage
        ((renderAll step (level + 1) others).toList ++ rest)
      rw [hFeed]
      exact feed_renderAll_eq_none step level h.2 (fun hAll => hDeclares ⟨hNode, hAll⟩) rfl hModest
        rest
    · exact feed_render_eq_none step (level + 1) h.1 hNode
        (fun hNil => absurd (hFrames ▸ hNil) (List.cons_ne_nil f outer)) hUsage _

end

end Progress

end XmlLayout.Reading
