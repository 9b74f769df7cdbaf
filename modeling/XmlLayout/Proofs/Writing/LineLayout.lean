import XmlLayout.Proofs.Content.Overlooked
import XmlLayout.Proofs.Document.Preorder
import XmlLayout.Proofs.Writing.Unambiguous
import XmlLayout.Text.Lines

/-!
# The lines of a text that was written

A text that was written with a positive step is laid out in rows: one for each element, and one
more for the closing tag of each element with children. As names have no line feeds and those of
values are references, a row is a line unless there are line feeds in the texts of the tree. Without
indents the same rows stand one behind the other.

* `toList_render_succ`: a node below the root is its rows, each behind its indent.
* `opened?_rows`, `length_rows`, `infix_rows`: which rows there are, and in which order.
* `feeds_rows`: the line feeds in the rows are those of the texts.
* `lines_encodeToText`: the lines of a text, and what becomes of them without indents.
-/

namespace XmlLayout

open Document (Tag Node isLegalName)
open Reading

namespace Document.Node

def hasChildren : Node → Bool
  | foreign _ => false
  | element _ children => !children.isEmpty

end Document.Node

namespace Writing

open Indent

/-! ## Rows -/

/-- What stands on a line of its own: an element up to its first child, or to its end if it has
none; or the closing tag of an element with children. -/
inductive Row where
  | opening (depth : Nat) (tag : Tag) (children : List Node)
  | closing (depth : Nat) (tag : Tag)

namespace Row

/-- The depth of the element that a row belongs to. -/
def depth : Row → Nat
  | opening depth _ _ => depth
  | closing depth _ => depth

/-- A row without its indent. -/
def text : Row → String
  | opening _ tag children =>
    openingText tag ++
      if children.isEmpty && tag.text.isNone then "/>"
      else ">" ++ contentText tag ++ if children.isEmpty then closingText tag else ""
  | closing _ tag => closingText tag

/-- A row as a line: `step` spaces for each level above it in front. -/
def line (step : Int) (row : Row) : String :=
  "".pushn ' ' (row.depth * step).toNat ++ row.text

/-- A row behind the indent of its level, if there are indents. -/
def indented (step : Int) (row : Row) : String :=
  closingIndent step row.depth ++ row.text

/-- The element that begins in a row, with its depth. -/
def opened? : Row → Option (Nat × Node)
  | opening depth tag children => some (depth, .element tag children)
  | closing _ _ => none

theorem toList_line (step : Int) (row : Row) :
    (row.line step).toList = List.replicate (row.depth * step).toNat ' ' ++ row.text.toList := by
  rw [line, String.toList_append, toList_pushn]
  rfl

theorem toList_indented {step : Int} (hStep : 0 < step) (row : Row) :
    (row.indented step).toList = '\n' :: (row.line step).toList := by
  rw [indented, closingIndent, if_neg (Int.not_le.mpr hStep), String.toList_append,
    toList_indentText, toList_line, List.cons_append]

theorem indented_zero (row : Row) : row.indented 0 = row.text := by
  rw [indented, closingIndent, if_pos (Int.le_refl 0), String.empty_append]

/-- Behind its indent a row begins with an angle bracket. -/
theorem exists_toList_text (row : Row) : ∃ rest, row.text.toList = '<' :: rest := by
  cases row with
  | opening depth tag children =>
    rw [text, String.toList_append, toList_openingText]
    exact ⟨_, rfl⟩
  | closing depth tag => exact ⟨_, toList_closingText tag⟩

end Row

mutual

/-- The rows of a node at a depth: those of its children, between that of its opening tag and that
of its closing tag. -/
def rows (depth : Nat) : Node → List Row
  | .foreign _ => []
  | .element tag children =>
    .opening depth tag children ::
      (rowsAll (depth + 1) children ++ if children.isEmpty then [] else [.closing depth tag])

def rowsAll (depth : Nat) : List Node → List Row
  | [] => []
  | node :: rest => rows depth node ++ rowsAll depth rest

end

/-! ## Rendered nodes are their rows -/

/-- Below the root both indents of a level are the same. -/
theorem openingIndent_succ (step : Int) (depth : Nat) :
    openingIndent step (depth + 1) = closingIndent step (depth + 1) := by
  simp [openingIndent, closingIndent]

theorem openingIndent_root (step : Int) : openingIndent step 0 = "" :=
  if_pos (Or.inr rfl)

/-- An element is its row, its children, and its second row if it has children. -/
theorem bodyChars_eq (step : Int) (depth : Nat) (tag : Tag) (children : List Node) :
    bodyChars step depth tag children =
      (Row.opening depth tag children).text.toList ++
        ((renderAll step (depth + 1) children).toList ++
          if children.isEmpty then [] else ((Row.closing depth tag).indented step).toList) := by
  have hClosing : (closingText tag).toList = closingChars tag.name := toList_closingText tag
  have hContent : (contentText tag).toList = escape (tag.text.getD "").toList :=
    String.toList_ofList
  rw [bodyChars, Row.text, String.toList_append, toList_openingText]
  cases children with
  | nil =>
    have hNone : (renderAll step (depth + 1) []).toList = [] := rfl
    cases tag.text.isNone with
    | true => simp [hNone]
    | false => simp [hNone, hClosing, hContent]
  | cons child others => simp [Row.indented, Row.depth, Row.text, hClosing, hContent]

/-- All that stands in some rows, each behind its indent. -/
def rowChars (step : Int) (rows : List Row) : List Char :=
  rows.flatMap fun row => (row.indented step).toList

theorem rowChars_append (step : Int) (xs ys : List Row) :
    rowChars step (xs ++ ys) = rowChars step xs ++ rowChars step ys :=
  List.flatMap_append

/-- An element is its rows if its children are theirs. -/
theorem rowChars_rows {step : Int} {depth : Nat} (tag : Tag) {children : List Node}
    (hChildren :
      (renderAll step (depth + 1) children).toList = rowChars step (rowsAll (depth + 1) children)) :
    rowChars step (rows depth (.element tag children)) =
      (closingIndent step depth).toList ++ bodyChars step depth tag children := by
  have hLast : rowChars step (if children.isEmpty then [] else [.closing depth tag]) =
      if children.isEmpty then [] else ((Row.closing depth tag).indented step).toList := by
    split
    · rfl
    · exact List.flatMap_singleton _ _
  have hFirst : ((Row.opening depth tag children).indented step).toList =
      (closingIndent step depth).toList ++ (Row.opening depth tag children).text.toList := by
    rw [Row.indented, String.toList_append, Row.depth]
  rw [bodyChars_eq, hChildren, ← hLast, ← rowChars_append, ← List.append_assoc, ← hFirst, rows]
  exact List.flatMap_cons

mutual

/-- A node below the root is its rows, each behind its indent. -/
theorem toList_render_succ (step : Int) (depth : Nat) (node : Node) :
    (render step (depth + 1) node).toList = rowChars step (rows (depth + 1) node) := by
  cases node with
  | foreign value => rfl
  | element tag children =>
    have hChildren := toList_renderAll_succ step (depth + 1) children
    rw [toList_render, openingIndent_succ, rowChars_rows tag hChildren]

theorem toList_renderAll_succ (step : Int) (depth : Nat) (nodes : List Node) :
    (renderAll step (depth + 1) nodes).toList = rowChars step (rowsAll (depth + 1) nodes) := by
  cases nodes with
  | nil => rfl
  | cons node rest =>
    rw [renderAll, String.toList_append, toList_render_succ step depth node,
      toList_renderAll_succ step depth rest, rowsAll, rowChars_append]

end

/-- A root is its rows, but for the indent of the first. -/
theorem toList_render_root (step : Int) (tag : Tag) (children : List Node) :
    (closingIndent step 0).toList ++ (render step 0 (.element tag children)).toList =
      rowChars step (rows 0 (.element tag children)) := by
  have hChildren := toList_renderAll_succ step 0 children
  rw [rowChars_rows tag hChildren, toList_render, openingIndent_root]
  rfl

/-! ## Which rows there are -/

variable {P : Tag → List Node → Prop}

mutual

/-- The rows in which elements begin are in document order. -/
theorem opened?_rows (depth : Nat) {node : Node} (h : node.Every P) :
    (rows depth node).filterMap Row.opened? = node.preorder depth := by
  cases node with
  | foreign value => exact h.elim
  | element tag children =>
    rw [Node.Every] at h
    have hChildren := opened?_rowsAll (depth + 1) h.2
    have hLast : (if children.isEmpty then [] else [Row.closing depth tag]).filterMap Row.opened? =
        [] := by
      split <;> rfl
    have hFirst : Row.opened? (.opening depth tag children) = some (depth, .element tag children) :=
      rfl
    rw [rows, List.filterMap_cons_some hFirst, List.filterMap_append, hChildren, hLast,
      List.append_nil, Node.preorder]

theorem opened?_rowsAll (depth : Nat) {nodes : List Node} (h : Node.EveryAll P nodes) :
    (rowsAll depth nodes).filterMap Row.opened? = Node.preorderAll depth nodes := by
  cases nodes with
  | nil => rfl
  | cons node rest =>
    rw [Node.EveryAll] at h
    rw [rowsAll, List.filterMap_append, opened?_rows depth h.1, opened?_rowsAll depth h.2,
      Node.preorderAll]

end

mutual

/-- An element has a row, and one more if it has children. -/
theorem length_rows (depth : Nat) {node : Node} (h : node.Every P) :
    (rows depth node).length =
      (node.preorder depth).length + (node.preorder depth).countP fun e => e.2.hasChildren := by
  cases node with
  | foreign value => exact h.elim
  | element tag children =>
    rw [Node.Every] at h
    have hChildren := length_rowsAll (depth + 1) h.2
    rw [rows, Node.preorder, List.length_cons, List.length_append, hChildren, List.length_cons,
      List.countP_cons, Node.hasChildren]
    cases children.isEmpty with
    | true =>
      simp
      omega
    | false =>
      simp
      omega

theorem length_rowsAll (depth : Nat) {nodes : List Node} (h : Node.EveryAll P nodes) :
    (rowsAll depth nodes).length = (Node.preorderAll depth nodes).length +
      (Node.preorderAll depth nodes).countP fun e => e.2.hasChildren := by
  cases nodes with
  | nil => rfl
  | cons node rest =>
    rw [Node.EveryAll] at h
    rw [rowsAll, Node.preorderAll, List.length_append, length_rows depth h.1,
      length_rowsAll depth h.2, List.length_append, List.countP_append]
    omega

end

mutual

/-- The rows of every node of a tree stand together: those of its children between its own. -/
theorem infix_rows {depth : Nat} {node : Node} {entry : Nat × Node}
    (h : entry ∈ node.preorder depth) : rows entry.1 entry.2 <:+: rows depth node := by
  cases node with
  | foreign value =>
    rw [Node.preorder, List.mem_singleton] at h
    subst h
    exact List.infix_rfl
  | element tag children =>
    rw [Node.preorder, List.mem_cons] at h
    rcases h with rfl | h
    · exact List.infix_rfl
    · rw [rows]
      exact ((infix_rowsAll h).trans (List.prefix_append _ _).isInfix).trans
        (List.suffix_cons _ _).isInfix

theorem infix_rowsAll {depth : Nat} {nodes : List Node} {entry : Nat × Node}
    (h : entry ∈ Node.preorderAll depth nodes) : rows entry.1 entry.2 <:+: rowsAll depth nodes := by
  cases nodes with
  | nil => cases h
  | cons node rest =>
    rw [Node.preorderAll, List.mem_append] at h
    rw [rowsAll]
    rcases h with h | h
    · exact (infix_rows h).trans (List.prefix_append _ _).isInfix
    · exact (infix_rowsAll h).trans (List.suffix_append _ _).isInfix

end

/-! ## Line feeds -/

theorem not_mem_name {name : String} (h : isLegalName name = true) : '\n' ∉ name.toList := by
  intro hMem
  have hAll := Document.all_isFollow_of_isLegalChars h
  exact absurd (List.all_eq_true.mp hAll '\n' hMem) (by decide)

theorem not_mem_quoteValue (value : List Char) : '\n' ∉ quoteValue value := by
  have hRaw : '\n' ∉ rawValue value := not_mem_rawValue_of_mem value (by decide)
  rw [quoteValue_eq]
  rcases quoteOf_eq value with hQuote | hQuote <;> simp [hQuote, hRaw]

/-- No tag holds a line feed, whatever the values of its attributes are. -/
theorem not_mem_tagChars {tag : Tag} (h : LegalTag tag) : '\n' ∉ tagChars tag := by
  rw [tagChars, List.mem_append, not_or]
  refine ⟨not_mem_name h.1, fun hMem => ?_⟩
  obtain ⟨entry, hEntry, hIn⟩ := List.mem_flatMap.mp hMem
  have hKey := not_mem_name (h.2 entry.1 (List.mem_map_of_mem hEntry))
  simp [attributeChars, hKey, not_mem_quoteValue] at hIn

/-- Escaping a text keeps its line feeds, and makes no others. -/
theorem count_escape (text : List Char) : (escape text).count '\n' = text.count '\n' := by
  induction text with
  | nil => rfl
  | cons c rest ih =>
    have hChar : (escapeChar c).count '\n' = [c].count '\n' := by
      by_cases hc : c = '\n'
      · subst hc
        rfl
      · have hNone : '\n' ∉ escapeChar c := not_mem_escapeChar (Ne.symm hc) (by decide)
        rw [List.count_eq_zero.mpr hNone, List.count_singleton, if_neg (by simpa using hc)]
    have hEscape : escape (c :: rest) = escapeChar c ++ escape rest := List.flatMap_cons
    rw [hEscape, List.count_append, hChar, ih, ← List.count_append, List.singleton_append]

theorem count_closingText {tag : Tag} (h : LegalTag tag) :
    (closingText tag).toList.count '\n' = 0 := by
  have hName := not_mem_name h.1
  rw [List.count_eq_zero, toList_closingText]
  simp [hName]

/-- The line feeds in the row of an element are those of its text. -/
theorem count_opening (depth : Nat) {tag : Tag} (h : LegalTag tag) (children : List Node) :
    (Row.opening depth tag children).text.toList.count '\n' =
      (tag.text.getD "").toList.count '\n' := by
  have hOpening : (openingText tag).toList.count '\n' = 0 := by
    rw [toList_openingText, List.count_eq_zero, List.mem_cons, not_or]
    exact ⟨by decide, not_mem_tagChars h⟩
  have hContent : (contentText tag).toList.count '\n' = (tag.text.getD "").toList.count '\n' := by
    rw [contentText, String.toList_ofList, count_escape]
  rw [Row.text, String.toList_append, List.count_append, hOpening, Nat.zero_add]
  split
  · rename_i hSingle
    rw [Bool.and_eq_true, Option.isNone_iff_eq_none] at hSingle
    rw [hSingle.2]
    rfl
  · rw [String.toList_append, String.toList_append, List.count_append, List.count_append, hContent]
    split
    · rw [count_closingText h]
      exact Nat.zero_add _
    · exact Nat.zero_add _

/-- The number of line feeds in some rows, apart from those of the indents. -/
def feeds (rows : List Row) : Nat :=
  (rows.flatMap fun row => row.text.toList).count '\n'

theorem feeds_append (xs ys : List Row) : feeds (xs ++ ys) = feeds xs + feeds ys := by
  rw [feeds, List.flatMap_append, List.count_append, feeds, feeds]

theorem feeds_singleton (row : Row) : feeds [row] = row.text.toList.count '\n' := by
  rw [feeds, List.flatMap_singleton]

mutual

/-- The line feeds in the rows of a tree are those of its texts. -/
theorem feeds_rows (depth : Nat) {node : Node} (h : node.Every Legible) :
    feeds (rows depth node) = node.texts.count '\n' := by
  cases node with
  | foreign value => exact h.elim
  | element tag children =>
    rw [Node.Every] at h
    have hChildren := feeds_rowsAll (depth + 1) h.2
    have hFirst : feeds [.opening depth tag children] = (tag.text.getD "").toList.count '\n' :=
      (feeds_singleton _).trans (count_opening depth h.1.legal children)
    have hLast : feeds (if children.isEmpty then [] else [.closing depth tag]) = 0 := by
      split
      · rfl
      · exact (feeds_singleton _).trans (count_closingText h.1.legal)
    rw [rows, ← List.singleton_append, feeds_append, feeds_append, hFirst, hChildren, hLast,
      Node.texts, List.count_append, Nat.add_zero]

theorem feeds_rowsAll (depth : Nat) {nodes : List Node} (h : Node.EveryAll Legible nodes) :
    feeds (rowsAll depth nodes) = (Node.textsAll nodes).count '\n' := by
  cases nodes with
  | nil => rfl
  | cons node rest =>
    rw [Node.EveryAll] at h
    rw [rowsAll, feeds_append, feeds_rows depth h.1, feeds_rowsAll depth h.2, Node.textsAll,
      List.count_append]

end

/-- Where no text holds a line feed, no row does. -/
theorem not_mem_text_of_mem_rows {depth : Nat} {node : Node} (h : node.Every Legible)
    (hTexts : '\n' ∉ node.texts) {row : Row} (hRow : row ∈ rows depth node) :
    '\n' ∉ row.text.toList := by
  have hFeeds := feeds_rows depth h
  rw [List.count_eq_zero.mpr hTexts, feeds, List.count_eq_zero] at hFeeds
  exact fun hMem => hFeeds (List.mem_flatMap.mpr ⟨row, hRow, hMem⟩)

/-! ## Lines -/

/-- A line without the spaces that it begins with. -/
def unindented (line : String) : String :=
  String.ofList (line.toList.dropWhile (· = ' '))

theorem unindented_line (step : Int) (row : Row) : unindented (row.line step) = row.text := by
  obtain ⟨rest, hText⟩ := row.exists_toList_text
  have hSpaces : ∀ c ∈ List.replicate (row.depth * step).toNat ' ', decide (c = ' ') = true := by
    intro c hc
    rw [(List.mem_replicate.mp hc).2]
    rfl
  rw [unindented, Row.toList_line, List.dropWhile_append_of_pos hSpaces, hText,
    List.dropWhile_cons_of_neg (by decide), ← hText, String.ofList_toList]

variable {root : Node} {step : Int} {text : String}

theorem rowChars_eq_flatMap (hStep : 0 < step) (rows : List Row) :
    rowChars step rows = (rows.map fun row => (row.line step).toList).flatMap ('\n' :: ·) := by
  simp only [rowChars, Row.toList_indented hStep, List.flatMap_map]

/-- There is a line feed in front of each row, and there are those of the rows. -/
theorem count_rowChars (hStep : 0 < step) (rows : List Row) :
    (rowChars step rows).count '\n' = rows.length + feeds rows := by
  induction rows with
  | nil => rfl
  | cons row rest ih =>
    have hSpaces : (List.replicate (row.depth * step).toNat ' ').count '\n' = 0 := by
      simp [List.count_replicate]
    have hRow : (rowChars step [row]).count '\n' = row.text.toList.count '\n' + 1 := by
      rw [rowChars, List.flatMap_singleton, Row.toList_indented hStep, List.count_cons_self,
        Row.toList_line, List.count_append, hSpaces, Nat.zero_add]
    rw [← List.singleton_append, rowChars_append, List.count_append, hRow, ih, feeds_append,
      feeds_singleton, List.length_append, List.length_singleton]
    omega

/-- With a line feed in front, a text is its rows, each with a line feed in front. -/
theorem cons_toList_of_encodeToText (hStep : 0 < step) (hText : encodeToText root step = .ok text) :
    '\n' :: text.toList = rowChars step (rows 0 root) := by
  obtain ⟨hWritable, rfl⟩ := eq_render_of_encodeToText hText
  have hIndent : (closingIndent step 0).toList = ['\n'] := by
    rw [closingIndent, if_neg (Int.not_le.mpr hStep), toList_indentText]
    simp
  cases root with
  | foreign value => exact hWritable.elim
  | element tag children =>
    rw [← toList_render_root, hIndent]
    rfl

theorem length_lines (hStep : 0 < step) (hText : encodeToText root step = .ok text)
    (hLegible : root.Every Legible) :
    (Text.lines text).length = (root.preorder 0).length +
      (root.preorder 0).countP (fun e => e.2.hasChildren) + root.texts.count '\n' := by
  have hCount := congrArg (List.count '\n') (cons_toList_of_encodeToText hStep hText)
  rw [List.count_cons_self, count_rowChars hStep, feeds_rows 0 hLegible, length_rows 0 hLegible]
    at hCount
  rw [Text.lines, List.length_map, Text.length_splitLines, hCount]

/-- Where no text holds a line feed, the lines are the rows. -/
theorem lines_eq_map_line (hStep : 0 < step) (hText : encodeToText root step = .ok text)
    (hLegible : root.Every Legible) (hTexts : '\n' ∉ root.texts) :
    Text.lines text = (rows 0 root).map (Row.line step) := by
  have hLines : ∀ line ∈ (rows 0 root).map (fun row => (row.line step).toList), '\n' ∉ line := by
    intro line hLine
    obtain ⟨row, hRow, rfl⟩ := List.mem_map.mp hLine
    rw [Row.toList_line, List.mem_append, not_or]
    refine ⟨fun hMem => ?_, not_mem_text_of_mem_rows hLegible hTexts hRow⟩
    exact absurd (List.mem_replicate.mp hMem).2 (by decide)
  have hFirst : Text.splitLines ('\n' :: text.toList) = [] :: Text.splitLines text.toList := rfl
  have hSplit := Text.splitLines_flatMap hLines
  rw [← rowChars_eq_flatMap hStep, ← cons_toList_of_encodeToText hStep hText, hFirst] at hSplit
  rw [Text.lines, (List.cons.inj hSplit).2, List.map_map]
  simp only [Function.comp_def, String.ofList_toList]

/-- Without indents a text is its rows, one behind the other. -/
theorem render_zero (h : root.Every Writable) :
    render 0 0 root = String.join ((rows 0 root).map Row.text) := by
  cases root with
  | foreign value => exact h.elim
  | element tag children =>
    have hRoot := toList_render_root 0 tag children
    simp only [rowChars, Row.indented_zero] at hRoot
    rw [← String.toList_inj, String.toList_join, List.flatMap_map, ← hRoot]
    rfl

/-- Where no text holds a line feed, the text without indents is one line. -/
theorem lines_join_text (hLegible : root.Every Legible) (hTexts : '\n' ∉ root.texts) :
    let flat := String.join ((rows 0 root).map Row.text)
    Text.lines flat = [flat] := by
  intro flat
  have hFlat : '\n' ∉ flat.toList := by
    rw [String.toList_join, List.flatMap_map]
    intro hMem
    obtain ⟨row, hRow, hIn⟩ := List.mem_flatMap.mp hMem
    exact not_mem_text_of_mem_rows hLegible hTexts hRow hIn
  rw [Text.lines, Text.splitLines_of_not_mem hFlat, List.map_singleton, String.ofList_toList]

/-- The lines of a text that was written with a positive step and legal names. There is one for each
element, one more for each element with children, and one more for each line feed in a text; values
of attributes add none. Where no text holds a line feed the lines are the rows of the tree: elements
begin in document order, and those of an element stand together, around those of its children. Each
line begins with `step` spaces for each level above its element, and then a bracket. Without the
spaces in front, and without the line feeds, they are the text without indents, which is a single
line. -/
theorem lines_encodeToText (hStep : 0 < step) (hText : encodeToText root step = .ok text)
    (hNames : root.Every HasLegalName) :
    (Text.lines text).length = (root.preorder 0).length +
        (root.preorder 0).countP (fun e => e.2.hasChildren) + root.texts.count '\n' ∧
      ('\n' ∉ root.texts →
        Text.lines text = (rows 0 root).map (Row.line step) ∧
          (rows 0 root).filterMap Row.opened? = root.preorder 0 ∧
          (∀ entry ∈ root.preorder 0, rows entry.1 entry.2 <:+: rows 0 root) ∧
          (∀ row ∈ rows 0 root, ∃ rest, (row.line step).toList =
            List.replicate (row.depth * step).toNat ' ' ++ '<' :: rest) ∧
          ∃ flat, encodeToText root 0 = .ok flat ∧
            String.join ((Text.lines text).map unindented) = flat ∧ Text.lines flat = [flat]) := by
  obtain ⟨hWritable, -⟩ := eq_render_of_encodeToText hText
  have hLegible : root.Every Legible :=
    (hWritable.and hNames).mono fun _ _ h => legible_of_writable h.1 h.2
  refine ⟨length_lines hStep hText hLegible, fun hTexts => ?_⟩
  have hLines := lines_eq_map_line hStep hText hLegible hTexts
  refine ⟨hLines, opened?_rows 0 hLegible, fun _ => infix_rows, fun row _ => ?_, render 0 0 root,
    ?_, ?_, ?_⟩
  · obtain ⟨rest, hRow⟩ := row.exists_toList_text
    exact ⟨rest, by rw [Row.toList_line, hRow]⟩
  · exact encodeToText_of_fits hWritable (Or.inl (Int.le_refl 0))
  · have hRows : (fun row : Row => unindented (row.line step)) = Row.text :=
      funext (unindented_line step)
    rw [hLines, List.map_map, Function.comp_def, hRows, render_zero hWritable]
  · rw [render_zero hWritable]
    exact lines_join_text hLegible hTexts

/-- An element with a line feed in a value, and with children of both kinds. -/
def ladder : Node :=
  .element ⟨"ladder", ⟨[("by", "a\nb")], by decide⟩, some ""⟩
    [.element ⟨"rung", .empty, some "  x "⟩ [],
      .element ⟨"rung", .empty, none⟩ [.element ⟨"nail", .empty, none⟩ []]]

theorem lines_encodeToText_ladder :
    ∃ text, encodeToText ladder 2 = .ok text ∧
      Text.lines text = ["<ladder by=\"a&#10;b\">", "  <rung>  x </rung>", "  <rung>",
        "    <nail/>", "  </rung>", "</ladder>"] := by
  have hText : encodeToText ladder 2 = .ok (render 2 0 ladder) :=
    encodeToText_of_fits (by decide +kernel) (by decide)
  have hNames : ladder.Every HasLegalName := by decide +kernel
  have hLines := ((lines_encodeToText (by decide) hText hNames).2 (by decide +kernel)).1
  exact ⟨_, hText, hLines.trans (by decide +kernel)⟩

end Writing

end XmlLayout
