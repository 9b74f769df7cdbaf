import XmlLayout.Content
import XmlLayout.Proofs.Document.Shape
import XmlLayout.Proofs.Reading.Spelling

/-!
# Line ends in a content

Reading makes every line end of a text one line feed. Here this is said by cases on the text
(`lineFeeds`), and for all elements of a content that have no children.

* `lineFeeds_eq_self_iff`: only a text with a carriage return is changed.
* `Content.same_withLineFeeds`: which contents are still the same.
-/

namespace XmlLayout

open Document (Tag Attributes Node)
open Reading (normalizeLineEnds normalizeLineEnds_cons)

/-! ## Texts -/

/-- A text in which a carriage return and a line feed behind it, and every other carriage return,
are one line feed. -/
def lineFeeds : List Char → List Char
  | '\r' :: '\n' :: rest => '\n' :: lineFeeds rest
  | '\r' :: rest => '\n' :: lineFeeds rest
  | c :: rest => c :: lineFeeds rest
  | [] => []

theorem normalizeLineEnds_eq_lineFeeds (text : List Char) :
    normalizeLineEnds text = lineFeeds text := by
  fun_induction lineFeeds text with
  | case1 rest ih =>
    rw [normalizeLineEnds_cons, if_neg (by simp), if_pos List.head?_cons, normalizeLineEnds_cons,
      if_pos (by decide), ih]
  | case2 rest hNext ih =>
    have hHead : rest.head? ≠ some '\n' := by
      intro hHead
      obtain ⟨more, rfl⟩ := List.head?_eq_some_iff.mp hHead
      exact hNext more rfl
    rw [normalizeLineEnds_cons, if_neg (by simp), if_neg hHead, ih]
  | case3 c rest _ hReturn ih =>
    have hNe : c ≠ '\r' := fun hEq => hReturn hEq
    rw [normalizeLineEnds_cons, if_pos hNe, ih]
  | case4 => rfl

theorem not_mem_lineFeeds (text : List Char) : '\r' ∉ lineFeeds text := by
  fun_induction lineFeeds text with
  | case1 rest ih => exact List.not_mem_cons_of_ne_of_not_mem (by decide) ih
  | case2 rest _ ih => exact List.not_mem_cons_of_ne_of_not_mem (by decide) ih
  | case3 c rest _ hReturn ih =>
    exact List.not_mem_cons_of_ne_of_not_mem (fun hEq => hReturn hEq.symm) ih
  | case4 => exact List.not_mem_nil

theorem lineFeeds_eq_self_iff (text : List Char) : lineFeeds text = text ↔ '\r' ∉ text := by
  constructor
  · intro h
    rw [← h]
    exact not_mem_lineFeeds text
  · intro h
    rw [← normalizeLineEnds_eq_lineFeeds]
    exact Reading.normalizeLineEnds_of_not_mem h

theorem lineFeeds_eq_nil_iff (text : List Char) : lineFeeds text = [] ↔ text = [] := by
  fun_cases lineFeeds text <;> simp

/-- `lineFeeds` of a text that is held. -/
def lineFeedsText (text : String) : String :=
  String.ofList (lineFeeds text.toList)

theorem lineFeedsText_eq_self_iff (text : String) :
    lineFeedsText text = text ↔ '\r' ∉ text.toList := by
  rw [← lineFeeds_eq_self_iff, lineFeedsText, ← String.toList_inj, String.toList_ofList]

/-! ## Contents -/

namespace Content

mutual

/-- A content with `lineFeeds` of the texts of elements without children. -/
def withLineFeeds : Content → Content
  | .element tag children =>
    .element
      { tag with text := if children.isEmpty then tag.text.map lineFeedsText else tag.text }
      (withLineFeedsAll children)

def withLineFeedsAll : List Content → List Content
  | [] => []
  | content :: rest => content.withLineFeeds :: withLineFeedsAll rest

end

theorem isEmpty_withLineFeedsAll (contents : List Content) :
    (withLineFeedsAll contents).isEmpty = contents.isEmpty := by
  cases contents with
  | nil => rfl
  | cons content rest =>
    rw [withLineFeedsAll]
    rfl

end Content

/-! ## Sameness -/

theorem lookup_of_mem {entries : List (String × String)} (h : (entries.map Prod.fst).Nodup)
    {entry : String × String} (hMem : entry ∈ entries) :
    entries.lookup entry.1 = some entry.2 := by
  induction entries with
  | nil => exact absurd hMem List.not_mem_nil
  | cons first rest ih =>
    rw [List.map_cons, List.nodup_cons] at h
    rcases List.mem_cons.mp hMem with rfl | hRest
    · exact List.lookup_cons_self
    · have hNe : (entry.1 == first.1) = false := by
        rw [beq_eq_false_iff_ne]
        intro hEq
        exact h.1 (hEq ▸ List.mem_map_of_mem hRest)
      rw [List.lookup_cons, hNe]
      exact ih h.2 hRest

theorem same_self (attributes : Attributes) : attributes.same attributes = true := by
  rw [Attributes.same, Bool.and_eq_true, decide_eq_true_eq, List.all_eq_true]
  refine ⟨rfl, ?_⟩
  intro entry hEntry
  rw [decide_eq_true_eq]
  exact lookup_of_mem attributes.nodup hEntry

/-- An element without children has a text without a carriage return. -/
def HoldsNoReturn (tag : Tag) (children : List Node) : Prop :=
  children = [] → '\r' ∉ (tag.text.getD "").toList

instance (tag : Tag) (children : List Node) : Decidable (HoldsNoReturn tag children) :=
  inferInstanceAs (Decidable (_ → _))

namespace Content

theorem map_lineFeedsText_textOf (text : Option String) :
    textOf false text = (textOf false text).map lineFeedsText ↔
      '\r' ∉ (text.getD "").toList := by
  cases text with
  | none => simp [textOf]
  | some text =>
    by_cases hEmpty : text = ""
    · simp [textOf, hEmpty]
    · have hText : textOf false (some text) = some text := by simp [textOf, hEmpty]
      rw [hText, Option.map_some, Option.some.injEq, Option.getD_some, eq_comm]
      exact lineFeedsText_eq_self_iff text

theorem ofNode_element_eq_ok {tag : Tag} {children : List Node} {content : Content}
    (h : ofNode (.element tag children) = .ok content) :
    ∃ contents, ofNodes children = .ok contents ∧ content = ofParts tag contents := by
  rw [ofNode] at h
  cases hChildren : ofNodes children with
  | error cause =>
    rw [hChildren] at h
    cases h
  | ok contents =>
    rw [hChildren] at h
    cases h
    exact ⟨contents, rfl, rfl⟩

theorem ofNodes_cons_eq_ok {node : Node} {rest : List Node} {contents : List Content}
    (h : ofNodes (node :: rest) = .ok contents) :
    ∃ content others, ofNode node = .ok content ∧ ofNodes rest = .ok others ∧
      contents = content :: others := by
  rw [ofNodes] at h
  cases hNode : ofNode node with
  | error cause =>
    rw [hNode] at h
    cases h
  | ok content =>
    cases hRest : ofNodes rest with
    | error cause =>
      rw [hNode, hRest] at h
      cases h
    | ok others =>
      rw [hNode, hRest] at h
      cases h
      exact ⟨content, others, rfl, rfl, rfl⟩

theorem isEmpty_of_ofNodes {nodes : List Node} {contents : List Content}
    (h : ofNodes nodes = .ok contents) : contents.isEmpty = nodes.isEmpty := by
  cases nodes with
  | nil =>
    rw [ofNodes] at h
    cases h
    rfl
  | cons node rest =>
    obtain ⟨content, others, -, -, rfl⟩ := ofNodes_cons_eq_ok h
    rfl

theorem sameTag_withLineFeeds (tag : Tag) (nodes : List Node) :
    sameTag { tag with text := textOf (!nodes.isEmpty) tag.text }
        { tag with
          text := if nodes.isEmpty then (textOf (!nodes.isEmpty) tag.text).map lineFeedsText
            else textOf (!nodes.isEmpty) tag.text } = true ↔
      HoldsNoReturn tag nodes := by
  unfold sameTag HoldsNoReturn
  rw [same_self, Bool.and_true, Bool.and_eq_true, decide_eq_true_eq, decide_eq_true_eq]
  cases nodes with
  | nil => simpa using map_lineFeedsText_textOf tag.text
  | cons node rest => simp

mutual

/-- The content of a tree is the same with its line ends made one if it has no carriage return in
the text of an element without children. -/
theorem same_withLineFeeds {node : Node} {content : Content} (hPure : node.Every fun _ _ => True)
    (h : ofNode node = .ok content) :
    content.same content.withLineFeeds = true ↔ node.Every HoldsNoReturn := by
  cases node with
  | foreign value => exact hPure.elim
  | element tag children =>
    obtain ⟨contents, hChildren, rfl⟩ := ofNode_element_eq_ok h
    rw [ofParts, withLineFeeds, same, Bool.and_eq_true, isEmpty_of_ofNodes hChildren,
      sameTag_withLineFeeds, sameAll_withLineFeedsAll hPure.2 hChildren, Node.Every]

theorem sameAll_withLineFeedsAll {nodes : List Node} {contents : List Content}
    (hPure : Node.EveryAll (fun _ _ => True) nodes) (h : ofNodes nodes = .ok contents) :
    sameAll contents (withLineFeedsAll contents) = true ↔ Node.EveryAll HoldsNoReturn nodes := by
  cases nodes with
  | nil =>
    cases h
    rw [withLineFeedsAll, sameAll, Node.EveryAll]
    exact iff_of_true rfl trivial
  | cons node rest =>
    obtain ⟨content, others, hNode, hRest, rfl⟩ := ofNodes_cons_eq_ok h
    rw [withLineFeedsAll, sameAll, Bool.and_eq_true, same_withLineFeeds hPure.1 hNode,
      sameAll_withLineFeedsAll hPure.2 hRest, Node.EveryAll]

end

mutual

/-- Without a carriage return no line end of a content is changed. -/
theorem withLineFeeds_eq_self {node : Node} {content : Content} (h : ofNode node = .ok content)
    (hReturn : node.Every HoldsNoReturn) : content.withLineFeeds = content := by
  cases node with
  | foreign value => exact hReturn.elim
  | element tag children =>
    obtain ⟨contents, hChildren, rfl⟩ := ofNode_element_eq_ok h
    rw [Node.Every] at hReturn
    have hEmpty := isEmpty_of_ofNodes hChildren
    have hText : (if contents.isEmpty then
        (textOf (!contents.isEmpty) tag.text).map lineFeedsText
        else textOf (!contents.isEmpty) tag.text) = textOf (!contents.isEmpty) tag.text := by
      rw [hEmpty]
      split
      · rename_i hNil
        rw [hNil]
        exact ((map_lineFeedsText_textOf tag.text).mpr
          (hReturn.1 (List.isEmpty_iff.mp hNil))).symm
      · rfl
    rw [ofParts, withLineFeeds, withLineFeedsAll_eq_self hChildren hReturn.2, hText]

theorem withLineFeedsAll_eq_self {nodes : List Node} {contents : List Content}
    (h : ofNodes nodes = .ok contents) (hReturn : Node.EveryAll HoldsNoReturn nodes) :
    withLineFeedsAll contents = contents := by
  cases nodes with
  | nil =>
    cases h
    rw [withLineFeedsAll]
  | cons node rest =>
    obtain ⟨content, others, hNode, hRest, rfl⟩ := ofNodes_cons_eq_ok h
    rw [Node.EveryAll] at hReturn
    rw [withLineFeedsAll, withLineFeeds_eq_self hNode hReturn.1,
      withLineFeedsAll_eq_self hRest hReturn.2]

end

end Content

end XmlLayout
