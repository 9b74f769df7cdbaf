import XmlLayout.Proofs.Content.LineFeeds
import XmlLayout.Proofs.Reading.Whole
import XmlLayout.Proofs.Writing.Rendered

/-!
# From a tree to its text and back

A tree of elements that can be read back (`Reading.Readable`) is written, unless its deepest indent
cannot be made. The text is read exactly if the values of attributes and the texts are made of
characters of XML, and what is read has the content of the tree, but for line ends in the texts of
elements without children.

* `ofTree_readBack`: the content of what is read.
* `read_encodeToText`: the whole way, for all trees and steps.
* `not_forall_read_encodeToText`: not every tree is written at every step.
-/

namespace XmlLayout

open Document (Tag Attributes Node isLegalName)
open Indent
open Reading
open Writing

/-! ## Contents -/

namespace Content

theorem textOf_layout {text : List Char} (h : IsLayout text) :
    textOf true (keptText text) = none := by
  unfold keptText
  split
  · rfl
  · have hBlank : Text.onlyBlanks (String.ofList text) = true := by
      rw [Text.onlyBlanks, String.toList_ofList, List.all_eq_true]
      intro c hc
      rcases h c hc with rfl | rfl <;> decide
    exact if_pos (Or.inr ⟨rfl, hBlank⟩)

theorem textOf_of_getD {text : Option String} (h : text.getD "" = "") (hasChildren : Bool) :
    textOf hasChildren text = none := by
  cases text with
  | none => rfl
  | some text => exact if_pos (Or.inl h)

/-- The text that counts in what is read of an element. -/
theorem textOf_innerText {tag : Tag} {children : List Node} (h : Readable tag children)
    (step : Int) (depth : Nat) :
    textOf (!children.isEmpty) (keptText (innerText step depth tag children)) =
      if children.isEmpty then (textOf (!children.isEmpty) tag.text).map lineFeedsText
      else textOf (!children.isEmpty) tag.text := by
  cases children with
  | nil =>
    have hInner : innerText step depth tag [] = lineFeeds (tag.text.getD "").toList :=
      normalizeLineEnds_eq_lineFeeds _
    have hNil := lineFeeds_eq_nil_iff (tag.text.getD "").toList
    rw [hInner, keptText, List.isEmpty_nil, if_pos rfl]
    by_cases hEmpty : tag.text.getD "" = ""
    · rw [if_pos (hNil.mpr (by rw [hEmpty]; rfl)), textOf_of_getD hEmpty]
      rfl
    · have hSome : lineFeeds (tag.text.getD "").toList ≠ [] := by
        intro hEq
        exact hEmpty (String.toList_inj.mp (hNil.mp hEq))
      have hText : tag.text = some (tag.text.getD "") := by
        cases hTag : tag.text with
        | none => exact absurd (by rw [hTag]; rfl) hEmpty
        | some text => rfl
      have hFull : String.ofList (lineFeeds (tag.text.getD "").toList) ≠ "" := by
        intro hEq
        apply hSome
        rw [← String.toList_inj, String.toList_ofList] at hEq
        exact hEq
      rw [if_neg hSome, hText, Option.getD_some, textOf, textOf, if_neg (by simp [hFull]),
        if_neg (by simp [hEmpty])]
      rfl
  | cons child rest =>
    have hText := h.text (List.cons_ne_nil child rest)
    have hInner : innerText step depth tag (child :: rest) =
        (openingIndent step (depth + 1)).toList := rfl
    rw [hInner, List.isEmpty_cons, Bool.not_false, textOf_layout (isLayout_openingIndent _ _),
      textOf_of_getD hText]
    rfl

mutual

/-- What is read of a rendered tree has the content of the tree, with line ends made one. -/
theorem ofTree_readBack (step : Int) (depth : Nat) {node : Node} (h : node.Every Readable) :
    ∃ content, ofNode node = .ok content ∧
      ofTree (readBack step depth node) = content.withLineFeeds := by
  cases node with
  | foreign value => exact h.elim
  | element tag children =>
    rw [Node.Every] at h
    obtain ⟨contents, hContents, hTrees⟩ := ofTrees_readBackAll step (depth + 1) h.2
    refine ⟨ofParts tag contents, ?_, ?_⟩
    · rw [ofNode, hContents]
      rfl
    · have hEmpty := isEmpty_of_ofNodes hContents
      rw [readBack, ofTree, hTrees, ofParts, ofParts, withLineFeeds, isEmpty_withLineFeedsAll, hEmpty,
        textOf_innerText h.1]

theorem ofTrees_readBackAll (step : Int) (depth : Nat) {nodes : List Node}
    (h : Node.EveryAll Readable nodes) :
    ∃ contents, ofNodes nodes = .ok contents ∧
      ofTrees (readBackAll step depth nodes) = withLineFeedsAll contents := by
  cases nodes with
  | nil => exact ⟨[], rfl, rfl⟩
  | cons node rest =>
    rw [Node.EveryAll] at h
    obtain ⟨content, hContent, hTree⟩ := ofTree_readBack step depth h.1
    obtain ⟨contents, hContents, hTrees⟩ := ofTrees_readBackAll step depth h.2
    refine ⟨content :: contents, ?_, ?_⟩
    · rw [ofNodes, hContent, hContents]
      rfl
    · rw [readBackAll, ofTrees, hTree, hTrees, withLineFeedsAll]

end

end Content

/-! ## The whole way -/

/-- What can be read back can be written. -/
theorem writable_of_readable {tag : Tag} {children : List Node} (h : Readable tag children) :
    Writable tag children :=
  writable_iff.mpr ⟨h.text, h.legal.2⟩

/-- A tree with legal names, without declarations of namespaces and without text in front of
children is written unless its deepest indent cannot be made. The text is read exactly if all
values of attributes and all texts of elements without children are made of characters of XML; the
content of what is read is that of the tree, with line ends in those texts made one; and so the two
differ exactly if there is a carriage return in one of them. -/
theorem read_encodeToText {root : Node} (h : root.Every Readable) (step : Int) :
    if Fits step root.height then
      ∃ text, encodeToText root step = .ok text ∧
        ((∃ tree, read text = .ok tree) ↔ root.Every HoldsXml) ∧
        (∀ tree, read text = .ok tree →
          ∃ content, Content.ofNode root = .ok content ∧
            Content.ofTree tree = content.withLineFeeds) ∧
        (root.Every HoldsXml →
          ∃ differ, differs root text = .ok differ ∧
            (differ = false ↔ root.Every HoldsNoReturn))
    else encodeToText root step = .error (wideFault step) := by
  have hWritable : root.Every Writable := h.mono fun _ _ hTag => writable_of_readable hTag
  split
  · rename_i hFits
    have hRead (tree : Tree) : read (render step 0 root) = .ok tree ↔
        root.Every HoldsXml ∧ tree = readBack step 0 root := read_render_eq_ok_iff h tree
    obtain ⟨content, hContent, hTree⟩ := Content.ofTree_readBack step 0 h
    refine ⟨render step 0 root, encodeToText_of_fits hWritable hFits, ?_, ?_, ?_⟩
    · constructor
      · rintro ⟨tree, hOk⟩
        exact ((hRead tree).mp hOk).1
      · intro hHolds
        exact ⟨_, (hRead _).mpr ⟨hHolds, rfl⟩⟩
    · intro tree hOk
      obtain ⟨-, rfl⟩ := (hRead tree).mp hOk
      exact ⟨content, hContent, hTree⟩
    · intro hHolds
      have hOk : read (render step 0 root) = .ok (readBack step 0 root) :=
        (hRead _).mpr ⟨hHolds, rfl⟩
      refine ⟨!content.same content.withLineFeeds, ?_, ?_⟩
      · rw [differs, hContent, hOk, ← hTree]
        rfl
      · have hPure := h.mono fun _ _ _ => trivial
        rw [Bool.not_eq_false', Content.same_withLineFeeds hPure hContent]
  · rename_i hWide
    exact encodeToText_of_wide hWritable hWide

/-- An element with both quotes in a value, and a carriage return in the text of its child. -/
def letter : Node :=
  .element ⟨"letter", ⟨[("to", "\"you\" & 'me'\t")], by decide⟩, none⟩
    [.element ⟨"line", .empty, some "]]>\r"⟩ []]

theorem readable_letter : letter.Every Readable := by
  refine ⟨⟨⟨by decide, by decide⟩, by decide, fun _ => rfl⟩, ⟨?_, trivial⟩, trivial⟩
  exact ⟨⟨by decide, by decide⟩, by decide, fun h => absurd rfl h⟩

theorem holdsXml_letter : letter.Every HoldsXml := by
  refine ⟨⟨?_, fun h => by cases h⟩, ⟨⟨?_, fun _ => ?_⟩, trivial⟩, trivial⟩
  · simp [IsXmlChar]
  · simp [Attributes.empty]
  · simp [IsXmlChar]

theorem read_encodeToText_letter :
    letter.Every Readable ∧ ∃ text, encodeToText letter 2 = .ok text ∧
      (∃ tree, read text = .ok tree) ∧ differs letter text = .ok true := by
  refine ⟨readable_letter, ?_⟩
  have hWay := read_encodeToText readable_letter 2
  rw [if_pos (by decide)] at hWay
  obtain ⟨text, hText, hRead, -, hDiffers⟩ := hWay
  obtain ⟨differ, hDiffer, hReturn⟩ := hDiffers holdsXml_letter
  refine ⟨text, hText, hRead.mpr holdsXml_letter, ?_⟩
  have hNot : ¬letter.Every HoldsNoReturn := by
    rintro ⟨-, ⟨hLine, -⟩, -⟩
    exact absurd (hLine rfl) (by decide)
  cases differ with
  | false => exact absurd (hReturn.mp rfl) hNot
  | true => exact hDiffer

/-- Not every such tree is written at every step, even if it holds only characters of XML. -/
theorem not_forall_read_encodeToText :
    ¬∀ (root : Node) (step : Int), root.Every Readable → root.Every HoldsXml →
      ∃ text tree, encodeToText root step = .ok text ∧ read text = .ok tree := by
  intro h
  obtain ⟨text, tree, hText, -⟩ := h letter (2 ^ 63) readable_letter holdsXml_letter
  have hWide : ¬Fits (2 ^ 63) letter.height := by decide
  have hWritable : letter.Every Writable :=
    readable_letter.mono fun _ _ hTag => writable_of_readable hTag
  rw [encodeToText_of_wide hWritable hWide] at hText
  cases hText

end XmlLayout
