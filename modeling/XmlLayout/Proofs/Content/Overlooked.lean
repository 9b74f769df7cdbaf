import XmlLayout.Proofs.Content.LineFeeds
import XmlLayout.Proofs.Reading.CharacterData
import XmlLayout.Proofs.Writing.Rendered

/-!
# What a comparison overlooks

A tree and a document that do not differ in content have the same texts, but for blanks. But what
stands behind a child in the document is never looked at, so only as long as nothing but blanks stands
there is all the character data of the document in the tree.

* `unblanked_texts_of_same`: contents that are the same have the same texts.
* `unblanked_of_differs_eq_false`: what a comparison says of the character data of a document.
* `not_forall_unblanked`: it does not say everything.
-/

namespace XmlLayout

open Document (Tag Node)
open Reading
open Writing

/-! ## Blanks -/

/-- A text without its blanks. -/
def unblanked (text : List Char) : List Char :=
  text.filter fun c => !Text.isBlank c

theorem unblanked_append (s t : List Char) : unblanked (s ++ t) = unblanked s ++ unblanked t :=
  List.filter_append s t

theorem unblanked_eq_nil_iff {text : List Char} :
    unblanked text = [] ↔ text.all Text.isBlank = true := by
  simp [unblanked]

/-- A text does not count if there is nothing in it but blanks. -/
theorem unblanked_textOf (hasChildren : Bool) (text : Option String) :
    unblanked ((Content.textOf hasChildren text).getD "").toList =
      unblanked (text.getD "").toList := by
  cases text with
  | none => rfl
  | some text =>
    rw [Content.textOf]
    split
    · rename_i hNone
      have hBlank : text.toList.all Text.isBlank = true := by
        rcases hNone with rfl | ⟨-, hBlank⟩
        · rfl
        · exact hBlank
      exact (unblanked_eq_nil_iff.mpr hBlank).symm
    · rfl

/-! ## Texts -/

namespace Document.Node

mutual

/-- All texts of a tree, each in front of those of the children. A plain value has none. -/
def texts : Node → List Char
  | foreign (.plain _) => []
  | foreign (.parsed _ tree) => tree.texts
  | element tag children => (tag.text.getD "").toList ++ textsAll children

def textsAll : List Node → List Char
  | [] => []
  | node :: rest => node.texts ++ textsAll rest

end

end Document.Node

namespace Content

mutual

/-- All texts of a content, each in front of those of the children. -/
def texts : Content → List Char
  | .element tag children => (tag.text.getD "").toList ++ textsAll children

def textsAll : List Content → List Char
  | [] => []
  | content :: rest => content.texts ++ textsAll rest

end

theorem unblanked_texts_ofParts (tag : Tag) (children : List Content) :
    unblanked (ofParts tag children).texts =
      unblanked (tag.text.getD "").toList ++ unblanked (textsAll children) := by
  rw [ofParts, texts, unblanked_append, unblanked_textOf]

mutual

theorem unblanked_texts_ofTree (tree : Tree) :
    unblanked (ofTree tree).texts = unblanked tree.texts := by
  cases tree with
  | element tag children =>
    rw [ofTree, unblanked_texts_ofParts, Tree.texts, unblanked_append,
      unblanked_textsAll_ofTrees children]

theorem unblanked_textsAll_ofTrees (trees : List Tree) :
    unblanked (textsAll (ofTrees trees)) = unblanked (Tree.textsAll trees) := by
  cases trees with
  | nil => rfl
  | cons tree rest =>
    rw [ofTrees, textsAll, Tree.textsAll, unblanked_append, unblanked_append,
      unblanked_texts_ofTree tree, unblanked_textsAll_ofTrees rest]

end

mutual

theorem unblanked_texts_ofNode {node : Node} {content : Content} (h : ofNode node = .ok content) :
    unblanked content.texts = unblanked node.texts := by
  cases node with
  | foreign value =>
    cases value with
    | plain value => cases h
    | parsed address tree =>
      cases h
      exact unblanked_texts_ofTree tree
  | element tag children =>
    obtain ⟨contents, hChildren, rfl⟩ := ofNode_element_eq_ok h
    rw [unblanked_texts_ofParts, Node.texts, unblanked_append,
      unblanked_textsAll_ofNodes hChildren]

theorem unblanked_textsAll_ofNodes {nodes : List Node} {contents : List Content}
    (h : ofNodes nodes = .ok contents) :
    unblanked (textsAll contents) = unblanked (Node.textsAll nodes) := by
  cases nodes with
  | nil =>
    cases h
    rfl
  | cons node rest =>
    obtain ⟨content, others, hNode, hRest, rfl⟩ := ofNodes_cons_eq_ok h
    rw [textsAll, Node.textsAll, unblanked_append, unblanked_append,
      unblanked_texts_ofNode hNode, unblanked_textsAll_ofNodes hRest]

end

mutual

theorem texts_eq_of_same {x y : Content} (h : x.same y = true) : x.texts = y.texts := by
  cases x with
  | element s xs =>
    cases y with
    | element t ys =>
      rw [same, Bool.and_eq_true, sameTag, Bool.and_eq_true, decide_eq_true_eq] at h
      rw [texts, texts, h.1.2, textsAll_eq_of_sameAll h.2]

theorem textsAll_eq_of_sameAll {xs ys : List Content} (h : sameAll xs ys = true) :
    textsAll xs = textsAll ys := by
  cases xs with
  | nil =>
    cases ys with
    | nil => rfl
    | cons y ys => cases h
  | cons x xs =>
    cases ys with
    | nil => cases h
    | cons y ys =>
      rw [sameAll, Bool.and_eq_true] at h
      rw [textsAll, textsAll, texts_eq_of_same h.1, textsAll_eq_of_sameAll h.2]

end

end Content

/-- A tree and a document that do not differ: the document is read, and its tree has the content. -/
theorem exists_of_differs_eq_false {root : Node} {document : String}
    (h : differs root document = .ok false) :
    ∃ content tree, Content.ofNode root = .ok content ∧ read document = .ok tree ∧
      content.same (Content.ofTree tree) = true := by
  unfold differs at h
  cases hContent : Content.ofNode root with
  | error cause =>
    rw [hContent] at h
    cases h
  | ok content =>
    cases hTree : read document with
    | error cause =>
      rw [hContent, hTree] at h
      cases h
    | ok tree =>
      rw [hContent, hTree] at h
      have hSame : (!content.same (Content.ofTree tree)) = false := Except.ok.inj h
      exact ⟨content, tree, rfl, rfl, by simpa using hSame⟩

/-! ## Character data -/

theorem sublist_front (data : List Placed) : (front data).Sublist (data.map Placed.char) :=
  List.filter_sublist.map Placed.char

/-- The characters in front of first children are all that are not blank exactly if behind children
there are only blanks. -/
theorem unblanked_map_char_eq_iff (data : List Placed) :
    unblanked (data.map Placed.char) = unblanked (front data) ↔
      ∀ c ∈ data, c.isBehind = true → Text.isBlank c.char = true := by
  induction data with
  | nil => simp [front]
  | cons c rest ih =>
    have hFront : front (c :: rest) = (if c.isBehind then [] else [c.char]) ++ front rest := by
      unfold front
      cases hBehind : c.isBehind <;> simp [hBehind]
    have hLonger := ((sublist_front rest).filter fun c => !Text.isBlank c).length_le
    rw [List.map_cons, hFront, unblanked_append, List.forall_mem_cons, ← ih,
      ← List.singleton_append, unblanked_append]
    cases hBehind : c.isBehind with
    | false => simp
    | true =>
      cases hBlank : Text.isBlank c.char with
      | true => simp [unblanked, hBlank]
      | false =>
        -- One more character, which is in the one text only.
        have hNe : unblanked [c.char] ++ unblanked (rest.map Placed.char) ≠
            unblanked [] ++ unblanked (front rest) := by
          intro hEq
          have hLength := congrArg List.length hEq
          simp [unblanked, hBlank] at hLength hLonger
          omega
        simpa using hNe

/-- If a tree and a document do not differ, the texts of the tree are, but for blanks, the character
data of the document that is not behind a child; and so they are all its character data exactly if
nothing but blanks is behind a child. -/
theorem unblanked_of_differs_eq_false {root : Node} {document : String}
    (h : differs root document = .ok false) :
    unblanked (front (characterData document)) = unblanked root.texts ∧
      (unblanked ((characterData document).map Placed.char) = unblanked root.texts ↔
        ∀ c ∈ characterData document, c.isBehind = true → Text.isBlank c.char = true) := by
  obtain ⟨content, tree, hContent, hTree, hSame⟩ := exists_of_differs_eq_false h
  have hTexts : unblanked (front (characterData document)) = unblanked root.texts := by
    rw [front_characterData hTree, ← Content.unblanked_texts_ofTree tree,
      ← Content.texts_eq_of_same hSame, Content.unblanked_texts_ofNode hContent]
  refine ⟨hTexts, ?_⟩
  rw [← hTexts]
  exact unblanked_map_char_eq_iff _

/-- An element that has a text, in one that has none. -/
def nest : Node :=
  .element ⟨"a", .empty, none⟩ [.element ⟨"b", .empty, some "x"⟩ []]

theorem differs_nest {document : String} (h : (differs nest document).toOption = some false) :
    differs nest document = .ok false := by
  cases hDiffers : differs nest document with
  | error cause =>
    rw [hDiffers] at h
    cases h
  | ok differ =>
    rw [hDiffers] at h
    exact congrArg Except.ok (Option.some.inj h)

theorem unblanked_of_differs_eq_false_nest :
    differs nest "<a>\n<b>&#120;</b>\n</a>" = .ok false ∧
      unblanked ((characterData "<a>\n<b>&#120;</b>\n</a>").map Placed.char) =
        unblanked nest.texts := by
  have hSame : differs nest "<a>\n<b>&#120;</b>\n</a>" = .ok false :=
    differs_nest (by decide +kernel)
  exact ⟨hSame, (unblanked_of_differs_eq_false hSame).2.mpr (by decide +kernel)⟩

/-- Text behind a child is overlooked, even if it is not blank. -/
theorem not_forall_unblanked :
    ¬∀ (root : Node) (step : Int) (text document : String), encodeToText root step = .ok text →
      differs root document = .ok false →
        unblanked ((characterData document).map Placed.char) = unblanked root.texts := by
  intro h
  have hText : encodeToText nest 0 = .ok (render 0 0 nest) :=
    encodeToText_of_fits (by decide +kernel) (by decide)
  have hSame : differs nest "<a><b>x</b>c</a>" = .ok false := differs_nest (by decide +kernel)
  have hTexts := h nest 0 _ "<a><b>x</b>c</a>" hText hSame
  revert hTexts
  decide +kernel

end XmlLayout
