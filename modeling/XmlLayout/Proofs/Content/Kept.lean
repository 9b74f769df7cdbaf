import XmlLayout.Proofs.Content.LineFeeds
import XmlLayout.Proofs.Reading.Whole
import XmlLayout.Proofs.Writing.Unambiguous

/-!
# What is kept of a tree

A tree that is written and read again is compared with itself, element by element, in the same places
(`Node.Related`). The names and the attributes are kept, unless an attribute declares a default
namespace: it is not an attribute of what is read, and it goes in front of the names. The text of an
element without children is kept but for its carriage returns.

* `related_readBackIn_iff`: a comparison of what is read with what was written, in general.
* `read_encodeToText_heads`: names and attributes.
* `read_encodeToText_texts`: texts.
-/

namespace XmlLayout

open Document (Tag Attributes Node isLegalName)
open Indent
open Reading
open Writing

/-! ## Comparing with what was written -/

namespace Reading.Tree

mutual

/-- A tree that was read, as one that is held. -/
def toNode : Tree → Node
  | .element tag children => .element tag (toNodes children)

def toNodes : List Tree → List Node
  | [] => []
  | tree :: rest => tree.toNode :: toNodes rest

end

end Reading.Tree

/-- `P` says of an element how it compares by `R` with what it is read as, wherever it stands. What is
known of the namespace around it is `Q`. -/
structure Compares (R : Tag → List Node → Tag → List Node → Prop) (P : Tag → List Node → Prop)
    (Q : String → Prop) : Prop where
  inside : ∀ space tag children, Q space → P tag children → Q (spaceInside space tag)
  tag : ∀ space step depth tag children others, Q space →
    (R tag children
      { tagIn (spaceInside space tag) tag with text := keptText (innerText step depth tag children) }
      others ↔ P tag children)

section Compared

variable {R : Tag → List Node → Tag → List Node → Prop} {P : Tag → List Node → Prop}
  {Q : String → Prop}

mutual

theorem related_readBackIn_iff (h : Compares R P Q) (step : Int) (depth : Nat) (node : Node)
    {space : String} (hSpace : Q space) :
    node.Related R (readBackIn space step depth node).toNode ↔ node.Every P := by
  cases node with
  | foreign value => exact Iff.rfl
  | element tag children =>
    rw [readBackIn, Tree.toNode, Node.Related, Node.Every,
      h.tag space step depth tag children _ hSpace]
    refine and_congr_right fun hTag => ?_
    exact relatedAll_readBackAllIn_iff h step (depth + 1) children
      (h.inside space tag children hSpace hTag)

theorem relatedAll_readBackAllIn_iff (h : Compares R P Q) (step : Int) (depth : Nat)
    (nodes : List Node) {space : String} (hSpace : Q space) :
    Node.RelatedAll R nodes (Tree.toNodes (readBackAllIn space step depth nodes)) ↔
      Node.EveryAll P nodes := by
  cases nodes with
  | nil => exact Iff.rfl
  | cons node rest =>
    rw [readBackAllIn, Tree.toNodes, Node.RelatedAll, Node.EveryAll,
      related_readBackIn_iff h step depth node hSpace,
      relatedAll_readBackAllIn_iff h step depth rest hSpace]

end

end Compared

/-- What a tree with legal names that was written is read as. -/
theorem read_eq_ok_iff_of_encodeToText {root : Node} {step : Int} {document : String}
    (hText : encodeToText root step = .ok document) (hNames : root.Every HasLegalName)
    (tree : Tree) :
    read document = .ok tree ↔
      root.Every HoldsXml ∧ root.Every DeclaresWell ∧ tree = readBackIn "" step 0 root := by
  obtain ⟨hWritable, rfl⟩ := eq_render_of_encodeToText hText
  exact read_render ((hWritable.and hNames).mono fun _ _ h => legible_of_writable h.1 h.2) tree

/-! ## Names and attributes -/

/-- Two elements with the same name and the same attributes. -/
def SameHead (s : Tag) (_ : List Node) (t : Tag) (_ : List Node) : Prop :=
  s.name = t.name ∧ s.attributes = t.attributes

/-- Outside every declared namespace, exactly an element that declares none is read with its own name
and attributes. -/
theorem sameHead_tagIn_iff (tag : Tag) (children others : List Node) (text : Option String) :
    SameHead tag children { tagIn (spaceInside "" tag) tag with text := text } others ↔
      DeclaresNone tag children := by
  constructor
  · rintro ⟨-, hAttributes⟩
    have hErased : tag.attributes = tag.attributes.erase "xmlns" := hAttributes
    rw [DeclaresNone, ← Attributes.get?_eq_none_iff, hErased]
    exact Attributes.get?_erase_self _ _
  · intro h
    rw [h.spaceInside_eq, h.tagIn_eq]
    exact ⟨rfl, rfl⟩

theorem compares_sameHead : Compares SameHead DeclaresNone (· = "") where
  inside := by
    rintro space tag children rfl h
    exact h.spaceInside_eq ""
  tag := by
    rintro space step depth tag children others rfl
    exact sameHead_tagIn_iff tag children others _

theorem related_sameHead_iff (step : Int) (root : Node) :
    root.Related SameHead (readBackIn "" step 0 root).toNode ↔ root.Every DeclaresNone :=
  related_readBackIn_iff compares_sameHead step 0 root rfl

/-- A tree with legal names, made of characters of XML, is read if each default namespace that it
declares may be declared. What is read has the names with the namespace in front, and the attributes
without the declarations; and so the names and the attributes are those of the tree exactly if it
declares none. -/
theorem read_encodeToText_heads {root : Node} {step : Int} {document : String}
    (hText : encodeToText root step = .ok document) (hNames : root.Every HasLegalName)
    (hXml : root.Every HoldsXml) :
    ((∃ tree, read document = .ok tree) ↔ root.Every DeclaresWell) ∧
      (∀ tree, read document = .ok tree → tree = readBackIn "" step 0 root) ∧
      ((∃ tree, read document = .ok tree ∧ root.Related SameHead tree.toNode) ↔
        root.Every DeclaresNone) := by
  have hRead := read_eq_ok_iff_of_encodeToText hText hNames
  refine ⟨?_, ?_, ?_⟩
  · constructor
    · rintro ⟨tree, hOk⟩
      exact ((hRead tree).mp hOk).2.1
    · intro hDeclares
      exact ⟨_, (hRead _).mpr ⟨hXml, hDeclares, rfl⟩⟩
  · intro tree hOk
    exact ((hRead tree).mp hOk).2.2
  · constructor
    · rintro ⟨tree, hOk, hSame⟩
      obtain ⟨-, -, rfl⟩ := (hRead tree).mp hOk
      exact (related_sameHead_iff step root).mp hSame
    · intro hNone
      have hDeclares : root.Every DeclaresWell := hNone.mono fun _ _ h => h.declaresWell
      exact ⟨_, (hRead _).mpr ⟨hXml, hDeclares, rfl⟩, (related_sameHead_iff step root).mpr hNone⟩

/-- An element that declares a namespace for itself and its child. -/
def spaced : Node :=
  .element ⟨"a", ⟨[("xmlns", "u"), ("b", "c")], by decide⟩, none⟩ [.element ⟨"d", .empty, none⟩ []]

theorem encodeToText_spaced : encodeToText spaced 0 = .ok (render 0 0 spaced) :=
  encodeToText_of_fits (by decide +kernel) (by decide)

theorem read_encodeToText_heads_spaced :
    encodeToText spaced 0 = .ok (render 0 0 spaced) ∧ spaced.Every HasLegalName ∧
      spaced.Every HoldsXml ∧ (∃ tree, read (render 0 0 spaced) = .ok tree) ∧
      ¬∃ tree, read (render 0 0 spaced) = .ok tree ∧ spaced.Related SameHead tree.toNode := by
  have hNames : spaced.Every HasLegalName := by decide +kernel
  have hXml : spaced.Every HoldsXml := by decide +kernel
  obtain ⟨hRead, -, hSame⟩ := read_encodeToText_heads encodeToText_spaced hNames hXml
  refine ⟨encodeToText_spaced, hNames, hXml, hRead.mpr (by decide +kernel), ?_⟩
  rw [hSame]
  decide +kernel

/-- Not every tree that is written is read with its own names and attributes. -/
theorem not_forall_sameHead :
    ¬∀ (root : Node) (step : Int) (document : String), encodeToText root step = .ok document →
      root.Every HasLegalName → root.Every HoldsXml →
        ∃ tree, read document = .ok tree ∧ root.Related SameHead tree.toNode := by
  intro h
  have hNames : spaced.Every HasLegalName := by decide +kernel
  obtain ⟨tree, hOk, hSame⟩ := h spaced 0 _ encodeToText_spaced hNames (by decide +kernel)
  obtain ⟨-, -, rfl⟩ := (read_eq_ok_iff_of_encodeToText encodeToText_spaced hNames tree).mp hOk
  rw [related_sameHead_iff] at hSame
  exact absurd hSame (by decide +kernel)

/-! ## Texts -/

/-- Where there are no children, the second text is what `change` makes of the first. -/
def LeafText (change : List Char → List Char) (s : Tag) (xs : List Node) (t : Tag) (_ : List Node) :
    Prop :=
  xs = [] → t.text = keptText (change (s.text.getD "").toList)

theorem innerText_nil (step : Int) (depth : Nat) (tag : Tag) :
    innerText step depth tag [] = lineFeeds (tag.text.getD "").toList :=
  normalizeLineEnds_eq_lineFeeds _

theorem keptText_inj {s t : List Char} : keptText s = keptText t ↔ s = t := by
  refine ⟨fun h => ?_, congrArg keptText⟩
  have hChars (u : List Char) : ((keptText u).getD "").toList = u := by
    unfold keptText
    split
    · rename_i hNil
      exact hNil.symm
    · exact String.toList_ofList
  rw [← hChars s, h, hChars]

theorem compares_leafText_lineFeeds :
    Compares (LeafText lineFeeds) (fun _ _ => True) (fun _ => True) where
  inside _ _ _ _ _ := trivial
  tag := by
    intro space step depth tag children others _
    refine iff_true_intro ?_
    rintro rfl
    exact congrArg keptText (innerText_nil step depth tag)

theorem compares_leafText_id : Compares (LeafText id) HoldsNoReturn (fun _ => True) where
  inside _ _ _ _ _ := trivial
  tag := by
    intro space step depth tag children others _
    refine forall_congr' ?_
    rintro rfl
    rw [innerText_nil, keptText_inj, id_eq, lineFeeds_eq_self_iff]

/-- The root by itself, with a text. -/
def leaf (name text : String) : Node :=
  .element ⟨name, .empty, some text⟩ []

section Leaf

variable {name text : String} (hName : isLegalName name = true)
  (hChars : ∀ c ∈ text.toList, IsXmlChar c)
include hName hChars

/-- An element with a text and nothing else is written at every step, and read. -/
theorem read_encodeToText_leaf (step : Int) :
    ∃ document, encodeToText (leaf name text) step = .ok document ∧ ∀ tree,
      read document = .ok tree ↔
        tree = .element ⟨name, .empty, keptText (lineFeeds text.toList)⟩ [] := by
  have hKeys (key : String) : key ∉ Attributes.empty.keys := List.not_mem_nil
  have hWritable : (leaf name text).Every Writable := by
    refine ⟨writable_iff.mpr ⟨fun h => absurd rfl h, fun key hKey => ?_⟩, trivial⟩
    exact absurd hKey (hKeys key)
  have hFits : Fits step (leaf name text).height := by
    refine Or.inr ?_
    simp [leaf, Node.height, Node.heightAll, memoryLimit]
  have hText := encodeToText_of_fits hWritable hFits
  refine ⟨_, hText, fun tree => ?_⟩
  have hNone : DeclaresNone ⟨name, .empty, some text⟩ [] := hKeys "xmlns"
  have hXml : (leaf name text).Every HoldsXml :=
    ⟨⟨fun entry hEntry => absurd hEntry List.not_mem_nil, fun _ => hChars⟩, trivial⟩
  have hDeclares : (leaf name text).Every DeclaresWell := ⟨hNone.declaresWell, trivial⟩
  have hTree : readBackIn "" step 0 (leaf name text) =
      .element ⟨name, .empty, keptText (lineFeeds text.toList)⟩ [] := by
    rw [leaf, readBackIn, innerText_nil, hNone.spaceInside_eq]
    rfl
  rw [read_eq_ok_iff_of_encodeToText hText ⟨hName, trivial⟩, hTree]
  simp only [hXml, hDeclares, true_and]

end Leaf

/-- An element with a legal name and a text of characters of XML is written at every step, and read
with its text, but for carriage returns. So is the text of each element without children, in every
tree that is written and declares nothing that it may not; and all these texts are read as they were
exactly if there is no carriage return in one of them. An empty text is read as none. -/
theorem read_encodeToText_texts (step : Int) :
    (∀ name text : String, isLegalName name = true → (∀ c ∈ text.toList, IsXmlChar c) →
      ∃ document, encodeToText (leaf name text) step = .ok document ∧
        read document = .ok (.element ⟨name, .empty, keptText (lineFeeds text.toList)⟩ [])) ∧
    (∀ (root : Node) (document : String), encodeToText root step = .ok document →
      root.Every HasLegalName → root.Every HoldsXml → root.Every DeclaresWell →
        ∃ tree, read document = .ok tree ∧ root.Related (LeafText lineFeeds) tree.toNode ∧
          (root.Related (LeafText id) tree.toNode ↔ root.Every HoldsNoReturn)) := by
  constructor
  · intro name text hName hChars
    obtain ⟨document, hText, hRead⟩ := read_encodeToText_leaf hName hChars step
    exact ⟨document, hText, (hRead _).mpr rfl⟩
  · intro root document hText hNames hXml hDeclares
    have hAll : root.Every fun _ _ => True := hNames.mono fun _ _ _ => trivial
    refine ⟨_, (read_eq_ok_iff_of_encodeToText hText hNames _).mpr ⟨hXml, hDeclares, rfl⟩, ?_, ?_⟩
    · exact (related_readBackIn_iff compares_leafText_lineFeeds step 0 root trivial).mpr hAll
    · exact related_readBackIn_iff compares_leafText_id step 0 root trivial

theorem read_encodeToText_texts_spaced :
    (∃ document, encodeToText (leaf "a" "\r]]>") 0 = .ok document ∧
      read document = .ok (.element ⟨"a", .empty, some "\n]]>"⟩ [])) ∧
    encodeToText spaced 0 = .ok (render 0 0 spaced) ∧
      ∃ tree, read (render 0 0 spaced) = .ok tree ∧ spaced.Related (LeafText id) tree.toNode := by
  obtain ⟨hLeaf, hTree⟩ := read_encodeToText_texts 0
  obtain ⟨tree, hRead, -, hSame⟩ := hTree spaced _ encodeToText_spaced
    (by decide +kernel) (by decide +kernel) (by decide +kernel)
  refine ⟨?_, encodeToText_spaced, tree, hRead, hSame.mpr (by decide +kernel)⟩
  exact hLeaf "a" "\r]]>" (by decide) (by simp [IsXmlChar])

/-- Not every text of characters of XML is read as it was. -/
theorem not_forall_leaf_text :
    ¬∀ (name text : String) (step : Int), isLegalName name = true →
      (∀ c ∈ text.toList, IsXmlChar c) → ∃ document, encodeToText (leaf name text) step = .ok document ∧
        read document = .ok (.element ⟨name, .empty, keptText text.toList⟩ []) := by
  intro h
  have hName : isLegalName "a" = true := by decide
  have hChars : ∀ c ∈ "\r".toList, IsXmlChar c := by simp [IsXmlChar]
  obtain ⟨document, hText, hSame⟩ := h "a" "\r" 0 hName hChars
  obtain ⟨other, hOther, hRead⟩ := read_encodeToText_leaf hName hChars 0
  rw [hText] at hOther
  obtain rfl := Except.ok.inj hOther
  have hTree := (hRead _).mp hSame
  injection hTree with hTag
  exact absurd (congrArg Tag.text hTag) (by decide)

end XmlLayout
