import Mathlib.Data.List.Perm.Subperm
import XmlLayout.Proofs.Content.RoundTrip

/-!
# What the comparison tells apart

A tree is compared with a text by comparing contents. If the text was written for a tree that reads
back unchanged, then the comparison finds a difference exactly if the two trees do not correspond
(`Corresponds`): their layout is left out of account, and so are texts that say nothing and the order
of attributes, but nothing else is. The tree that is compared may be one that cannot be written.

* `Attributes.same_iff`: attributes are compared as maps.
* `Content.same_iff_related`: which trees have the same content.
* `differs_encodeToText`: which trees do not differ from a text that was written.
-/

namespace XmlLayout

open Document (Tag Attributes Node isLegalName)
open Reading
open Writing

/-! ## Attributes as maps -/

namespace Document.Attributes

variable {a b : Attributes}

theorem mem_keys_iff {key : String} : key ∈ a.keys ↔ a.get? key ≠ none := by
  rw [ne_eq, get?_eq_none_iff, not_not]

theorem length_keys (a : Attributes) : a.keys.length = a.toList.length :=
  List.length_map Prod.fst

/-- Attributes are the same exactly if they are the same map. -/
theorem same_iff : a.same b = true ↔ ∀ key, a.get? key = b.get? key := by
  have hEntry {c : Attributes} {entry : String × String} (hMem : entry ∈ c.toList) :
      c.get? entry.1 = some entry.2 := lookup_of_mem c.nodup hMem
  rw [same, Bool.and_eq_true, decide_eq_true_eq, List.all_eq_true]
  simp only [decide_eq_true_eq]
  constructor
  · rintro ⟨hLength, hAll⟩ key
    have hKeys : ∀ {key}, key ∈ a.keys → a.get? key = b.get? key := by
      intro key hMem
      obtain ⟨entry, hIn, rfl⟩ := List.mem_map.mp hMem
      rw [hEntry hIn, hAll entry hIn]
    by_cases hMem : key ∈ a.keys
    · exact hKeys hMem
    · -- As many keys, none of them repeated: there is no other one.
      have hSubset : a.keys ⊆ b.keys := by
        intro other hOther
        rw [mem_keys_iff, ← hKeys hOther, ← mem_keys_iff]
        exact hOther
      have hCount : b.keys.length = a.keys.length := by
        rw [length_keys, length_keys, hLength]
      have hPerm := (List.subperm_of_subset a.nodup hSubset).perm_of_length_le (Nat.le_of_eq hCount)
      have hNot : key ∉ b.keys := fun hOther => hMem (hPerm.mem_iff.mpr hOther)
      rw [mem_keys_iff, not_not] at hMem hNot
      rw [hMem, hNot]
  · intro hSame
    have hKeys (key : String) : key ∈ a.keys ↔ key ∈ b.keys := by
      rw [mem_keys_iff, mem_keys_iff, hSame]
    have hPerm := (List.perm_ext_iff_of_nodup a.nodup b.nodup).mpr hKeys
    refine ⟨?_, ?_⟩
    · rw [← length_keys, ← length_keys]
      exact hPerm.length_eq
    · intro entry hMem
      rw [← hSame]
      exact hEntry hMem

end Document.Attributes

/-! ## Trees that correspond -/

/-- The text of an element that says something: an empty text does not, and beside children neither
does a text of which trimming leaves nothing. -/
def spokenText (children : List Node) (text : Option String) : Option String :=
  text.filter fun text =>
    text ≠ "" ∧ (children = [] ∨ Text.trim Text.isBlank text.toList ≠ [])

/-- Two elements with the same name, the same attributes in any order and the same text, as far as that
says something. -/
def SaysSame (s : Tag) (xs : List Node) (t : Tag) (ys : List Node) : Prop :=
  s.name = t.name ∧ (∀ key, s.attributes.get? key = t.attributes.get? key) ∧
    spokenText xs s.text = spokenText ys t.text

/-- Two trees of elements that say the same, each element in its place. -/
def Corresponds (a b : Node) : Prop :=
  a.Related SaysSame b

namespace Content

theorem textOf_eq_spokenText (children : List Node) (text : Option String) :
    textOf (!children.isEmpty) text = spokenText children text := by
  cases text with
  | none => rfl
  | some text =>
    have hBlank : Text.onlyBlanks text = true ↔ Text.trim Text.isBlank text.toList = [] :=
      Text.trim_eq_nil_iff.symm
    have hSays : ¬(text = "" ∨ (!children.isEmpty) = true ∧ Text.onlyBlanks text = true) ↔
        text ≠ "" ∧ (children = [] ∨ Text.trim Text.isBlank text.toList ≠ []) := by
      rw [not_or, not_and_or, hBlank, Bool.not_eq_true', Bool.not_eq_false, List.isEmpty_iff]
    rw [textOf, spokenText, Option.filter_some]
    simp only [decide_eq_true_eq, ← hSays]
    split
    · rfl
    · rfl

theorem sameTag_iff {s t : Tag} {xs ys : List Node} :
    sameTag { s with text := textOf (!xs.isEmpty) s.text }
        { t with text := textOf (!ys.isEmpty) t.text } = true ↔ SaysSame s xs t ys := by
  unfold sameTag SaysSame
  rw [Bool.and_eq_true, Bool.and_eq_true, decide_eq_true_eq, decide_eq_true_eq, and_assoc,
    Attributes.same_iff, textOf_eq_spokenText, textOf_eq_spokenText]

mutual

/-- Two trees of elements have the same content exactly if they say the same. -/
theorem same_iff_related {a b : Node} {x y : Content} (hPure : a.Every fun _ _ => True)
    (hPure' : b.Every fun _ _ => True) (ha : ofNode a = .ok x) (hb : ofNode b = .ok y) :
    x.same y = true ↔ a.Related SaysSame b := by
  cases a with
  | foreign value => exact hPure.elim
  | element s xs =>
    cases b with
    | foreign value => exact hPure'.elim
    | element t ys =>
      obtain ⟨contents, hContents, rfl⟩ := ofNode_element_eq_ok ha
      obtain ⟨others, hOthers, rfl⟩ := ofNode_element_eq_ok hb
      rw [ofParts, ofParts, same, Bool.and_eq_true, isEmpty_of_ofNodes hContents,
        isEmpty_of_ofNodes hOthers, sameTag_iff,
        sameAll_iff_relatedAll hPure.2 hPure'.2 hContents hOthers, Node.Related]

theorem sameAll_iff_relatedAll {nodes others : List Node} {xs ys : List Content}
    (hPure : Node.EveryAll (fun _ _ => True) nodes)
    (hPure' : Node.EveryAll (fun _ _ => True) others) (ha : ofNodes nodes = .ok xs)
    (hb : ofNodes others = .ok ys) :
    sameAll xs ys = true ↔ Node.RelatedAll SaysSame nodes others := by
  cases nodes with
  | nil =>
    cases ha
    cases others with
    | nil =>
      cases hb
      rw [sameAll, Node.RelatedAll]
      exact iff_of_true rfl trivial
    | cons b others =>
      obtain ⟨y, ys, -, -, rfl⟩ := ofNodes_cons_eq_ok hb
      rw [sameAll, Node.RelatedAll]
      · exact iff_of_false Bool.false_ne_true id
      all_goals simp
  | cons a nodes =>
    obtain ⟨x, xs, hx, hxs, rfl⟩ := ofNodes_cons_eq_ok ha
    cases others with
    | nil =>
      cases hb
      rw [sameAll, Node.RelatedAll]
      · exact iff_of_false Bool.false_ne_true id
      all_goals simp
    | cons b others =>
      obtain ⟨y, ys, hy, hys, rfl⟩ := ofNodes_cons_eq_ok hb
      rw [sameAll, Node.RelatedAll, Bool.and_eq_true, same_iff_related hPure.1 hPure'.1 hx hy,
        sameAll_iff_relatedAll hPure.2 hPure'.2 hxs hys]

end

mutual

/-- A tree of elements has a content. -/
theorem exists_ofNode {node : Node} (h : node.Every fun _ _ => True) :
    ∃ content, ofNode node = .ok content := by
  cases node with
  | foreign value => exact h.elim
  | element tag children =>
    rw [Node.Every] at h
    obtain ⟨contents, hContents⟩ := exists_ofNodes h.2
    refine ⟨ofParts tag contents, ?_⟩
    rw [ofNode, hContents]
    rfl

theorem exists_ofNodes {nodes : List Node} (h : Node.EveryAll (fun _ _ => True) nodes) :
    ∃ contents, ofNodes nodes = .ok contents := by
  cases nodes with
  | nil => exact ⟨[], rfl⟩
  | cons node rest =>
    rw [Node.EveryAll] at h
    obtain ⟨content, hContent⟩ := exists_ofNode h.1
    obtain ⟨contents, hContents⟩ := exists_ofNodes h.2
    refine ⟨content :: contents, ?_⟩
    rw [ofNodes, hContent, hContents]
    rfl

end

end Content

/-! ## Comparing with a text that was written -/

/-- An element with a legal name that declares no namespace. -/
def HasPlainNames (tag : Tag) (_ : List Node) : Prop :=
  isLegalName tag.name = true ∧ "xmlns" ∉ tag.attributes.keys

instance (tag : Tag) (children : List Node) : Decidable (HasPlainNames tag children) :=
  inferInstanceAs (Decidable (_ ∧ _))

theorem readable_of_writable {tag : Tag} {children : List Node} (h : Writable tag children)
    (hNames : HasPlainNames tag children) : Readable tag children := by
  obtain ⟨hText, hKeys⟩ := writable_iff.mp h
  exact ⟨⟨hNames.1, hKeys⟩, hNames.2, hText⟩

/-- A tree of elements does not differ from the text that was written for another tree exactly if
the two correspond, whatever the step was, if the other tree has plain names and is made of characters
of XML, with no carriage return in its texts. -/
theorem differs_encodeToText {a b : Node} {step : Int} {text : String}
    (ha : a.Every fun _ _ => True) (hText : encodeToText b step = .ok text)
    (hNames : b.Every HasPlainNames) (hXml : b.Every HoldsXml) (hReturn : b.Every HoldsNoReturn) :
    ∃ differ, differs a text = .ok differ ∧ (differ = false ↔ Corresponds a b) := by
  obtain ⟨hWritable, rfl⟩ := eq_render_of_encodeToText hText
  have hReadable : b.Every Readable := by
    refine (hWritable.and hNames).mono ?_
    intro tag children hBoth
    exact readable_of_writable hBoth.1 hBoth.2
  have hRead : read (render step 0 b) = .ok (readBack step 0 b) :=
    (read_render_eq_ok_iff hReadable _).mpr ⟨hXml, rfl⟩
  obtain ⟨x, hx⟩ := Content.exists_ofNode ha
  obtain ⟨y, hy, hTree⟩ := Content.ofTree_readBack step 0 hReadable
  rw [Content.withLineFeeds_eq_self hy hReturn] at hTree
  refine ⟨!x.same y, ?_, ?_⟩
  · rw [differs, hx, hRead, ← hTree]
    rfl
  · have hPure := hReadable.mono fun _ _ _ => trivial
    rw [Bool.not_eq_false', Content.same_iff_related ha hPure hx hy, Corresponds]

/-- A notice with blanks beside its child, which cannot be written. -/
def blankNotice : Node :=
  .element ⟨"notice", ⟨[("day", "1\t"), ("to", "\"you\"")], by decide⟩, some "\u2003\n"⟩
    [.element ⟨"line", .empty, some "<&>"⟩ [], .element ⟨"end", .empty, some ""⟩ []]

/-- The same notice without the blanks, its attributes the other way round. -/
def plainNotice : Node :=
  .element ⟨"notice", ⟨[("to", "\"you\""), ("day", "1\t")], by decide⟩, none⟩
    [.element ⟨"line", .empty, some "<&>"⟩ [], .element ⟨"end", .empty, none⟩ []]

theorem corresponds_notices : Corresponds blankNotice plainNotice := by
  refine ⟨⟨rfl, Attributes.same_iff.mp (by decide), by decide⟩, ?_, ?_, trivial⟩
  · exact ⟨⟨rfl, fun _ => rfl, rfl⟩, trivial⟩
  · exact ⟨⟨rfl, fun _ => rfl, by decide⟩, trivial⟩

theorem differs_encodeToText_notices :
    ∃ text, encodeToText plainNotice 2 = .ok text ∧ differs blankNotice text = .ok false := by
  have hText : encodeToText plainNotice 2 = .ok (render 2 0 plainNotice) :=
    encodeToText_of_fits (by decide +kernel) (by decide)
  have hNames : plainNotice.Every HasPlainNames := by decide +kernel
  have hXml : plainNotice.Every HoldsXml := by decide +kernel
  have hReturn : plainNotice.Every HoldsNoReturn := by decide +kernel
  obtain ⟨differ, hDiffers, hCorresponds⟩ :=
    differs_encodeToText (a := blankNotice) (by decide) hText hNames hXml hReturn
  rw [hCorresponds.mpr corresponds_notices] at hDiffers
  exact ⟨_, hText, hDiffers⟩

end XmlLayout
