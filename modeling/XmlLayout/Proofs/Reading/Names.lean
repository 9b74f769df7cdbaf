import XmlLayout.Proofs.Reading.Steps
import XmlLayout.Proofs.Reading.Whole

/-!
# The names of the elements that are read

Wherever a tag stands in a document, its name was scanned up to a character that does not go on
with a name. So the elements of a tree have no other names than scanned ones, be it with a
namespace in front. A text that is put between `<` and `/>` may hold whatever goes on with a
document, also further markup; but what is read has the text for its name only if all of the text
is one name.

* `named_of_read`: the names in a tree that was read.
* `read_complete`: a legal name is read.
* `isLegalName_iff_read`: no other text of ASCII is read as a name.
-/

namespace XmlLayout.Reading

open Document (Node isFirst isFollow isLegalChars isLegalName)
open Writing (openingIndent render)

/-! ## Names that are scanned -/

/-- A name without a colon. -/
def isBase (src : Source) : List Char → Bool
  | [] => false
  | c :: rest => src.isNameStart c && rest.all src.isNameChar

section Scanned

variable {src : Source} {text rest : List Char}

theorem isBase_of_scanBase {base : List Char} (h : scanBase src text = some (base, rest)) :
    isBase src base = true := by
  cases text with
  | nil => cases h
  | cons c more =>
    rw [scanBase] at h
    split at h
    · rename_i hStart
      cases h
      rw [isBase, hStart, Bool.true_and]
      exact List.all_takeWhile
    · cases h

theorem isBase_of_scanName {name : QualifiedName} (h : scanName src text = some (name, rest)) :
    isBase src name.base = true := by
  unfold scanName at h
  split at h
  · cases h
  · split at h
    · cases h
    · rename_i hBase
      cases h
      exact isBase_of_scanBase hBase
  · rename_i hFirst
    cases h
    exact isBase_of_scanBase hFirst

/-- Only one kind of markup begins an element. -/
theorem isBase_of_scanMarkup {name : QualifiedName} {written : List (QualifiedName × List Char)}
    {complete : Bool} (h : scanMarkup src text = some (.opening name written complete, rest)) :
    isBase src name.base = true := by
  unfold scanMarkup at h
  split at h
  · unfold scanClosing at h
    split at h
    · cases h
    · simp at h
  · simp at h
  · simp at h
  · simp at h
  · unfold scanOpening at h
    split at h
    · cases h
    · rename_i hName
      split at h
      · cases h
      · cases h
        exact isBase_of_scanName hName

end Scanned

/-! ## Names of ASCII -/

/-- The classes of characters past ASCII hold none of ASCII. -/
theorem not_inRanges_of_ascii {table : List (Nat × Nat)}
    (hTable : (table.all fun range => 0x80 ≤ range.1) = true) {c : Char} (hAscii : c.toNat < 0x80) :
    Text.inRanges table c = false := by
  apply Text.not_inRanges_of_lt
  intro range hRange
  have hPast := List.all_eq_true.mp hTable range hRange
  rw [decide_eq_true_eq] at hPast
  omega

theorem isNameStart_eq_isFirst (src : Source) {c : Char} (hAscii : c.toNat < 0x80) :
    src.isNameStart c = isFirst c := by
  have hLetters : Text.inRanges letters c = false :=
    not_inRanges_of_ascii (by decide +kernel) hAscii
  have hWide : Text.inRanges wideLetters c = false := not_inRanges_of_ascii (by decide) hAscii
  rw [Source.isNameStart, isNameStart, hLetters, hWide, Bool.or_false, Bool.and_false, Bool.or_false]

theorem isNameChar_eq_isFollow (src : Source) {c : Char} (hAscii : c.toNat < 0x80) :
    src.isNameChar c = isFollow c := by
  have hLetters : Text.inRanges letters c = false :=
    not_inRanges_of_ascii (by decide +kernel) hAscii
  have hMarks : Text.inRanges nameMarks c = false :=
    not_inRanges_of_ascii (by decide +kernel) hAscii
  have hWide : Text.inRanges wideLetters c = false := not_inRanges_of_ascii (by decide) hAscii
  rw [Source.isNameChar, isNameChar, hLetters, hMarks, hWide, Bool.or_false, Bool.or_false,
    Bool.and_false, Bool.or_false]

/-- In ASCII the scanned names are the legal ones, whatever the source. -/
theorem isBase_eq_isLegalChars (src : Source) {name : List Char}
    (hAscii : ∀ c ∈ name, c.toNat < 0x80) : isBase src name = isLegalChars name := by
  cases name with
  | nil => rfl
  | cons c rest =>
    rw [List.forall_mem_cons] at hAscii
    have hRest : rest.all src.isNameChar = rest.all isFollow := by
      rw [Bool.eq_iff_iff, List.all_eq_true, List.all_eq_true]
      refine forall₂_congr fun d hd => ?_
      rw [isNameChar_eq_isFollow src (hAscii.2 d hd)]
    rw [isBase, isLegalChars, isNameStart_eq_isFirst src hAscii.1, hRest]

/-! ## Names in a tree -/

/-- A name that an element can have: one that is scanned, without a namespace or with one. -/
def IsElementName (name : String) : Prop :=
  ∃ src base, isBase src base = true ∧
    (name.toList = base ∨ ∃ space, name.toList = expanded space base)

/-- All elements of a tree have names that an element can have. -/
inductive Tree.Named : Tree → Prop where
  | element {tag : Document.Tag} {children : List Tree} (name : IsElementName tag.name)
    (inner : ∀ child ∈ children, child.Named) : Named (.element tag children)

/-- An open element can have the name that it has, and so can all in it that is closed. -/
structure Frame.Named (f : Frame) : Prop where
  name : IsElementName f.name
  inner : ∀ child ∈ f.children, child.Named

/-- All elements that have been opened have names that an element can have. -/
structure Progress.Named (p : Progress) : Prop where
  frames : ∀ f ∈ p.frames, f.Named
  root : ∀ tree, p.root = some tree → tree.Named

theorem exists_of_elementName? {scope : Scope} {name : QualifiedName} {full : List Char}
    (h : scope.elementName? name = some full) :
    full = name.base ∨ ∃ space, full = expanded space name.base := by
  unfold Scope.elementName? at h
  split at h
  · cases h
    exact .inl rfl
  · rename_i space _ _
    cases h
    split
    · exact .inl rfl
    · exact .inr ⟨space, rfl⟩
  · cases h
  · rename_i space _ _
    cases h
    exact .inr ⟨space, rfl⟩

namespace Frame

theorem named_of_open? {src : Source} {scope : Scope} {name : QualifiedName}
    {attributes : List (QualifiedName × List Char)} {f : Frame} (hBase : isBase src name.base = true)
    (h : Frame.open? scope name attributes = some f) : f.Named := by
  unfold Frame.open? at h
  split at h
  · cases h
  · rename_i inner _
    split at h
    · rename_i full entries hFull _
      cases h
      refine ⟨⟨src, name.base, hBase, ?_⟩, fun _ hChild => absurd hChild List.not_mem_nil⟩
      simp only [String.toList_ofList]
      exact exists_of_elementName? hFull
    · cases h

theorem Named.close {f : Frame} (h : f.Named) : f.close.Named := by
  refine .element h.name fun child hChild => ?_
  rw [List.mem_reverse] at hChild
  exact h.inner child hChild

theorem Named.addText {f : Frame} (h : f.Named) (text : List Char) : (f.addText text).Named := by
  unfold Frame.addText
  split
  · exact ⟨h.name, h.inner⟩
  · exact h

end Frame

/-- Names come in only by the tags that open elements. -/
theorem invariant_named : Invariant Progress.Named where
  counted _ h := ⟨h.frames, h.root⟩
  addText {p q text} h hAdd := by
    unfold Progress.addText at hAdd
    split at hAdd
    · cases hAdd
    · rename_i f outer hFrames
      cases hAdd
      obtain ⟨hInner, hOuter⟩ := List.forall_mem_cons.mp (hFrames ▸ h.frames)
      exact ⟨List.forall_mem_cons.mpr ⟨hInner.addText text, hOuter⟩, h.root⟩
  opened h hScan hFrame :=
    ⟨List.forall_mem_cons.mpr
      ⟨Frame.named_of_open? (isBase_of_scanMarkup hScan) hFrame, h.frames⟩, h.root⟩
  closed {p q f} h hAdd := by
    obtain ⟨hClosed, hFrames⟩ := List.forall_mem_cons.mp h.frames
    unfold Progress.addTree at hAdd
    split at hAdd
    · rename_i g outer hOuter
      cases hAdd
      obtain ⟨hParent, hRest⟩ := List.forall_mem_cons.mp (hOuter ▸ hFrames)
      have hInner : ∀ child ∈ f.close :: g.children, child.Named :=
        List.forall_mem_cons.mpr ⟨hClosed.close, hParent.inner⟩
      exact ⟨List.forall_mem_cons.mpr ⟨⟨hParent.name, hInner⟩, hRest⟩, h.root⟩
    · cases hAdd
      refine ⟨hFrames, fun tree hRoot => ?_⟩
      cases hRoot
      exact hClosed.close
    · cases hAdd
  entered h hFrames := by
    obtain ⟨hInner, -⟩ := List.forall_mem_cons.mp (hFrames ▸ h.frames)
    exact ⟨List.forall_mem_singleton.mpr hInner, fun _ hRoot => nomatch hRoot⟩
  left h hFrames hRead := by
    obtain ⟨-, hOuter⟩ := List.forall_mem_cons.mp (hFrames ▸ h.frames)
    exact ⟨List.forall_mem_cons.mpr ⟨List.forall_mem_singleton.mp hRead.frames, hOuter⟩, h.root⟩

/-- All names in a tree that was read were scanned, wherever the tags stand. -/
theorem named_of_read {document : String} {tree : Tree} (h : read document = .ok tree) :
    tree.Named := by
  have hStart (usage : Usage) : (Progress.start usage).Named :=
    ⟨fun _ hFrame => absurd hFrame List.not_mem_nil, fun _ hRoot => nomatch hRoot⟩
  obtain ⟨last, hNamed⟩ := invariant_named.read hStart h
  exact hNamed.root tree rfl

/-! ## A text as a tag -/

/-- A legal name is read as an element with nothing in it. -/
theorem read_complete {name : String} (h : isLegalName name = true) :
    read ("<" ++ name ++ "/>") = .ok (.element ⟨name, .empty, none⟩ []) := by
  have hText : "<" ++ name ++ "/>" = render 0 0 (.element ⟨name, .empty, none⟩ []) := by
    apply String.toList_injective
    rw [toList_render]
    simp [tagChars, bodyChars, openingIndent, Document.Attributes.empty]
  have hReadable : (Node.element ⟨name, .empty, none⟩ []).Every Readable :=
    ⟨⟨⟨h, fun _ hKey => absurd hKey List.not_mem_nil⟩, List.not_mem_nil, fun _ => rfl⟩, trivial⟩
  have hHolds : (Node.element ⟨name, .empty, none⟩ []).Every HoldsXml :=
    ⟨⟨fun _ hEntry => absurd hEntry List.not_mem_nil, fun _ _ hChar => absurd hChar List.not_mem_nil⟩,
      trivial⟩
  rw [hText, read_render_eq_ok_iff hReadable]
  exact ⟨hHolds, rfl⟩

/-- No name is scanned where a brace stands. -/
theorem readText_brace (rest : List Char) : readText .narrow ('<' :: '{' :: rest) = none := by
  have hScan : scanMarkup .narrow ('{' :: rest) = none := by
    have hStart : Source.narrow.isNameStart '{' = false := by
      rw [isNameStart_eq_isFirst .narrow (by decide)]
      decide
    have hBase : scanBase .narrow ('{' :: rest) = none := by
      rw [scanBase, hStart]
      rfl
    have hOpening : scanOpening .narrow ('{' :: rest) = none := by
      rw [scanOpening, scanName, hBase]
    -- A brace begins no other kind of markup.
    rw [scanMarkup, hOpening]
    all_goals simp
  obtain ⟨usage, -, hRead⟩ := readText_eq_feed (c := '{') (by decide) (by decide) rest
  rw [hRead, Progress.feed, Progress.feedWith, if_pos rfl, hScan]

theorem read_brace_ne_ok (rest : String) (tree : Tree) : read ("<\x7b" ++ rest) ≠ .ok tree := by
  intro hRead
  obtain ⟨src, text, hDecoded, hText⟩ := exists_of_read hRead
  have hBegin : ("<\x7b" ++ rest).toList = '<' :: '{' :: rest.toList := String.toList_append
  rw [hBegin] at hDecoded
  cases hDecoded
  rw [readText_brace] at hText
  cases hText

/-- What is written between the brackets of a complete tag is read as the name of an element without
attributes exactly if it is a legal name. -/
theorem isLegalName_iff_read (name : String) (h : ∀ c ∈ name.toList, c.toNat < 0x80) :
    isLegalName name = true ↔
      ∃ tag children, read ("<" ++ name ++ "/>") = .ok (.element tag children) ∧
        tag.name = name ∧ tag.attributes = .empty := by
  constructor
  · intro hLegal
    exact ⟨_, _, read_complete hLegal, rfl, rfl⟩
  · rintro ⟨tag, children, hRead, rfl, -⟩
    obtain ⟨⟨src, base, hBase, hPlain | ⟨space, hExpanded⟩⟩, -⟩ := named_of_read hRead
    · rw [hPlain] at h
      rw [isLegalName, hPlain, ← isBase_eq_isLegalChars src h]
      exact hBase
    -- The name as it is read begins with a brace, and such a text is no tag.
    · have hText : "<" ++ tag.name ++ "/>" =
          "<\x7b" ++ (String.ofList (space ++ '}' :: base) ++ "/>") := by
        apply String.toList_injective
        simp [hExpanded, expanded]
      rw [hText] at hRead
      exact absurd hRead (read_brace_ne_ok _ _)

/-- A name of all kinds of characters that may follow. -/
theorem isLegalName_iff_read_marks :
    (∀ c ∈ "_.-9".toList, c.toNat < 0x80) ∧
      (isLegalName "_.-9" = true ↔
        ∃ tag children, read ("<" ++ "_.-9" ++ "/>") = .ok (.element tag children) ∧
          tag.name = "_.-9" ∧ tag.attributes = .empty) :=
  ⟨by simp, isLegalName_iff_read "_.-9" (by simp)⟩

end XmlLayout.Reading
