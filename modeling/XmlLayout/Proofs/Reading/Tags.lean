import XmlLayout.Proofs.Reading.Values
import XmlLayout.Writing.Encoding

/-!
# Scanning tags that were written

A legal name is read up to the character behind it, if that does not go on with the name; an
attribute is read up to its closing quote, and a tag up to its bracket. Everything behind a tag is
left as it is.

* `scanMarkup_tagChars`, `scanMarkup_closing`: the tags of an element.
-/

namespace XmlLayout.Reading

open Document (Tag isLegalChars isLegalName isFirst isFollow)
open Writing (attributeText openingText closingText quoteValue)

/-! ## Names -/

/-- A character behind a name that does not go on with it. -/
def EndsName (c : Char) : Prop :=
  Source.narrow.isNameChar c = false ∧ c ≠ ':'

theorem endsName_of_mem {c : Char} (h : c ∈ [' ', '=', '/', '>']) : EndsName c := by
  simp only [List.mem_cons, List.not_mem_nil, or_false] at h
  rcases h with rfl | rfl | rfl | rfl <;> exact ⟨by decide, by decide⟩

theorem exists_cons_of_isLegalName {name : String} (h : isLegalName name = true) :
    ∃ c rest, name.toList = c :: rest ∧ isFirst c = true := by
  unfold isLegalName at h
  cases hName : name.toList with
  | nil =>
    rw [hName] at h
    exact absurd h (by decide)
  | cons c rest =>
    rw [hName, isLegalChars, Bool.and_eq_true] at h
    exact ⟨c, rest, rfl, h.1⟩

theorem ne_of_isFirst {c d : Char} (h : isFirst c = true) (hd : isFirst d = false) : c ≠ d := by
  rintro rfl
  rw [h] at hd
  cases hd

theorem isNameStart_of_isFirst {c : Char} (h : isFirst c = true) :
    Source.narrow.isNameStart c = true := by
  simp [Source.isNameStart, isNameStart, h]

theorem isNameChar_of_isFollow {c : Char} (h : isFollow c = true) :
    Source.narrow.isNameChar c = true := by
  simp [Source.isNameChar, isNameChar, h]

theorem scanBase_append {name rest : List Char} {next : Char} (h : isLegalChars name = true)
    (hNext : EndsName next) :
    scanBase .narrow (name ++ next :: rest) = some (name, next :: rest) := by
  cases name with
  | nil => simp [isLegalChars] at h
  | cons c more =>
    rw [isLegalChars, Bool.and_eq_true, List.all_eq_true] at h
    obtain ⟨hFirst, hMore⟩ := h
    have hAll : ∀ d ∈ more, Source.narrow.isNameChar d = true := fun d hd =>
      isNameChar_of_isFollow (hMore d hd)
    rw [List.cons_append, scanBase, if_pos (isNameStart_of_isFirst hFirst),
      List.takeWhile_append_of_pos hAll, List.dropWhile_append_of_pos hAll]
    simp [hNext.1]

theorem scanName_append {name rest : List Char} {next : Char} (h : isLegalChars name = true)
    (hNext : EndsName next) :
    scanName .narrow (name ++ next :: rest) = some (⟨none, name⟩, next :: rest) := by
  unfold scanName
  rw [scanBase_append h hNext]
  split
  · rename_i hNone
    exact absurd hNone (by simp)
  · rename_i first more hSome
    simp only [Option.some.injEq, Prod.mk.injEq, List.cons.injEq] at hSome
    exact absurd hSome.2.1 hNext.2
  · rename_i hSome
    simp only [Option.some.injEq, Prod.mk.injEq] at hSome
    rw [hSome.1, hSome.2]

/-! ## Attributes -/

theorem scanQuoted_quoteValue (value rest : List Char) :
    scanQuoted (quoteValue value ++ rest) = some (rawValue value, rest) := by
  have hInside : ∀ c ∈ rawValue value, decide (c ≠ quoteOf value) = true := by
    intro c hc
    simp only [ne_eq, decide_not, Bool.not_eq_true', decide_eq_false_iff_not]
    intro hEq
    exact quoteOf_not_mem_rawValue value (hEq ▸ hc)
  rw [quoteValue_eq, List.cons_append, List.cons_append, scanQuoted, if_pos (quoteOf_eq value),
    List.append_assoc, List.takeWhile_append_of_pos hInside, List.dropWhile_append_of_pos hInside]
  simp

/-- An attribute as it is written in a tag, with a space in front. -/
def attributeChars (entry : String × String) : List Char :=
  ' ' :: (entry.1.toList ++ '=' :: quoteValue entry.2.toList)

theorem toList_attributeText (entry : String × String) :
    (attributeText entry).toList = attributeChars entry := by
  simp [attributeText, attributeChars]

theorem dropWhile_isSpace_cons {c : Char} (h : isSpace c = false) (rest : List Char) :
    (c :: rest).dropWhile isSpace = c :: rest := by
  rw [List.dropWhile_cons_of_neg (by simp [h])]

theorem isSpace_quoteOf (value : List Char) : isSpace (quoteOf value) = false := by
  rcases quoteOf_eq value with h | h <;> rw [h] <;> decide

theorem scanAttribute_append {entry : String × String} (h : isLegalName entry.1 = true)
    (rest : List Char) :
    scanAttribute .narrow (entry.1.toList ++ '=' :: quoteValue entry.2.toList ++ rest) =
      some ((⟨none, entry.1.toList⟩, rawValue entry.2.toList), rest) := by
  have hQuoted := scanQuoted_quoteValue entry.2.toList rest
  rw [quoteValue_eq, List.cons_append, List.cons_append] at hQuoted
  have hEnds : EndsName '=' := endsName_of_mem (by decide)
  have hName : scanName .narrow (entry.1.toList ++ '=' :: (quoteValue entry.2.toList ++ rest)) =
      some (⟨none, entry.1.toList⟩, '=' :: (quoteValue entry.2.toList ++ rest)) :=
    scanName_append h hEnds
  rw [List.append_assoc, List.cons_append]
  unfold scanAttribute
  rw [hName]
  simp only [dropWhile_isSpace_cons (c := '=') (by decide), quoteValue_eq, List.cons_append,
    dropWhile_isSpace_cons (isSpace_quoteOf _), hQuoted]

/-- How a tag ends: it may be complete. -/
def tagEnd (complete : Bool) : List Char :=
  if complete then ['/', '>'] else ['>']

theorem isSpace_of_isFirst {c : Char} (h : isFirst c = true) : isSpace c = false := by
  simp only [isSpace, Bool.or_eq_false_iff, decide_eq_false_iff_not]
  exact ⟨⟨⟨ne_of_isFirst h (by decide), ne_of_isFirst h (by decide)⟩,
    ne_of_isFirst h (by decide)⟩, ne_of_isFirst h (by decide)⟩

/-- Behind the white space in front of an attribute its name begins, and no bracket. -/
theorem scanAttributes_cons {entry : String × String} (h : isLegalName entry.1 = true)
    (rest : List Char) :
    scanAttributes .narrow (attributeChars entry ++ rest) =
      (scanAttributes .narrow rest).map fun r =>
        ((⟨none, entry.1.toList⟩, rawValue entry.2.toList) :: r.1, r.2) := by
  obtain ⟨c, more, hName, hFirst⟩ := exists_cons_of_isLegalName h
  have hAttribute := scanAttribute_append h rest
  have hDrop : (attributeChars entry ++ rest).dropWhile isSpace =
      c :: (more ++ '=' :: quoteValue entry.2.toList ++ rest) := by
    rw [attributeChars, hName, List.cons_append, List.dropWhile_cons_of_pos (by decide),
      List.cons_append, List.cons_append, dropWhile_isSpace_cons (isSpace_of_isFirst hFirst)]
  rw [hName, List.cons_append, List.cons_append, ← hDrop] at hAttribute
  rw [hName, scanAttributes]
  split
  · rename_i hNext
    rw [hDrop] at hNext
    exact absurd (List.cons.inj hNext).1 (ne_of_isFirst hFirst (by decide))
  · rename_i hNext
    rw [hDrop] at hNext
    exact absurd (List.cons.inj hNext).1 (ne_of_isFirst hFirst (by decide))
  · rw [if_pos (by simp [attributeChars, isSpace]), hAttribute]
    simp only
    cases scanAttributes .narrow rest with
    | none => rfl
    | some r => rfl

theorem scanAttributes_tagEnd (complete : Bool) (rest : List Char) :
    scanAttributes .narrow (tagEnd complete ++ rest) = some ([], complete, rest) := by
  unfold tagEnd
  cases complete with
  | false =>
    rw [if_neg (by decide), List.singleton_append, scanAttributes]
    rw [dropWhile_isSpace_cons (by decide)]
    rfl
  | true =>
    rw [if_pos rfl, List.cons_append, List.singleton_append, scanAttributes]
    rw [dropWhile_isSpace_cons (by decide)]
    rfl

theorem scanAttributes_flatMap {entries : List (String × String)}
    (h : ∀ entry ∈ entries, isLegalName entry.1 = true) (complete : Bool) (rest : List Char) :
    scanAttributes .narrow (entries.flatMap attributeChars ++ (tagEnd complete ++ rest)) =
      some (rawEntries entries, complete, rest) := by
  induction entries with
  | nil => exact scanAttributes_tagEnd complete rest
  | cons entry others ih =>
    have hOthers : ∀ e ∈ others, isLegalName e.1 = true := fun e he => h e (by simp [he])
    rw [List.flatMap_cons, List.append_assoc, scanAttributes_cons (h entry (by simp)), ih hOthers]
    rfl

/-! ## Tags -/

/-- An opening tag from its name up to its end. -/
def tagChars (tag : Tag) : List Char :=
  tag.name.toList ++ tag.attributes.toList.flatMap attributeChars

theorem toList_join_map (f : String × String → String) (entries : List (String × String)) :
    (String.join (entries.map f)).toList = entries.flatMap fun entry => (f entry).toList := by
  rw [String.toList_join, List.flatMap_map]

theorem toList_openingText (tag : Tag) : (openingText tag).toList = '<' :: tagChars tag := by
  have hAttributes : (fun entry => (attributeText entry).toList) = attributeChars :=
    funext toList_attributeText
  simp only [openingText, String.toList_append, toList_join_map, hAttributes, tagChars]
  rfl

theorem toList_closingText (tag : Tag) :
    (closingText tag).toList = '<' :: '/' :: (tag.name.toList ++ ['>']) := by
  simp [closingText]

/-- What a tag is made of can be read: its name and the names of its attributes are legal. -/
def LegalTag (tag : Tag) : Prop :=
  isLegalName tag.name = true ∧ ∀ key ∈ tag.attributes.keys, isLegalName key = true

/-- A tag goes on behind its name with a space or its end. -/
theorem exists_cons_of_tagChars (entries : List (String × String)) (complete : Bool)
    (rest : List Char) :
    ∃ next more, entries.flatMap attributeChars ++ (tagEnd complete ++ rest) = next :: more ∧
      EndsName next := by
  cases entries with
  | nil =>
    cases complete with
    | false => exact ⟨'>', rest, rfl, endsName_of_mem (by decide)⟩
    | true => exact ⟨'/', '>' :: rest, rfl, endsName_of_mem (by decide)⟩
  | cons entry others => exact ⟨' ', _, rfl, endsName_of_mem (by decide)⟩

theorem scanOpening_tagChars {tag : Tag} (h : LegalTag tag) (complete : Bool)
    (rest : List Char) :
    scanOpening .narrow (tagChars tag ++ (tagEnd complete ++ rest)) =
      some (.opening ⟨none, tag.name.toList⟩ (rawEntries tag.attributes.toList) complete,
        rest) := by
  obtain ⟨hName, hKeys⟩ := h
  have hEntries : ∀ entry ∈ tag.attributes.toList, isLegalName entry.1 = true := fun entry he =>
    hKeys entry.1 (List.mem_map_of_mem he)
  obtain ⟨next, more, hMore, hNext⟩ :=
    exists_cons_of_tagChars tag.attributes.toList complete rest
  have hAttributes := scanAttributes_flatMap hEntries complete rest
  rw [hMore] at hAttributes
  unfold scanOpening
  rw [tagChars, List.append_assoc, hMore, scanName_append hName hNext]
  simp only [hAttributes]

/-- What begins with a letter is an opening tag. -/
theorem scanMarkup_of_isFirst {c : Char} (h : isFirst c = true) (text : List Char) :
    scanMarkup .narrow (c :: text) = scanOpening .narrow (c :: text) := by
  have hSlash : c ≠ '/' := ne_of_isFirst h (by decide)
  have hQuestion : c ≠ '?' := ne_of_isFirst h (by decide)
  have hMark : c ≠ '!' := ne_of_isFirst h (by decide)
  simp [scanMarkup, hSlash, hQuestion, hMark]

theorem scanMarkup_tagChars {tag : Tag} (h : LegalTag tag) (complete : Bool) (rest : List Char) :
    scanMarkup .narrow (tagChars tag ++ (tagEnd complete ++ rest)) =
      some (.opening ⟨none, tag.name.toList⟩ (rawEntries tag.attributes.toList) complete,
        rest) := by
  obtain ⟨c, more, hName, hFirst⟩ := exists_cons_of_isLegalName h.1
  have hChars : tagChars tag ++ (tagEnd complete ++ rest) =
      c :: (more ++ tag.attributes.toList.flatMap attributeChars ++ (tagEnd complete ++ rest)) := by
    rw [tagChars, hName]
    rfl
  rw [← scanOpening_tagChars h complete rest, hChars]
  exact scanMarkup_of_isFirst hFirst _

theorem scanMarkup_closing {name : String} (h : isLegalName name = true) (rest : List Char) :
    scanMarkup .narrow ('/' :: (name.toList ++ '>' :: rest)) =
      some (.closing ⟨none, name.toList⟩, rest) := by
  rw [scanMarkup, scanClosing, scanName_append h (endsName_of_mem (by decide))]
  simp [afterBracket, dropWhile_isSpace_cons (c := '>') (by decide)]

end XmlLayout.Reading
