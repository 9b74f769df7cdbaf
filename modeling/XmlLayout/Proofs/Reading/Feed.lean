import XmlLayout.Proofs.Reading.Spaces
import XmlLayout.Proofs.Reading.Tags

/-!
# Reading on

What a document without a declared type goes on with is read token by token, as long as no more
bytes are added than were written. Each theorem here reads one thing that was written, and leaves
the rest of the document.

* `feed_escape`: text inside an element.
* `feed_opening`, `feed_complete`, `feed_closing`: tags.
* `feed_tagChars_eq_none`: a tag that declares what it may not.
-/

namespace XmlLayout.Reading

open Document (Tag Attributes Node isLegalName)
open Writing (escape)

/-! ## Tokens -/

namespace Progress

variable {p : Progress} {f : Frame} {outer : List Frame} {tag : Tag} {text rest : List Char}

theorem feed_markup {token : Token} (h : scanMarkup .narrow text = some (token, rest))
    (hUsage : p.usage.IsModest) :
    ∃ usage, p.feed .empty 0 .narrow ('<' :: text) =
        (step .empty 0 (fun _ _ => none) .narrow { p with usage := usage } token).bind
          (·.feed .empty 0 .narrow rest) ∧
      usage.IsModest := by
  have hWritten : Source.account .narrow ≠ .added := by decide
  refine ⟨p.usage.note (Source.account .narrow) (Source.narrow.markupSize ('<' :: text)), ?_,
    hUsage.note hWritten _⟩
  rw [feed, feedWith, if_pos rfl, h]
  simp only [charge, hUsage.charge hWritten, Option.map_some, Option.bind_some]
  cases step .empty 0 (fun _ _ => none) .narrow _ token with
  | none => rfl
  | some q => rfl

theorem feed_run (hText : '<' ∉ text) (hNe : text ≠ []) (hRest : rest.head? = some '<') :
    p.feed .empty 0 .narrow (text ++ rest) =
      (p.addRun .empty (fun _ _ => none) .narrow text).bind (·.feed .empty 0 .narrow rest) := by
  cases text with
  | nil => exact absurd rfl hNe
  | cons c more =>
    rw [List.mem_cons, not_or] at hText
    have hMore : ∀ d ∈ more, decide (d ≠ '<') = true := by
      intro d hd
      simp only [ne_eq, decide_not, Bool.not_eq_true', decide_eq_false_iff_not]
      rintro rfl
      exact hText.2 hd
    obtain ⟨last, rfl⟩ : ∃ last, rest = '<' :: last := by
      cases rest with
      | nil => simp at hRest
      | cons d last => exact ⟨last, by simpa using hRest⟩
    rw [feed, List.cons_append, feedWith, if_neg (Ne.symm hText.1),
      List.takeWhile_append_of_pos hMore, List.dropWhile_append_of_pos hMore]
    have hTake : ('<' :: last).takeWhile (fun d => decide (d ≠ '<')) = [] := rfl
    have hDrop : ('<' :: last).dropWhile (fun d => decide (d ≠ '<')) = '<' :: last := rfl
    rw [hTake, hDrop, List.append_nil, step]
    cases addRun .empty (fun _ _ => none) .narrow p (c :: more) with
    | none => rfl
    | some q => rfl

/-- Escaped text in front of a tag gives the text, with its line ends made one. -/
theorem feed_escape (hFrames : p.frames = f :: outer) (hUsage : p.usage.IsModest)
    (text : List Char) (hRest : rest.head? = some '<') :
    ∃ usage, p.feed .empty 0 .narrow (escape text ++ rest) =
        feed .empty 0 .narrow
          { p with frames := f.addText (normalizeLineEnds text) :: outer, usage := usage } rest ∧
      usage.IsModest := by
  by_cases hNil : escape text = []
  · have hText : text = [] := by
      cases text with
      | nil => rfl
      | cons c more =>
        rw [escape, List.flatMap_cons, List.append_eq_nil_iff] at hNil
        have hSome : Writing.escapeChar c ≠ [] := by
          unfold Writing.escapeChar
          repeat' split
          all_goals simp
        exact absurd hNil.1 hSome
    subst hText
    refine ⟨p.usage, ?_, hUsage⟩
    rw [normalizeLineEnds_nil, Frame.addText_nil, ← hFrames]
    rfl
  · obtain ⟨usage, hRun, hModest⟩ := addRun_escape .empty (fun _ _ => none) hFrames
      hUsage text
    refine ⟨usage, ?_, hModest⟩
    rw [feed_run (Writing.not_mem_escape text).1 hNil hRest, hRun, Option.bind_some]

section Opening

variable {children : List Node} (hTag : LegalTag tag) (hUsage : p.usage.IsModest)
include hTag hUsage

/-- What the tag begins is not known yet. -/
theorem feed_tagChars_open? (hRoom : p.frames = [] → p.root = none) (complete : Bool)
    (rest : List Char) :
    ∃ usage, p.feed .empty 0 .narrow ('<' :: (tagChars tag ++ (tagEnd complete ++ rest))) =
        ((Frame.open? p.scope ⟨none, tag.name.toList⟩ (plainEntries tag.attributes.toList)).bind
          fun f => if complete then { p with usage := usage }.addTree f.close
            else some { p with frames := f :: p.frames, usage := usage }).bind
          (·.feed .empty 0 .narrow rest) ∧
      usage.IsModest := by
  obtain ⟨usage₁, hFeed, hFirst⟩ :=
    feed_markup (p := p) (scanMarkup_tagChars hTag complete rest) hUsage
  obtain ⟨usage₂, hAttributes, hModest⟩ :=
    attributes?_rawEntries hFirst ⟨none, tag.name.toList⟩ tag.attributes.toList
  refine ⟨usage₂, ?_, hModest⟩
  have hOpen : ¬(p.frames = [] ∧ p.root.isSome = true) := by
    rintro ⟨hNil, hSome⟩
    rw [hRoom hNil] at hSome
    exact absurd hSome (by decide)
  have hScope : Progress.scope { p with usage := usage₁ } = p.scope := rfl
  rw [hFeed, step, openInner, if_neg hOpen]
  simp only [hAttributes, hScope]
  cases Frame.open? p.scope ⟨none, tag.name.toList⟩ (plainEntries tag.attributes.toList) with
  | none => rfl
  | some f => rfl

/-- A tag that declares a namespace that may not be declared ends the reading. -/
theorem feed_tagChars_eq_none (h : ¬DeclaresWell tag children)
    (hRoom : p.frames = [] → p.root = none) (complete : Bool) (rest : List Char) :
    p.feed .empty 0 .narrow ('<' :: (tagChars tag ++ (tagEnd complete ++ rest))) = none := by
  obtain ⟨usage, hFeed, -⟩ := feed_tagChars_open? hTag hUsage hRoom complete rest
  rw [hFeed, open?_plainEntries_eq_none p.scope h]
  rfl

variable (hDeclares : DeclaresWell tag children) (hRoom : p.frames = [] → p.root = none)
include hDeclares hRoom

theorem feed_opening (rest : List Char) :
    ∃ usage, p.feed .empty 0 .narrow ('<' :: (tagChars tag ++ '>' :: rest)) =
        feed .empty 0 .narrow { p with frames := openFrame p.scope tag :: p.frames, usage := usage }
          rest ∧
      usage.IsModest := by
  have hFeed := feed_tagChars_open? hTag hUsage hRoom false rest
  rw [open?_plainEntries p.scope hDeclares] at hFeed
  exact hFeed

theorem feed_complete (rest : List Char) :
    ∃ usage, p.feed .empty 0 .narrow ('<' :: (tagChars tag ++ '/' :: '>' :: rest)) =
        ({ p with usage := usage }.addTree (openFrame p.scope tag).close).bind
          (·.feed .empty 0 .narrow rest) ∧
      usage.IsModest := by
  have hFeed := feed_tagChars_open? hTag hUsage hRoom true rest
  rw [open?_plainEntries p.scope hDeclares] at hFeed
  exact hFeed

end Opening

theorem feed_closing {name : String} (hName : isLegalName name = true)
    (hFrames : p.frames = f :: outer) (hWritten : f.written = ⟨none, name.toList⟩)
    (hUsage : p.usage.IsModest) (rest : List Char) :
    ∃ usage, p.feed .empty 0 .narrow ('<' :: '/' :: (name.toList ++ '>' :: rest)) =
        ({ p with frames := outer, usage := usage }.addTree f.close).bind
          (·.feed .empty 0 .narrow rest) ∧
      usage.IsModest := by
  obtain ⟨usage, hFeed, hModest⟩ := feed_markup (p := p) (scanMarkup_closing hName rest) hUsage
  refine ⟨usage, ?_, hModest⟩
  rw [hFeed, step, closeInner]
  simp only [hFrames, if_pos hWritten]

end Progress

end XmlLayout.Reading
