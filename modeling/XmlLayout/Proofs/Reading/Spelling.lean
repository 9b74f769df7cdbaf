import Mathlib.Data.List.Forall2
import XmlLayout.Reading.Reference
import XmlLayout.Writing.Escape

/-!
# Escaped text and its pieces

What escaping makes of a character spells that character again: the character by itself, or a
reference that gives it. So the pieces of an escaped text give the characters of the text, one
piece for each. Line ends are made one before a text is taken apart; escaping and that do not
interfere.

* `exists_pieces_of_spells`: the pieces of characters that spell a text.
* `spells_escapeChar`, `spells_escapeValueChar`, `spells_escapeQuote`: the three ways of escaping.
* `normalizeLineEnds_escape`: line ends inside escaped text.
-/

namespace XmlLayout.Reading

open Writing (escape escapeChar escapeValueChar escapeQuote)

/-- A piece that gives a character, which stands for itself only if `plain` says so. -/
def Gives (plain : Char → Prop) (piece : Piece × Nat) (c : Char) : Prop :=
  1 ≤ piece.2 ∧ ((piece.1 = .plain c ∧ plain c) ∨ piece.1 = .numbered c ∨
    ∃ name, piece.1 = .entity name ∧ predefined? name = some c)

/-- Characters that spell a character: itself, or a reference. -/
inductive Spells (src : Source) (plain : Char → Prop) : List Char → Char → Prop
  | itself {c : Char} : c ≠ '&' → plain c → Spells src plain [c] c
  | reference {c : Char} {body : List Char} {piece : Piece} :
      ';' ∉ body → Piece.ofReference? src body = some piece →
      (piece = .numbered c ∨ ∃ name, piece = .entity name ∧ predefined? name = some c) →
      Spells src plain ('&' :: body ++ [';']) c

variable {src : Source} {plain : Char → Prop}

/-! ## Taking a text apart -/

/-- Up to its semicolon a reference is kept, and the number of its bytes does not become less. -/
theorem foldlM_step_body (src : Source) {body : List (Char × Nat)} (h : ∀ c ∈ body, c.1 ≠ ';')
    (done : List (Piece × Nat)) (read : List Char) (size : Nat) :
    ∃ more, body.foldlM (Apart.step src) ⟨done, some (read, size)⟩ =
      some ⟨done, some ((body.map Prod.fst).reverse ++ read, size + more)⟩ := by
  induction body generalizing read size with
  | nil => exact ⟨0, rfl⟩
  | cons c rest ih =>
    have hc := h c (by simp)
    have hRest : ∀ d ∈ rest, d.1 ≠ ';' := fun d hd => h d (by simp [hd])
    obtain ⟨more, hMore⟩ := ih hRest (c.1 :: read) (size + c.2)
    refine ⟨c.2 + more, ?_⟩
    rw [List.foldlM_cons, Apart.step]
    simp [hc, hMore, Nat.add_assoc]

/-- What spells a character is one piece, which gives the character. -/
theorem Spells.exists_piece {spelling : List Char} {c : Char} (h : Spells src plain spelling c)
    {chars : List (Char × Nat)} (hChars : chars.map Prod.fst = spelling)
    (hSize : ∀ d ∈ chars, 1 ≤ d.2) (done : List (Piece × Nat)) :
    ∃ piece, chars.foldlM (Apart.step src) ⟨done, none⟩ = some ⟨piece :: done, none⟩ ∧
      Gives plain piece c := by
  cases h with
  | itself hAmp hPlain =>
    obtain ⟨⟨d, n⟩, rfl, hd⟩ := List.map_eq_singleton_iff.mp hChars
    have hFirst := hSize (d, n) (by simp)
    simp only at hd
    rw [← hd] at hAmp hPlain ⊢
    refine ⟨(.plain d, n), ?_, hFirst, Or.inl ⟨rfl, hPlain⟩⟩
    simp [Apart.step, hAmp]
  | @reference _ body piece hBody hPiece hGives =>
    obtain ⟨⟨d, n⟩, rest, rfl, hd, hRest⟩ := List.map_eq_cons_iff.mp hChars
    obtain ⟨middle, last, rfl, hMiddle, hLast⟩ := List.map_eq_append_iff.mp hRest
    obtain ⟨⟨e, m⟩, rfl, he⟩ := List.map_eq_singleton_iff.mp hLast
    simp only at hd he
    subst hd he
    have hNo : ∀ d ∈ middle, d.1 ≠ ';' := by
      intro d hd hEq
      refine hBody ?_
      rw [← hMiddle, ← hEq]
      exact List.mem_map_of_mem hd
    obtain ⟨more, hMore⟩ := foldlM_step_body src hNo done [] n
    refine ⟨(piece, n + more + m), ?_, ?_, Or.inr hGives⟩
    · rw [List.foldlM_cons]
      simp only [Apart.step, if_true, Option.bind_eq_bind, Option.bind_some]
      rw [List.foldlM_append, hMore]
      simp [Apart.step, hMiddle, hPiece]
    · have hFirst := hSize ('&', n) (by simp)
      simp only at hFirst ⊢
      omega

/-- Characters that spell a text come apart into pieces that give the text. -/
theorem exists_pieces_of_spells {spelling : Char → List Char} {text : List Char}
    (h : ∀ c ∈ text, Spells src plain (spelling c) c) {chars : List (Char × Nat)}
    (hChars : chars.map Prod.fst = text.flatMap spelling) (hSize : ∀ d ∈ chars, 1 ≤ d.2) :
    ∃ pieces, piecesOf? src chars = some pieces ∧ List.Forall₂ (Gives plain) pieces text := by
  have hRun (done : List (Piece × Nat)) : ∃ pieces,
      chars.foldlM (Apart.step src) ⟨done, none⟩ = some ⟨pieces.reverse ++ done, none⟩ ∧
        List.Forall₂ (Gives plain) pieces text := by
    induction text generalizing chars done with
    | nil =>
      have hNil : chars = [] := List.map_eq_nil_iff.mp hChars
      subst hNil
      exact ⟨[], rfl, .nil⟩
    | cons c rest ih =>
      rw [List.flatMap_cons] at hChars
      obtain ⟨first, others, rfl, hFirst, hOthers⟩ := List.map_eq_append_iff.mp hChars
      obtain ⟨piece, hPiece, hGives⟩ := (h c (by simp)).exists_piece hFirst
        (fun d hd => hSize d (by simp [hd])) done
      obtain ⟨pieces, hPieces, hAll⟩ := ih (fun d hd => h d (by simp [hd])) hOthers
        (fun d hd => hSize d (by simp [hd])) (piece :: done)
      refine ⟨piece :: pieces, ?_, .cons hGives hAll⟩
      rw [List.foldlM_append, hPiece, Option.bind_eq_bind, Option.bind_some, hPieces]
      simp
  obtain ⟨pieces, hPieces, hAll⟩ := hRun []
  refine ⟨pieces, ?_, hAll⟩
  rw [piecesOf?, hPieces]
  simp

/-! ## Escaped characters -/

theorem spells_entity (name : List Char) {c : Char} (hName : ';' ∉ name)
    (hPiece : Piece.ofReference? .narrow name = some (.entity name))
    (hMeaning : predefined? name = some c) :
    Spells .narrow plain ('&' :: name ++ [';']) c :=
  .reference hName hPiece (Or.inr ⟨name, rfl, hMeaning⟩)

theorem spells_numbered (body : List Char) {c : Char} (hBody : ';' ∉ body)
    (hPiece : Piece.ofReference? .narrow body = some (.numbered c)) :
    Spells .narrow plain ('&' :: body ++ [';']) c :=
  .reference hBody hPiece (Or.inl rfl)

/-- A character of a text is spelt by what it is escaped to. -/
theorem spells_escapeChar {c : Char} (h : plain c) : Spells .narrow plain (escapeChar c) c := by
  unfold escapeChar
  split
  · rename_i hc
    subst hc
    exact spells_entity ['a', 'm', 'p'] (by decide) (by decide) rfl
  · split
    · rename_i hc
      subst hc
      exact spells_entity ['l', 't'] (by decide) (by decide) rfl
    · split
      · rename_i hc
        subst hc
        exact spells_entity ['g', 't'] (by decide) (by decide) rfl
      · exact .itself (by assumption) h

theorem spells_escapeValueChar {c : Char}
    (h : c ≠ '\n' → c ≠ '\r' → c ≠ '\t' → plain c) :
    Spells .narrow plain (escapeValueChar c) c := by
  unfold escapeValueChar
  split
  · rename_i hc
    subst hc
    exact spells_numbered ['#', '1', '0'] (by decide) (by decide)
  · split
    · rename_i hc
      subst hc
      exact spells_numbered ['#', '1', '3'] (by decide) (by decide)
    · split
      · rename_i hc
        subst hc
        exact spells_numbered ['#', '9'] (by decide) (by decide)
      · exact spells_escapeChar (h (by assumption) (by assumption) (by assumption))

/-- A character that is no double quote has none in what it is escaped to. -/
theorem not_mem_escapeValueChar {c d : Char} (hc : d ≠ c)
    (hd : d ∉ ['&', '#', ';', '0', '1', '3', '9', 'a', 'm', 'p', 'l', 't', 'g']) :
    d ∉ escapeValueChar c := by
  simp only [List.mem_cons, List.not_mem_nil, or_false, not_or] at hd
  unfold escapeValueChar escapeChar
  repeat' split
  all_goals simp [hd, hc]

theorem flatMap_escapeQuote_of_not_mem {text : List Char} (h : '"' ∉ text) :
    text.flatMap escapeQuote = text := by
  induction text with
  | nil => rfl
  | cons c rest ih =>
    rw [List.mem_cons, not_or] at h
    rw [List.flatMap_cons, ih h.2, escapeQuote, if_neg (Ne.symm h.1)]
    rfl

/-- Double quotes may be escaped behind the others. -/
theorem spells_escapeQuote {c : Char} (h : c ≠ '\n' → c ≠ '\r' → c ≠ '\t' → plain c) :
    Spells .narrow plain ((escapeValueChar c).flatMap escapeQuote) c := by
  by_cases hc : c = '"'
  · subst hc
    exact spells_entity ['q', 'u', 'o', 't'] (by decide) (by decide) rfl
  · rw [flatMap_escapeQuote_of_not_mem (not_mem_escapeValueChar (Ne.symm hc) (by decide))]
    exact spells_escapeValueChar h

/-! ## Line ends -/

theorem normalizeLineEnds_append {text : List Char} (h : '\r' ∉ text) (rest : List Char) :
    normalizeLineEnds (text ++ rest) = text ++ normalizeLineEnds rest := by
  induction text with
  | nil => rfl
  | cons c more ih =>
    rw [List.mem_cons, not_or] at h
    rw [List.cons_append, normalizeLineEnds_cons, if_pos (Ne.symm h.1), ih h.2, List.cons_append]

theorem normalizeLineEnds_of_not_mem {text : List Char} (h : '\r' ∉ text) :
    normalizeLineEnds text = text := by
  simpa using normalizeLineEnds_append h []

theorem not_mem_escapeChar {c d : Char} (hc : d ≠ c)
    (hd : d ∉ ['&', ';', 'a', 'm', 'p', 'l', 't', 'g']) : d ∉ escapeChar c := by
  simp only [List.mem_cons, List.not_mem_nil, or_false, not_or] at hd
  unfold escapeChar
  repeat' split
  all_goals simp [hd, hc]

/-- Escaping does not make a line feed out of another character. -/
theorem head?_escape (text : List Char) :
    (escape text).head? = some '\n' ↔ text.head? = some '\n' := by
  cases text with
  | nil => simp [escape]
  | cons c rest =>
    simp only [escape, List.flatMap_cons, escapeChar]
    repeat' split
    all_goals simp_all

/-- Line ends are the same before escaping and behind it. -/
theorem normalizeLineEnds_escape (text : List Char) :
    normalizeLineEnds (escape text) = escape (normalizeLineEnds text) := by
  induction text with
  | nil => rfl
  | cons c rest ih =>
    have hCons (d : Char) (more : List Char) : escape (d :: more) = escapeChar d ++ escape more :=
      List.flatMap_cons
    rw [hCons, normalizeLineEnds_cons c rest]
    by_cases hc : c = '\r'
    · subst hc
      have hSelf : escapeChar '\r' = ['\r'] := rfl
      rw [hSelf, List.singleton_append, normalizeLineEnds_cons]
      simp only [ne_eq, not_true_eq_false, if_false, head?_escape]
      split
      · exact ih
      · rw [hCons, ih]
        rfl
    · rw [if_pos hc, hCons, normalizeLineEnds_append (not_mem_escapeChar (Ne.symm hc) (by decide)),
        ih]

theorem map_fst_measured (text : List Char) :
    (Source.narrow.measured text).map Prod.fst = normalizeLineEnds text := by
  have hSource : Source.narrow ≠ .entity := by decide
  exact Source.settled_eq_normalizeLineEnds hSource text

/-- Each character that a text gives takes a byte at least. -/
theorem one_le_of_mem_measured (src : Source) (text : List Char) :
    ∀ c ∈ src.measured text, 1 ≤ c.2 := by
  have hSize (c : Char) : 1 ≤ src.size c := by
    unfold Source.size
    split
    · split <;> decide
    · exact Char.utf8Size_pos c
  unfold Source.measured
  split
  · intro c hc
    obtain ⟨d, -, rfl⟩ := List.mem_map.mp hc
    exact hSize d
  · induction text with
    | nil => simp
    | cons c rest ih =>
      have hc := hSize c
      rw [List.foldr_cons]
      simp only [Source.measureStep, Source.measureStep_fst]
      split
      · rintro d hd
        rcases List.mem_cons.mp hd with rfl | hd
        · exact hc
        · exact ih d hd
      · split
        · split
          · simp
          · rename_i d n more hMore
            rw [hMore] at ih
            intro e he
            rcases List.mem_cons.mp he with rfl | he
            · simp only
              omega
            · exact ih e (List.mem_cons_of_mem _ he)
        · rintro d hd
          rcases List.mem_cons.mp hd with rfl | hd
          · exact hc
          · exact ih d hd

/-- The pieces of an escaped text in a document are those of the text with its line ends made
one. -/
theorem exists_pieces_escape (text : List Char) :
    ∃ pieces, pieces? .narrow (escape text) = some pieces ∧
      List.Forall₂ (Gives fun _ => True) pieces (normalizeLineEnds text) := by
  have hChars : (Source.narrow.measured (escape text)).map Prod.fst =
      (normalizeLineEnds text).flatMap escapeChar := by
    rw [map_fst_measured, normalizeLineEnds_escape]
    rfl
  exact exists_pieces_of_spells (fun c _ => spells_escapeChar trivial) hChars
    (one_le_of_mem_measured .narrow (escape text))

end XmlLayout.Reading
