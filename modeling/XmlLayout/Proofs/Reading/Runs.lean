import XmlLayout.Proofs.Reading.Spelling
import XmlLayout.Reading.Tree

/-!
# Reading runs of text

An escaped text is read back as the text with its line ends made one. What is read adds at most one
byte for each byte of the document, as each reference to one of the five entities takes more than
one, so that reading is always fair (`Usage.IsModest`).

* `addRun_escape`: a run of escaped text inside an element.
-/

namespace XmlLayout.Reading

open Writing (escape)

/-! ## Counting -/

namespace Usage

/-- Entities have not added more bytes than the document has. -/
def IsModest (u : Usage) : Prop :=
  u.added ≤ u.written

variable {u : Usage} {account : Account}

theorem IsModest.check (h : u.IsModest) : u.check = some u := by
  have hFair : u.isFair = true := by
    refine isFair_of_le ?_
    unfold IsModest at h
    omega
  rw [Usage.check, if_pos hFair]

theorem IsModest.note (h : u.IsModest) (hAccount : account ≠ .added) (n : Nat) :
    (u.note account n).IsModest := by
  unfold IsModest at h ⊢
  cases account with
  | written => exact Nat.le_trans h (Nat.le_add_right _ _)
  | added => exact absurd rfl hAccount
  | closed => exact h

theorem IsModest.charge (h : u.IsModest) (hAccount : account ≠ .added) (n : Nat) :
    u.charge account n = some (u.note account n) :=
  (h.note hAccount n).check

theorem IsModest.pass (h : u.IsModest) (hAccount : account ≠ .added) (isPart : Bool) (n : Nat) :
    u.pass account isPart n = some (u.note account n) := by
  unfold Usage.pass
  split
  · rw [h.check, Option.bind_some, h.charge hAccount n]
  · rfl

/-- A reference of a byte or more may add one. -/
theorem IsModest.note_added (h : u.IsModest) {n : Nat} (hn : 1 ≤ n) :
    ((u.note .written n).note .added 1).IsModest := by
  simp only [IsModest, Usage.note] at h ⊢
  omega

end Usage

/-! ## Runs of text -/

theorem Frame.addText_nil (f : Frame) : f.addText [] = f := by
  unfold Frame.addText
  split <;> rfl

theorem Frame.addText_addText (f : Frame) (s t : List Char) :
    (f.addText s).addText t = f.addText (s ++ t) := by
  unfold Frame.addText
  by_cases h : f.children = []
  · simp [h, List.reverseAux_eq]
  · simp [h]

theorem Definitions.meaning_of_predefined (d : Definitions) {name : List Char} {c : Char}
    (h : predefined? name = some c) : d.meaning name = .character c := by
  rw [meaning, h]

namespace Progress

variable (d : Definitions) (enter : Progress → List Char → Option Progress) {p : Progress}
  {f : Frame} {outer : List Frame} {plain : Char → Prop}

theorem addPiece_of_gives (hFrames : p.frames = f :: outer) (hUsage : p.usage.IsModest)
    {piece : Piece × Nat} {c : Char} (h : Gives plain piece c) :
    ∃ usage, p.addPiece d enter .written piece =
        some { p with frames := f.addText [c] :: outer, usage := usage } ∧ usage.IsModest := by
  obtain ⟨form, n⟩ := piece
  obtain ⟨hn, hForm⟩ := h
  simp only at hn hForm
  have hWritten : Account.written ≠ .added := by decide
  rcases hForm with ⟨rfl, -⟩ | rfl | ⟨name, rfl, hName⟩
  · refine ⟨p.usage.note .written n, ?_, hUsage.note hWritten n⟩
    simp [addPiece, pass, hUsage.pass hWritten, addText, hFrames]
  · refine ⟨p.usage.note .written n, ?_, hUsage.note hWritten n⟩
    simp [addPiece, pass, hUsage.pass hWritten, addText, hFrames]
  · refine ⟨(p.usage.note .written n).note .added 1, ?_, hUsage.note_added hn⟩
    simp [addPiece, pass, hUsage.pass hWritten, addText, hFrames, d.meaning_of_predefined hName]

theorem foldlM_addPiece {pieces : List (Piece × Nat)} {text : List Char}
    (h : List.Forall₂ (Gives plain) pieces text) (hFrames : p.frames = f :: outer)
    (hUsage : p.usage.IsModest) :
    ∃ usage, pieces.foldlM (addPiece d enter .written) p =
        some { p with frames := f.addText text :: outer, usage := usage } ∧ usage.IsModest := by
  induction h generalizing p f with
  | nil =>
    refine ⟨p.usage, ?_, hUsage⟩
    rw [Frame.addText_nil, ← hFrames]
    rfl
  | @cons piece c pieces text hPiece _ ih =>
    obtain ⟨usage, hAdd, hModest⟩ := addPiece_of_gives d enter hFrames hUsage hPiece
    obtain ⟨usage', hRest, hModest'⟩ :=
      ih (p := { p with frames := f.addText [c] :: outer, usage := usage }) rfl hModest
    refine ⟨usage', ?_, hModest'⟩
    rw [List.foldlM_cons, hAdd, Option.bind_eq_bind, Option.bind_some, hRest,
      Frame.addText_addText]
    rfl

theorem hasSectionEnd_of_not_mem {run : List Char} (h : '>' ∉ run) :
    hasSectionEnd run = false := by
  fun_induction hasSectionEnd run with
  | case1 rest => simp at h
  | case2 c rest _ ih => exact ih fun hMem => h (List.mem_cons_of_mem _ hMem)
  | case3 => rfl

/-- Escaped text inside an element gives the text, with its line ends made one. -/
theorem addRun_escape (hFrames : p.frames = f :: outer) (hUsage : p.usage.IsModest)
    (text : List Char) :
    ∃ usage, p.addRun d enter .narrow (escape text) =
        some { p with frames := f.addText (normalizeLineEnds text) :: outer, usage := usage } ∧
      usage.IsModest := by
  obtain ⟨pieces, hPieces, hGives⟩ := exists_pieces_escape text
  obtain ⟨usage, hFold, hModest⟩ := foldlM_addPiece d enter hGives hFrames hUsage
  have hNarrow : Source.account .narrow = .written := rfl
  have hWritten : Account.written ≠ .added := by decide
  have hSome : p.frames ≠ [] := by simp [hFrames]
  refine ⟨usage, ?_, hModest⟩
  unfold addRun
  rw [if_neg hSome, hasSectionEnd_of_not_mem (Writing.not_mem_escape text).2, hPieces, hNarrow]
  simp only [Bool.false_eq_true, if_false, hFold, charge,
    hModest.charge hWritten, Option.map_some]
  rfl

end Progress

end XmlLayout.Reading
