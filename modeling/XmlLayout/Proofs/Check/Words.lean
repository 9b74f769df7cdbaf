import XmlLayout.Check.Words
import XmlLayout.Proofs.Text.Integer

/-!
# The reader of the program is lawful

The words of options are read as these options, whatever their values look like: behind the word of an
option the next word is its value. So what comes of them is settled by their last values.

* `ofWords?_wordsOf`: a command line is read as its options.
* `wordReader_lawful`: the reader has all that the check relies on.
-/

namespace XmlLayout.Check

variable {requirement : OptionName → Requirement} {look : String → Except Gap Place}
  {integer? : String → Option Int} {r : Requirement} {text : String}
  {pairs : List (OptionName × String)} {name : OptionName}

/-! ## Words -/

/-- The word of an option is no other word, and has no value in it. -/
theorem OptionName.word_spec (name : OptionName) :
    name.word ≠ "--" ∧ name.word ≠ helpWord ∧ splitWord name.word = (name.word, none) ∧
      OptionName.ofWord? name.word = some name := by
  cases name with
  | profile => decide +kernel
  | loops => decide +kernel
  | deepest => decide +kernel
  | widest => decide +kernel
  | step => decide +kernel

theorem ofWords?_option (name : OptionName) (value : String) (rest : List String) :
    Request.ofWords? (name.word :: value :: rest) =
      (Request.ofWords? rest).map (·.add name value) := by
  obtain ⟨hEnd, hHelp, hSplit, hName⟩ := name.word_spec
  rw [Request.ofWords?.eq_def (name.word :: _)]
  dsimp only
  rw [if_neg hEnd, if_neg hHelp, hSplit]
  dsimp only
  rw [hName]

theorem ofWords?_wordsOf (pairs : List (OptionName × String)) :
    Request.ofWords? (wordsOf pairs) = some (.check pairs) := by
  induction pairs with
  | nil => rfl
  | cons pair rest ih =>
    have hRest : Request.ofWords? (rest.flatMap fun pair => [pair.1.word, pair.2]) =
        some (.check rest) := ih
    rw [wordsOf, List.flatMap_cons, List.cons_append, List.cons_append, List.nil_append,
      ofWords?_option, hRest]
    rfl

theorem respond_wordsOf (pairs : List (OptionName × String)) :
    wordReader.respond requirement look (wordsOf pairs) = respondTo requirement look pairs := by
  simp only [wordReader, ofWords?_wordsOf]

/-! ## Values -/

namespace Requirement

theorem accept?_of_refuses (h : r.Refuses integer? look text) :
    r.accept? integer? look text = none := by
  cases h with
  | integer hNone => exact hNone
  | @taken fileAllowed directoryAllowed text place hPlace hTaken =>
    have hPath : acceptPath? look fileAllowed directoryAllowed text = none := by
      rw [acceptPath?, hPlace]
      exact if_neg (Bool.eq_false_iff.mp hTaken)
    exact hPath

theorem meets_of_accept? {value : r.Value} (h : r.accept? integer? look text = some value) :
    r.Meets value := by
  cases r with
  | integer least => exact (Option.filter_eq_some_iff.mp h).2
  | path fileAllowed directoryAllowed => trivial

end Requirement

theorem OptionName.mem_all (name : OptionName) : name ∈ OptionName.all := by
  cases name <;> decide

theorem accepted_iff :
    (OptionName.all.all fun name => (lastOf pairs name).all fun text =>
        ((requirement name).accept? integer? look text).isSome) = true ↔
      ∀ name, ∀ text ∈ lastOf pairs name,
        ((requirement name).accept? integer? look text).isSome = true := by
  rw [List.all_eq_true]
  constructor
  · intro h name text hLast
    have hAll := h name name.mem_all
    rwa [Option.mem_def.mp hLast] at hAll
  · intro h name _
    cases hLast : lastOf pairs name with
    | none => rfl
    | some text => exact h name text hLast

theorem respondTo_of_accepted (h : ∀ name, ∀ text ∈ lastOf pairs name,
      ((requirement name).accept? Text.integer? look text).isSome = true) :
    respondTo requirement look pairs =
      .call fun name => (lastOf pairs name).bind ((requirement name).accept? Text.integer? look) :=
  if_pos (accepted_iff.mpr h)

theorem respondTo_of_refused (hLast : lastOf pairs name = some text)
    (h : (requirement name).Refuses Text.integer? look text) :
    respondTo requirement look pairs = .exit usageCode "" usage := by
  refine if_neg fun hAccepted => ?_
  have hSome := accepted_iff.mp hAccepted name text hLast
  rw [Requirement.accept?_of_refuses h] at hSome
  cases hSome

theorem meets_of_respondTo {values : ∀ name, Option (requirement name).Value}
    (h : respondTo requirement look pairs = .call values) (name : OptionName) :
    ∀ value ∈ values name, (requirement name).Meets value := by
  unfold respondTo at h
  dsimp only at h
  split at h
  · cases h
    intro value hValue
    obtain ⟨text, -, hAccept⟩ := Option.bind_eq_some_iff.mp hValue
    exact Requirement.meets_of_accept? hAccept
  · cases h

theorem wordReader_lawful : wordReader.Lawful where
  integer?_of_isDecimal := Text.integer?_of_isDecimal
  eq_of_isDecimal := Text.eq_of_isDecimal
  integer?_of_isNoInteger := Text.integer?_of_isNoInteger
  respond_of_accepted requirement look pairs hAccepted := by
    rw [respond_wordsOf]
    exact respondTo_of_accepted hAccepted
  respond_of_refused requirement look pairs name text hLast hRefuses :=
    ⟨usage, by rw [respond_wordsOf, respondTo_of_refused hLast hRefuses]⟩
  meets_of_call {requirement look words values} hCall := by
    simp only [wordReader] at hCall
    split at hCall
    · cases hCall
    · cases hCall
    · exact meets_of_respondTo hCall

end XmlLayout.Check
