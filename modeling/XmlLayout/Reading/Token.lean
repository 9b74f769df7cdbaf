import XmlLayout.Reading.Reference

/-!
# Markup tokens

A document is a sequence of tags, runs of text, sections of literal text, and remarks, which are
comments and processing instructions. What a token is follows from its first characters. Each
scanner gives what it found and the rest of the document, which is never longer than what it was
given (`scanMarkup_length`). Values of attributes are left as they are written.
-/

namespace XmlLayout.Reading

/-- A name as it is written: with a qualifier in front of a colon, or without. -/
structure QualifiedName where
  qualifier : Option (List Char)
  base : List Char
  deriving DecidableEq

inductive Token where
  /-- A run of text with references in it. -/
  | text (run : List Char)
  /-- A section whose text stands for itself. -/
  | literal (run : List Char)
  /-- An opening tag with its attributes; a complete one is also the closing tag. -/
  | opening (name : QualifiedName) (attributes : List (QualifiedName × List Char))
      (complete : Bool)
  | closing (name : QualifiedName)
  /-- A comment or a processing instruction. -/
  | remark

/-! ## Names and attributes -/

/-- A name without a colon, and the rest. -/
def scanBase (src : Source) : List Char → Option (List Char × List Char)
  | [] => none
  | c :: rest =>
    if src.isNameStart c then
      some (c :: rest.takeWhile src.isNameChar, rest.dropWhile src.isNameChar)
    else none

/-- A name with or without a qualifier, and the rest. -/
def scanName (src : Source) (text : List Char) : Option (QualifiedName × List Char) :=
  match scanBase src text with
  | none => none
  | some (first, ':' :: rest) => match scanBase src rest with
    | none => none
    | some (base, rest) => some (⟨some first, base⟩, rest)
  | some (first, rest) => some (⟨none, first⟩, rest)

/-- What stands between quotes of either kind, and the rest. -/
def scanQuoted : List Char → Option (List Char × List Char)
  | [] => none
  | quote :: text =>
    if quote = '"' ∨ quote = '\'' then
      match text.dropWhile (· ≠ quote) with
      | [] => none
      | _ :: rest => some (text.takeWhile (· ≠ quote), rest)
    else none

def scanAttribute (src : Source) (text : List Char) :
    Option ((QualifiedName × List Char) × List Char) :=
  match scanName src text with
  | none => none
  | some (name, rest) => match rest.dropWhile isSpace with
    | '=' :: rest => match scanQuoted (rest.dropWhile isSpace) with
      | none => none
      | some (value, rest) => some ((name, value), rest)
    | _ => none

variable {src : Source}

theorem length_dropWhile_le (p : Char → Bool) (text : List Char) :
    (text.dropWhile p).length ≤ text.length :=
  (List.dropWhile_sublist p).length_le

theorem scanBase_length {text name rest : List Char} (h : scanBase src text = some (name, rest)) :
    rest.length < text.length := by
  cases text with
  | nil => simp [scanBase] at h
  | cons c more =>
    simp only [scanBase] at h
    split at h
    · simp only [Option.some.injEq, Prod.mk.injEq] at h
      rw [← h.2, List.length_cons]
      have := length_dropWhile_le src.isNameChar more
      omega
    · simp at h

theorem scanName_length {text : List Char} {name : QualifiedName} {rest : List Char}
    (h : scanName src text = some (name, rest)) : rest.length < text.length := by
  unfold scanName at h
  split at h
  · simp at h
  · rename_i first middle hFirst
    have hLess := scanBase_length hFirst
    split at h
    · simp at h
    · rename_i base last hBase
      have hRest := scanBase_length hBase
      simp only [Option.some.injEq, Prod.mk.injEq] at h
      rw [← h.2]
      simp only [List.length_cons] at hLess
      omega
  · rename_i first middle hFirst
    have hLess := scanBase_length hFirst
    simp only [Option.some.injEq, Prod.mk.injEq] at h
    rw [← h.2]
    exact hLess

theorem scanQuoted_length {text raw rest : List Char}
    (h : scanQuoted text = some (raw, rest)) : rest.length < text.length := by
  cases text with
  | nil => simp [scanQuoted] at h
  | cons quote text =>
    simp only [scanQuoted] at h
    split at h
    · split at h
      · simp at h
      · rename_i _ last hDrop
        have hLess := length_dropWhile_le (fun c => decide (c ≠ quote)) text
        rw [hDrop, List.length_cons] at hLess
        simp only [Option.some.injEq, Prod.mk.injEq] at h
        rw [← h.2, List.length_cons]
        omega
    · simp at h

theorem scanAttribute_length {text : List Char} {entry : QualifiedName × List Char}
    {rest : List Char} (h : scanAttribute src text = some (entry, rest)) :
    rest.length < text.length := by
  unfold scanAttribute at h
  split at h
  · simp at h
  · rename_i name afterName hName
    have hLess := scanName_length hName
    have hSpace := length_dropWhile_le isSpace afterName
    split at h
    · rename_i afterEquals hEquals
      rw [hEquals, List.length_cons] at hSpace
      have hSpace' := length_dropWhile_le isSpace afterEquals
      split at h
      · simp at h
      · rename_i value last hValue
        have hRest := scanQuoted_length hValue
        simp only [Option.some.injEq, Prod.mk.injEq] at h
        rw [← h.2]
        omega
    · simp at h

/-! ## Tags and remarks -/

/-- The attributes of an opening tag up to its closing bracket, whether the tag is complete, and
the rest. White space separates attributes. -/
def scanAttributes (src : Source) (text : List Char) :
    Option (List (QualifiedName × List Char) × Bool × List Char) :=
  match _hNext : text.dropWhile isSpace with
  | '>' :: rest => some ([], false, rest)
  | '/' :: '>' :: rest => some ([], true, rest)
  | next =>
    if text.head?.any isSpace then
      match _h : scanAttribute src next with
      | none => none
      | some (entry, rest) => match scanAttributes src rest with
        | none => none
        | some (attributes, complete, rest) => some (entry :: attributes, complete, rest)
    else none
termination_by text.length
decreasing_by
  have hFirst := scanAttribute_length _h
  have hSpace := length_dropWhile_le isSpace text
  rw [_hNext] at hSpace
  omega

/-- What follows a comment, from behind its opening mark. Two hyphens end it. -/
def afterComment : List Char → Option (List Char)
  | '-' :: '-' :: rest => match rest with
    | '>' :: rest => some rest
    | _ => none
  | _ :: rest => afterComment rest
  | [] => none

def afterInstruction : List Char → Option (List Char)
  | '?' :: '>' :: rest => some rest
  | _ :: rest => afterInstruction rest
  | [] => none

/-- A literal section up to its end mark, and the rest. The first argument is what was read of it,
backwards. -/
def scanLiteral (done : List Char) : List Char → Option (List Char × List Char)
  | ']' :: ']' :: '>' :: rest => some (done.reverse, rest)
  | c :: rest => scanLiteral (c :: done) rest
  | [] => none

/-- What follows a processing instruction, from its target on. No target is called `xml`, in
whatever case. -/
def scanInstruction (src : Source) (text : List Char) : Option (List Char) :=
  match scanBase src text with
  | none => none
  | some (target, rest) =>
    if target.map Char.toLower = ['x', 'm', 'l'] then none
    else match rest with
      | '?' :: '>' :: rest => some rest
      | c :: rest => if isSpace c then afterInstruction rest else none
      | [] => none

/-- What follows the closing bracket behind white space. -/
def afterBracket (text : List Char) : Option (List Char) :=
  match text.dropWhile isSpace with
  | '>' :: rest => some rest
  | _ => none

def scanClosing (src : Source) (text : List Char) : Option (Token × List Char) :=
  match scanName src text with
  | none => none
  | some (name, rest) => (afterBracket rest).map fun rest => (.closing name, rest)

def scanOpening (src : Source) (text : List Char) : Option (Token × List Char) :=
  match scanName src text with
  | none => none
  | some (name, rest) => match scanAttributes src rest with
    | none => none
    | some (attributes, complete, rest) => some (.opening name attributes complete, rest)

/-- A token from behind its opening bracket, and the rest. -/
def scanMarkup (src : Source) : List Char → Option (Token × List Char)
  | '/' :: rest => scanClosing src rest
  | '?' :: rest => (scanInstruction src rest).map fun rest => (.remark, rest)
  | '!' :: '-' :: '-' :: rest => (afterComment rest).map fun rest => (.remark, rest)
  | '!' :: '[' :: 'C' :: 'D' :: 'A' :: 'T' :: 'A' :: '[' :: rest =>
    (scanLiteral [] rest).map fun r => (.literal r.1, r.2)
  | text => scanOpening src text

/-! ## What a token leaves is shorter -/

theorem scanAttributes_length {text : List Char}
    {attributes : List (QualifiedName × List Char)} {complete : Bool} {rest : List Char}
    (h : scanAttributes src text = some (attributes, complete, rest)) :
    rest.length ≤ text.length := by
  fun_induction scanAttributes src text generalizing attributes complete rest with
  | case1 text last hNext =>
    have hLess := length_dropWhile_le isSpace text
    rw [hNext, List.length_cons] at hLess
    simp only [Option.some.injEq, Prod.mk.injEq] at h
    rw [← h.2.2]
    omega
  | case2 text last hNext =>
    have hLess := length_dropWhile_le isSpace text
    rw [hNext, List.length_cons, List.length_cons] at hLess
    simp only [Option.some.injEq, Prod.mk.injEq] at h
    rw [← h.2.2]
    omega
  | case3 => simp at h
  | case4 => simp at h
  | case5 text _ entry middle more complete' last hMore _ _ hEntry ih =>
    have hFirst := scanAttribute_length hEntry
    have hSpace := length_dropWhile_le isSpace text
    have hLast := ih hMore
    simp only [Option.some.injEq, Prod.mk.injEq] at h
    rw [← h.2.2]
    omega
  | case6 => simp at h

theorem afterComment_length {text rest : List Char} (h : afterComment text = some rest) :
    rest.length ≤ text.length := by
  fun_induction afterComment text with
  | case1 last =>
    simp only [Option.some.injEq] at h
    simp only [← h, List.length_cons]
    omega
  | case2 => simp at h
  | case3 c more _ ih =>
    have := ih h
    rw [List.length_cons]
    omega
  | case4 => simp at h

theorem afterInstruction_length {text rest : List Char}
    (h : afterInstruction text = some rest) : rest.length ≤ text.length := by
  fun_induction afterInstruction text with
  | case1 last =>
    simp only [Option.some.injEq] at h
    simp only [← h, List.length_cons]
    omega
  | case2 c more _ ih =>
    have := ih h
    rw [List.length_cons]
    omega
  | case3 => simp at h

theorem scanLiteral_length {done text run rest : List Char}
    (h : scanLiteral done text = some (run, rest)) : rest.length ≤ text.length := by
  fun_induction scanLiteral done text with
  | case1 done last =>
    simp only [Option.some.injEq, Prod.mk.injEq] at h
    simp only [← h.2, List.length_cons]
    omega
  | case2 done c more _ ih =>
    have := ih h
    rw [List.length_cons]
    omega
  | case3 => simp at h

theorem scanInstruction_length {text rest : List Char}
    (h : scanInstruction src text = some rest) : rest.length ≤ text.length := by
  unfold scanInstruction at h
  split at h
  · simp at h
  · rename_i target middle hTarget
    have hLess := scanBase_length hTarget
    split at h
    · simp at h
    · split at h
      · simp only [Option.some.injEq] at h
        simp only [List.length_cons] at hLess
        rw [← h]
        omega
      · split at h
        · have := afterInstruction_length h
          simp only [List.length_cons] at hLess
          omega
        · simp at h
      · simp at h

theorem afterBracket_length {text rest : List Char} (h : afterBracket text = some rest) :
    rest.length ≤ text.length := by
  have hSpace := length_dropWhile_le isSpace text
  unfold afterBracket at h
  split at h
  · rename_i last hLast
    rw [hLast, List.length_cons] at hSpace
    simp only [Option.some.injEq] at h
    rw [← h]
    omega
  · simp at h

theorem scanClosing_length {text : List Char} {token : Token} {rest : List Char}
    (h : scanClosing src text = some (token, rest)) : rest.length ≤ text.length := by
  unfold scanClosing at h
  split at h
  · simp at h
  · rename_i name middle hName
    have hLess := scanName_length hName
    simp only [Option.map_eq_some_iff, Prod.mk.injEq] at h
    obtain ⟨last, hLast, -, hRest⟩ := h
    have := afterBracket_length hLast
    rw [← hRest]
    omega

theorem scanOpening_length {text : List Char} {token : Token} {rest : List Char}
    (h : scanOpening src text = some (token, rest)) : rest.length ≤ text.length := by
  unfold scanOpening at h
  split at h
  · simp at h
  · rename_i name middle hName
    have hLess := scanName_length hName
    split at h
    · simp at h
    · rename_i attributes complete last hAttributes
      have := scanAttributes_length hAttributes
      simp only [Option.some.injEq, Prod.mk.injEq] at h
      rw [← h.2]
      omega

/-- What follows a token is not longer than what follows its opening bracket. -/
theorem scanMarkup_length {text : List Char} {token : Token} {rest : List Char}
    (h : scanMarkup src text = some (token, rest)) : rest.length ≤ text.length := by
  unfold scanMarkup at h
  split at h
  · have := scanClosing_length h
    rw [List.length_cons]
    omega
  · simp only [Option.map_eq_some_iff, Prod.mk.injEq] at h
    obtain ⟨last, hLast, -, hRest⟩ := h
    have := scanInstruction_length hLast
    rw [← hRest, List.length_cons]
    omega
  · simp only [Option.map_eq_some_iff, Prod.mk.injEq] at h
    obtain ⟨last, hLast, -, hRest⟩ := h
    have := afterComment_length hLast
    simp only [← hRest, List.length_cons]
    omega
  · simp only [Option.map_eq_some_iff, Prod.mk.injEq] at h
    obtain ⟨⟨run, last⟩, hLast, -, hRest⟩ := h
    have := scanLiteral_length hLast
    simp only [← hRest, List.length_cons]
    omega
  · exact scanOpening_length h

end XmlLayout.Reading
