import XmlLayout.Reading.Token

/-!
# The parts of declarations

The declaration of a document's type, and the declarations in it, are made of words, quoted texts,
keywords behind a number sign, and a few symbols, with white space between them. What may follow a
part without white space depends on the part (`follows`). A declaration ends with a closing
bracket, and the part of the document's type that lies in the document begins with a square one;
`scanParts` reads up to either.
-/

namespace XmlLayout.Reading

inductive Part where
  | name (written : QualifiedName)
  /-- A name with a mark of how often it may occur. -/
  | counted (written : QualifiedName)
  /-- A word that is no name. -/
  | word
  | quoted (text : List Char)
  | keyword (text : List Char)
  /-- An opening parenthesis, a comma, a bar or a percent sign. -/
  | symbol (c : Char)
  /-- A closing parenthesis, with the mark of how often the group may occur. -/
  | closing (count : Option Char)
  deriving DecidableEq

/-- The name without a qualifier that reads like a text. -/
def plainName (text : String) : QualifiedName :=
  ⟨none, text.toList⟩

/-- What words are made of. -/
def isWordChar (src : Source) (c : Char) : Bool :=
  src.isNameChar c || c = ':'

/-- A word as a name. The base of a qualified name may begin with any name character here. -/
def qualified? (src : Source) (word : List Char) : Option QualifiedName :=
  if word.head?.any src.isNameStart then
    match word.dropWhile (· ≠ ':') with
    | [] => some ⟨none, word⟩
    | _ :: base =>
      if base = [] ∨ ':' ∈ base then none else some ⟨some (word.takeWhile (· ≠ ':')), base⟩
  else none

/-- The marks of how often something may occur. -/
def isCount (c : Char) : Bool :=
  c = '?' || c = '*' || c = '+'

/-- Whether a text goes on with white space or with one of some marks. -/
def follows (marks : String) (text : List Char) : Bool :=
  text.head?.any fun c => isSpace c || c ∈ marks.toList

def scanWord (src : Source) (text : List Char) : Option (Part × List Char) :=
  match text.takeWhile (isWordChar src), text.dropWhile (isWordChar src) with
  | [], _ => none
  | word, rest => match qualified? src word, rest with
    | _, [] => none
    | some written, c :: more =>
      if isCount c then some (.counted written, more)
      else if follows ">),|[%" rest then some (.name written, rest)
      else none
    | none, _ => if follows ">),|[%" rest then some (.word, rest) else none

/-- A keyword from behind its number sign, and the rest. -/
def scanKeyword (src : Source) (text : List Char) : Option (Part × List Char) :=
  match scanBase src text with
  | none => none
  | some (base, rest) => if follows ")>%|" rest then some (.keyword base, rest) else none

def scanQuotedPart (text : List Char) : Option (Part × List Char) :=
  match scanQuoted text with
  | none => none
  | some (raw, rest) => if follows ">%[" rest then some (.quoted raw, rest) else none

/-- The end of a group from behind its parenthesis, and the rest. -/
def scanGroupEnd : List Char → Option (Part × List Char)
  | [] => none
  | c :: rest =>
    if isCount c then some (.closing (some c), rest)
    else if follows ">,|)" (c :: rest) then some (.closing none, c :: rest)
    else none

def scanPart (src : Source) : List Char → Option (Part × List Char)
  | [] => none
  | c :: rest =>
    if c = '"' ∨ c = '\'' then scanQuotedPart (c :: rest)
    else if c = '(' ∨ c = ',' ∨ c = '|' then some (.symbol c, rest)
    else if c = ')' then scanGroupEnd rest
    else if c = '#' then scanKeyword src rest
    else if c = '%' then (if follows "%" rest then some (.symbol c, rest) else none)
    else scanWord src (c :: rest)

variable {src : Source}

theorem scanWord_length {text : List Char} {part : Part} {rest : List Char}
    (h : scanWord src text = some (part, rest)) : rest.length < text.length := by
  have hSplit := congrArg List.length
    (List.takeWhile_append_dropWhile (p := isWordChar src) (l := text))
  rw [List.length_append] at hSplit
  unfold scanWord at h
  split at h
  · simp at h
  · rename_i hWord
    have hPos := List.length_pos_iff.2 hWord
    split at h
    · simp at h
    · rename_i _ _ written c more hRest
      rw [hRest, List.length_cons] at hSplit
      split at h
      · simp only [Option.some.injEq, Prod.mk.injEq] at h
        rw [← h.2]
        omega
      · split at h
        · simp only [Option.some.injEq, Prod.mk.injEq] at h
          rw [← h.2, hRest, List.length_cons]
          omega
        · simp at h
    · split at h
      · simp only [Option.some.injEq, Prod.mk.injEq] at h
        rw [← h.2]
        omega
      · simp at h

theorem scanKeyword_length {text : List Char} {part : Part} {rest : List Char}
    (h : scanKeyword src text = some (part, rest)) : rest.length < text.length := by
  unfold scanKeyword at h
  split at h
  · simp at h
  · rename_i hBase
    split at h
    · simp only [Option.some.injEq, Prod.mk.injEq] at h
      rw [← h.2]
      exact scanBase_length hBase
    · simp at h

theorem scanQuotedPart_length {text : List Char} {part : Part} {rest : List Char}
    (h : scanQuotedPart text = some (part, rest)) : rest.length < text.length := by
  unfold scanQuotedPart at h
  split at h
  · simp at h
  · rename_i hQuoted
    split at h
    · simp only [Option.some.injEq, Prod.mk.injEq] at h
      rw [← h.2]
      exact scanQuoted_length hQuoted
    · simp at h

theorem scanGroupEnd_length {text : List Char} {part : Part} {rest : List Char}
    (h : scanGroupEnd text = some (part, rest)) : rest.length ≤ text.length := by
  cases text with
  | nil => simp [scanGroupEnd] at h
  | cons c more =>
    simp only [scanGroupEnd] at h
    split at h
    · simp only [Option.some.injEq, Prod.mk.injEq] at h
      simp only [← h.2, List.length_cons]
      omega
    · split at h
      · simp only [Option.some.injEq, Prod.mk.injEq] at h
        simp only [← h.2, List.length_cons]
        omega
      · simp at h

theorem scanPart_length {text : List Char} {part : Part} {rest : List Char}
    (h : scanPart src text = some (part, rest)) : rest.length < text.length := by
  cases text with
  | nil => simp [scanPart] at h
  | cons c more =>
    simp only [scanPart] at h
    split at h
    · exact scanQuotedPart_length h
    · split at h
      · simp only [Option.some.injEq, Prod.mk.injEq] at h
        simp only [← h.2, List.length_cons]
        omega
      · split at h
        · have := scanGroupEnd_length h
          rw [List.length_cons]
          omega
        · split at h
          · have := scanKeyword_length h
            rw [List.length_cons]
            omega
          · split at h
            · split at h
              · simp only [Option.some.injEq, Prod.mk.injEq] at h
                simp only [← h.2, List.length_cons]
                omega
              · simp at h
            · exact scanWord_length h

/-- The parts up to a closing or an opening bracket, that bracket, and the rest. -/
def scanParts (src : Source) (text : List Char) : Option (List Part × Char × List Char) :=
  match _hNext : text.dropWhile isSpace with
  | [] => none
  | c :: rest =>
    if c = '>' ∨ c = '[' then some ([], c, rest)
    else match _h : scanPart src (c :: rest) with
      | none => none
      | some (part, rest) => match scanParts src rest with
        | none => none
        | some (parts, bracket, rest) => some (part :: parts, bracket, rest)
termination_by text.length
decreasing_by
  have hFirst := scanPart_length _h
  have hSpace := length_dropWhile_le isSpace text
  rw [_hNext] at hSpace
  omega

theorem scanParts_length {text : List Char} {parts : List Part} {bracket : Char}
    {rest : List Char} (h : scanParts src text = some (parts, bracket, rest)) :
    rest.length < text.length := by
  fun_induction scanParts src text generalizing parts bracket rest with
  | case1 => simp at h
  | case2 text c more hNext _ =>
    have hSpace := length_dropWhile_le isSpace text
    rw [hNext, List.length_cons] at hSpace
    simp only [Option.some.injEq, Prod.mk.injEq] at h
    rw [← h.2.2]
    omega
  | case3 => simp at h
  | case4 => simp at h
  | case5 text c more hNext _ part middle hPart parts' bracket' last hMore ih =>
    have hFirst := scanPart_length hPart
    have hSpace := length_dropWhile_le isSpace text
    have hLast := ih hMore
    rw [hNext] at hSpace
    simp only [Option.some.injEq, Prod.mk.injEq] at h
    rw [← h.2.2]
    omega

end XmlLayout.Reading
