import XmlLayout.Reading.Grammar

/-!
# What stands in front of the root

In front of the root of a document there may be comments and processing instructions, and once the
type of the document may be declared: by a name, by the place of its definition, and by
declarations in the document itself. `scanProlog` gives the type and the rest of the document, from
its root on. The type tells how many bytes its declarations take, and what is in front of them.
-/

namespace XmlLayout.Reading

structure Doctype where
  /-- Whether its definition lies, at least in part, somewhere else. -/
  isPlaced : Bool
  /-- The number of bytes of the document in front of the declarations. -/
  start : Nat
  /-- The declarations, each with the number of its bytes. -/
  declarations : List (Declaration × Nat)

/-! ## Declarations in a document -/

def scanDeclaration (src : Source) (text : List Char) : Option (Declaration × List Char) :=
  if (text.dropWhile Char.isAlpha).head?.any isSpace then
    match scanParts src (text.dropWhile Char.isAlpha) with
    | some (parts, '>', rest) =>
      (Declaration.ofParts? (text.takeWhile Char.isAlpha) parts).map fun d => (d, rest)
    | _ => none
  else none

/-- A reference to more declarations from behind its percent sign, and the rest. -/
def scanReference (src : Source) (text : List Char) : Option (Declaration × List Char) :=
  match scanBase src text with
  | some (_, ';' :: rest) => some (.reference, rest)
  | _ => none

/-- What stands between two declarations or is one, and the rest. -/
def scanEntry (src : Source) : List Char → Option (Declaration × List Char)
  | '%' :: rest => scanReference src rest
  | '<' :: '?' :: rest => (scanInstruction src rest).map fun rest => (.remark, rest)
  | '<' :: '!' :: '-' :: '-' :: rest => (afterComment rest).map fun rest => (.remark, rest)
  | '<' :: '!' :: rest => scanDeclaration src rest
  | _ => none

variable {src : Source}

theorem scanDeclaration_length {text : List Char} {d : Declaration} {rest : List Char}
    (h : scanDeclaration src text = some (d, rest)) : rest.length < text.length := by
  have hWord := length_dropWhile_le Char.isAlpha text
  unfold scanDeclaration at h
  split at h
  · split at h
    · rename_i hParts
      have hLess := scanParts_length hParts
      simp only [Option.map_eq_some_iff, Prod.mk.injEq] at h
      obtain ⟨_, _, _, hRest⟩ := h
      rw [← hRest]
      omega
    · simp at h
  · simp at h

theorem scanReference_length {text : List Char} {d : Declaration} {rest : List Char}
    (h : scanReference src text = some (d, rest)) : rest.length < text.length := by
  unfold scanReference at h
  split at h
  · rename_i hBase
    have hLess := scanBase_length hBase
    simp only [Option.some.injEq, Prod.mk.injEq] at h
    rw [List.length_cons] at hLess
    rw [← h.2]
    omega
  · simp at h

theorem scanEntry_length {text : List Char} {d : Declaration} {rest : List Char}
    (h : scanEntry src text = some (d, rest)) : rest.length < text.length := by
  unfold scanEntry at h
  split at h
  · have := scanReference_length h
    rw [List.length_cons]
    omega
  · simp only [Option.map_eq_some_iff, Prod.mk.injEq] at h
    obtain ⟨_, hLast, _, hRest⟩ := h
    have := scanInstruction_length hLast
    simp only [← hRest, List.length_cons]
    omega
  · simp only [Option.map_eq_some_iff, Prod.mk.injEq] at h
    obtain ⟨_, hLast, _, hRest⟩ := h
    have := afterComment_length hLast
    simp only [← hRest, List.length_cons]
    omega
  · have := scanDeclaration_length h
    simp only [List.length_cons]
    omega
  · simp at h

/-- The declarations up to a closing square bracket, each with the number of its bytes, and the
rest. -/
def scanDeclarations (src : Source) (text : List Char) :
    Option (List (Declaration × Nat) × List Char) :=
  match _hNext : text.dropWhile isSpace with
  | ']' :: rest => some ([], rest)
  | next => match _h : scanEntry src next with
    | none => none
    | some (d, rest) => match scanDeclarations src rest with
      | none => none
      | some (declarations, rest) =>
        some ((d, src.textSize (text.takeWhile isSpace) + src.markupSize next) :: declarations,
          rest)
termination_by text.length
decreasing_by
  have hFirst := scanEntry_length _h
  have hSpace := length_dropWhile_le isSpace text
  rw [_hNext] at hSpace
  omega

theorem scanDeclarations_length {text : List Char} {declarations : List (Declaration × Nat)}
    {rest : List Char} (h : scanDeclarations src text = some (declarations, rest)) :
    rest.length < text.length := by
  fun_induction scanDeclarations src text generalizing declarations rest with
  | case1 text last hNext =>
    have hSpace := length_dropWhile_le isSpace text
    rw [hNext, List.length_cons] at hSpace
    simp only [Option.some.injEq, Prod.mk.injEq] at h
    rw [← h.2]
    omega
  | case2 => simp at h
  | case3 => simp at h
  | case4 text d middle more last hMore _ hEntry ih =>
    have hFirst := scanEntry_length hEntry
    have hSpace := length_dropWhile_le isSpace text
    have hLast := ih hMore
    simp only [Option.some.injEq, Prod.mk.injEq] at h
    rw [← h.2]
    omega

/-! ## The type -/

/-- Whether the parts in front of a type's own declarations say that it has a place. -/
def placed? : List Part → Option Bool
  | [.name _] => some false
  | .name _ :: place => match afterPlace place with
    | some [] => some true
    | _ => none
  | _ => none

/-- The type of a document from behind its keyword on, and the rest; `before` is the number of bytes
in front. -/
def scanDoctype (src : Source) (before : Nat) (text : List Char) :
    Option (Doctype × List Char) :=
  if text.head?.any isSpace then
    match scanParts src text with
    | none => none
    | some (parts, bracket, rest) => match placed? parts with
      | none => none
      | some isPlaced =>
        let start := src.sizeToEnd (fun c => c = '>' || c = '[') none before text
        if bracket = '>' then some (⟨isPlaced, start, []⟩, rest)
        else match scanDeclarations src rest with
          | none => none
          | some (declarations, rest) =>
            (afterBracket rest).map fun rest => (⟨isPlaced, start, declarations⟩, rest)
  else none

theorem scanDoctype_length {before : Nat} {text : List Char} {doctype : Doctype}
    {rest : List Char} (h : scanDoctype src before text = some (doctype, rest)) :
    rest.length < text.length := by
  unfold scanDoctype at h
  split at h
  · split at h
    · simp at h
    · rename_i hParts
      have hLess := scanParts_length hParts
      split at h
      · simp at h
      · split at h
        · simp only [Option.some.injEq, Prod.mk.injEq] at h
          rw [← h.2]
          exact hLess
        · split at h
          · simp at h
          · rename_i hDeclarations
            have hMore := scanDeclarations_length hDeclarations
            simp only [Option.map_eq_some_iff, Prod.mk.injEq] at h
            obtain ⟨_, hLast, _, hRest⟩ := h
            have := afterBracket_length hLast
            rw [← hRest]
            omega
  · simp at h

/-! ## The prolog -/

/-- The type of a document, which is declared once at most, and the rest from the root on; `before`
is the number of bytes in front, and `doctype` the type that was declared so far. -/
def scanProlog (src : Source) (before : Nat) (doctype : Option Doctype) (text : List Char) :
    Option (Option Doctype × List Char) :=
  let space := src.textSize (text.takeWhile isSpace)
  match _hNext : text.dropWhile isSpace with
  | '<' :: '?' :: rest => match _h : scanInstruction src rest with
    | none => none
    | some behind =>
      scanProlog src (before + space + src.markupSize ('<' :: '?' :: rest)) doctype behind
  | '<' :: '!' :: '-' :: '-' :: rest => match _h : afterComment rest with
    | none => none
    | some behind =>
      scanProlog src (before + space + src.markupSize ('<' :: '!' :: '-' :: '-' :: rest)) doctype
        behind
  | '<' :: '!' :: 'D' :: 'O' :: 'C' :: 'T' :: 'Y' :: 'P' :: 'E' :: rest =>
    if doctype.isSome then none
    else
      match _h : scanDoctype src (before + space + src.textSize "<!DOCTYPE".toList) rest with
      | none => none
      | some (declared, behind) => scanProlog src 0 (some declared) behind
  | rest => some (doctype, rest)
termination_by text.length
decreasing_by
  all_goals
    have hSpace := length_dropWhile_le isSpace text
    rw [_hNext] at hSpace
    simp only [List.length_cons] at hSpace
  · have := scanInstruction_length _h
    omega
  · have := afterComment_length _h
    omega
  · have := scanDoctype_length _h
    omega

end XmlLayout.Reading
