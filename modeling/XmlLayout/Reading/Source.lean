import XmlLayout.Reading.Character

/-!
# Where a text comes from

What is read is a document, written in units of one byte or of two, or the text of an entity. On
this depends which characters a name may have, how many bytes a text takes, and what its line ends
are: in a document all kinds of line ends are the same, and in the text of an entity, which has been
read once before, a carriage return stands for itself (`Source.measured`).
-/

namespace XmlLayout.Reading

/-! ## Line ends -/

/-- One step of `normalizeLineEnds`, from the back: the character behind and the text so far. -/
def normalizeStep (c : Char) : Option Char × List Char → Option Char × List Char
  | (next, rest) =>
    (some c, if c ≠ '\r' then c :: rest else if next = some '\n' then rest else '\n' :: rest)

/-- A text with every line end, of whatever kind, as one line feed. -/
def normalizeLineEnds (text : List Char) : List Char :=
  (text.foldr normalizeStep (none, [])).2

theorem normalizeStep_fst (text : List Char) :
    (text.foldr normalizeStep (none, [])).1 = text.head? := by
  cases text <;> rfl

@[simp]
theorem normalizeLineEnds_nil : normalizeLineEnds [] = [] :=
  rfl

/-- A carriage return in front of a line feed vanishes, and another one becomes a line feed. -/
theorem normalizeLineEnds_cons (c : Char) (rest : List Char) :
    normalizeLineEnds (c :: rest) =
      if c ≠ '\r' then c :: normalizeLineEnds rest
      else if rest.head? = some '\n' then normalizeLineEnds rest
      else '\n' :: normalizeLineEnds rest := by
  rw [← normalizeStep_fst rest]
  rfl

theorem head?_normalizeLineEnds_of_head? {text : List Char} (h : text.head? = some '\n') :
    ∃ rest, normalizeLineEnds text = '\n' :: rest := by
  cases text with
  | nil => simp at h
  | cons c more =>
    simp only [List.head?_cons, Option.some.injEq] at h
    subst h
    exact ⟨normalizeLineEnds more, by simp [normalizeLineEnds_cons]⟩

/-! ## Sources -/

/-- Where a text comes from. -/
inductive Source where
  /-- A document in units of one byte. -/
  | narrow
  /-- A document in units of two bytes. -/
  | wide
  /-- The text of an entity. -/
  | entity
  deriving DecidableEq

/-- What else a name may begin with in units of two bytes. -/
def wideLetters : List (Nat × Nat) :=
  [(0xaa, 0xaa), (0xb5, 0xb5), (0xba, 0xba)]

namespace Source

/-- What a name begins with, a colon apart. -/
def isNameStart (src : Source) (c : Char) : Bool :=
  Reading.isNameStart c || (src = .wide && Text.inRanges wideLetters c)

/-- What may stand in a name, a colon apart. -/
def isNameChar (src : Source) (c : Char) : Bool :=
  Reading.isNameChar c || (src = .wide && Text.inRanges wideLetters c)

theorem isNameChar_of_isNameStart {src : Source} {c : Char} (h : src.isNameStart c = true) :
    src.isNameChar c = true := by
  simp only [isNameStart, isNameChar, Bool.or_eq_true] at h ⊢
  exact h.imp_left Reading.isNameChar_of_isNameStart

/-- Only in units of two bytes names are special. -/
theorem isNameStart_eq {src : Source} (h : src ≠ .wide) (c : Char) :
    src.isNameStart c = Reading.isNameStart c := by
  simp [isNameStart, h]

theorem isNameChar_eq {src : Source} (h : src ≠ .wide) (c : Char) :
    src.isNameChar c = Reading.isNameChar c := by
  simp [isNameChar, h]

/-- The number of bytes that a character takes. -/
def size (src : Source) (c : Char) : Nat :=
  if src = .wide then (if c.toNat < 0x10000 then 2 else 4) else c.utf8Size

def textSize (src : Source) (text : List Char) : Nat :=
  text.foldl (fun n c => n + src.size c) 0

/-- One step of `measured` in a document, from the back: the character behind and what comes of the
text so far. A carriage return in front of a line feed is a part of it. -/
def measureStep (src : Source) (c : Char) :
    Option Char × List (Char × Nat) → Option Char × List (Char × Nat)
  | (next, rest) =>
    (some c,
      if c ≠ '\r' then (c, src.size c) :: rest
      else if next = some '\n' then
        match rest with
        | [] => []
        | (d, n) :: more => (d, src.size c + n) :: more
      else ('\n', src.size c) :: rest)

/-- The characters that a text gives, each with the number of bytes that it takes there. -/
def measured (src : Source) (text : List Char) : List (Char × Nat) :=
  if src = .entity then text.map fun c => (c, src.size c)
  else (text.foldr src.measureStep (none, [])).2

def settled (src : Source) (text : List Char) : List Char :=
  (src.measured text).map Prod.fst

/-- The characters that the value of an attribute gives. A carriage return at its end is counted
with the tag, and not again. -/
def measuredValue (src : Source) (raw : List Char) : List (Char × Nat) :=
  if src ≠ .entity ∧ raw.getLast? = some '\r' then src.measured raw.dropLast ++ [('\n', 0)]
  else src.measured raw

/-- Where no carriage return is at the end, a value is measured like any text. -/
theorem measuredValue_eq {src : Source} {raw : List Char} (h : raw.getLast? ≠ some '\r') :
    src.measuredValue raw = src.measured raw := by
  simp [measuredValue, h]

theorem measureStep_fst (src : Source) (text : List Char) :
    (text.foldr src.measureStep (none, [])).1 = text.head? := by
  cases text <;> rfl

theorem map_fst_measureStep (src : Source) (text : List Char) :
    ((text.foldr src.measureStep (none, [])).2).map Prod.fst = normalizeLineEnds text := by
  induction text with
  | nil => rfl
  | cons c rest ih =>
    rw [normalizeLineEnds_cons, List.foldr_cons]
    simp only [measureStep, measureStep_fst]
    split
    · rw [List.map_cons, ih]
    · split
      · rename_i hNext
        obtain ⟨more, hMore⟩ := head?_normalizeLineEnds_of_head? hNext
        rw [hMore] at ih ⊢
        cases hRest : (rest.foldr src.measureStep (none, [])).2 with
        | nil => simp [hRest] at ih
        | cons d others => simpa [hRest] using ih
      · rw [List.map_cons, ih]

/-- In a document all kinds of line ends are the same. -/
theorem settled_eq_normalizeLineEnds {src : Source} (h : src ≠ .entity) (text : List Char) :
    src.settled text = normalizeLineEnds text := by
  simp only [settled, measured, h, if_false]
  exact map_fst_measureStep src text

/-- In the text of an entity every character stands for itself. -/
theorem settled_entity (text : List Char) : Source.settled .entity text = text := by
  simp [settled, measured, Function.comp_def]

/-! ## The size of markup -/

/-- The number of bytes of a text through the first `mark` in it, `n` more than that. -/
def sizeThrough (src : Source) (mark : List Char) (n : Nat) : List Char → Nat
  | [] => n
  | c :: rest =>
    if mark.isPrefixOf (c :: rest) then n + src.textSize mark
    else sizeThrough src mark (n + src.size c) rest

/-- The number of bytes of a text through the first character outside quotes that ends it, `n` more
than that. Inside quotes, `quote` is the one that ends them. -/
def sizeToEnd (src : Source) (isEnd : Char → Bool) (quote : Option Char) (n : Nat) :
    List Char → Nat
  | [] => n
  | c :: rest =>
    if quote.isSome then
      sizeToEnd src isEnd (if quote = some c then none else quote) (n + src.size c) rest
    else if isEnd c then n + src.size c
    else sizeToEnd src isEnd (if c = '"' ∨ c = '\'' then some c else none) (n + src.size c) rest

def literalStart : List Char := "<![CDATA[".toList

def literalEnd : List Char := "]]>".toList

/-- The number of bytes of markup, from its opening bracket on; of a section of literal text only
those of its start. -/
def markupSize (src : Source) (text : List Char) : Nat :=
  match text with
  | '<' :: '?' :: _ => src.sizeThrough "?>".toList 0 text
  | '<' :: '!' :: '-' :: '-' :: rest =>
    src.sizeThrough "-->".toList (src.textSize "<!--".toList) rest
  | '<' :: '!' :: '[' :: _ => src.textSize literalStart
  | '%' :: _ => src.sizeThrough ";".toList 0 text
  | _ => src.sizeToEnd (· = '>') none 0 text

end Source

end XmlLayout.Reading
