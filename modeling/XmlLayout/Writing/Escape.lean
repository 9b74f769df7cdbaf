/-!
# Escaping

Text between tags has its ampersands and angle brackets replaced by references. In the value of
an attribute the characters that a reader would turn into spaces are references too, and the
value stands between double quotes, or between single quotes when it holds a double quote but no
single one; with both, the double quotes become references.
-/

namespace XmlLayout.Writing

/-- A character of the text of an element. -/
def escapeChar (c : Char) : List Char :=
  if c = '&' then ['&', 'a', 'm', 'p', ';']
  else if c = '<' then ['&', 'l', 't', ';']
  else if c = '>' then ['&', 'g', 't', ';']
  else [c]

def escape (text : List Char) : List Char :=
  text.flatMap escapeChar

/-- A character of a value, quotes apart. -/
def escapeValueChar (c : Char) : List Char :=
  if c = '\n' then ['&', '#', '1', '0', ';']
  else if c = '\r' then ['&', '#', '1', '3', ';']
  else if c = '\t' then ['&', '#', '9', ';']
  else escapeChar c

/-- A double quote as a reference, and other characters as they are. -/
def escapeQuote (c : Char) : List Char :=
  if c = '"' then ['&', 'q', 'u', 'o', 't', ';'] else [c]

/-- The value of an attribute with its quotes. -/
def quoteValue (value : List Char) : List Char :=
  let escaped := value.flatMap escapeValueChar
  if '"' ∈ value then
    if '\'' ∈ value then '"' :: escaped.flatMap escapeQuote ++ ['"']
    else '\'' :: escaped ++ ['\'']
  else '"' :: escaped ++ ['"']

theorem escape_append (s t : List Char) : escape (s ++ t) = escape s ++ escape t := by
  simp [escape]

/-- Escaped text holds no angle bracket. -/
theorem not_mem_escape (text : List Char) : '<' ∉ escape text ∧ '>' ∉ escape text := by
  have hChar (c : Char) : '<' ∉ escapeChar c ∧ '>' ∉ escapeChar c := by
    unfold escapeChar
    split
    · decide
    · split
      · decide
      · split
        · decide
        · rename_i _ hLess hGreater
          exact ⟨by simpa using Ne.symm hLess, by simpa using Ne.symm hGreater⟩
  constructor
  · intro h
    obtain ⟨c, -, hc⟩ := List.mem_flatMap.1 h
    exact (hChar c).1 hc
  · intro h
    obtain ⟨c, -, hc⟩ := List.mem_flatMap.1 h
    exact (hChar c).2 hc

end XmlLayout.Writing
