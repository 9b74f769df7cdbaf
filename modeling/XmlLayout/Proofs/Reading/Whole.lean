import XmlLayout.Proofs.Reading.Rendered

/-!
# Reading a whole document that was rendered

A rendered tree begins with a tag, so nothing stands in front of the root and the document is meant
as it stands. It is read if all its characters may be there, which are those of the values of
attributes and of the texts: everything else in it is made of characters that may. And the default
namespaces that it declares have to be such that may be declared.

* `isChar_iff`: the characters that may be in a document, as the standard lists them.
* `readText_render`: what the tree of a rendered document is.
* `all_isChar_render`: which rendered documents hold only characters that may be there.
* `read_render`: which are read, and as what.
* `read_render_eq_ok_iff`: the same, where no namespace is declared.
-/

namespace XmlLayout.Reading

open Document (Tag Node isFirst isFollow isLegalName)
open Writing

/-! ## Characters -/

/-- The characters of XML 1.0. -/
def IsXmlChar (c : Char) : Prop :=
  c.toNat = 0x9 ∨ c.toNat = 0xa ∨ c.toNat = 0xd ∨ (0x20 ≤ c.toNat ∧ c.toNat ≤ 0xd7ff) ∨
    (0xe000 ≤ c.toNat ∧ c.toNat ≤ 0xfffd) ∨ (0x10000 ≤ c.toNat ∧ c.toNat ≤ 0x10ffff)

theorem eq_iff_toNat (c d : Char) : c = d ↔ c.toNat = d.toNat := by
  constructor
  · rintro rfl
    rfl
  · intro h
    exact Char.toNat_inj.mp h

theorem isChar_iff (c : Char) : isChar c = true ↔ IsXmlChar c := by
  have hValid : c.toNat < 0xd800 ∨ 0xdfff < c.toNat ∧ c.toNat < 0x110000 := c.valid
  have hTab : '\t'.toNat = 9 := rfl
  have hFeed : '\n'.toNat = 10 := rfl
  have hReturn : '\r'.toNat = 13 := rfl
  simp only [isChar, IsXmlChar, Bool.or_eq_true, Bool.and_eq_true, decide_eq_true_eq, eq_iff_toNat,
    hTab, hFeed, hReturn]
  omega

theorem isChar_of_isFollow {c : Char} (h : isFollow c = true) : isChar c = true := by
  obtain ⟨hLow, hHigh⟩ := Document.range_of_isFollow h
  rw [isChar_iff, IsXmlChar]
  omega

theorem all_isChar_name {name : String} (h : isLegalName name = true) :
    name.toList.all isChar = true := by
  rw [List.all_eq_true]
  intro c hc
  have hAll := Document.all_isFollow_of_isLegalChars h
  exact isChar_of_isFollow (List.all_eq_true.mp hAll c hc)

theorem IsLayout.all_isChar {text : List Char} (h : IsLayout text) : text.all isChar = true := by
  rw [List.all_eq_true]
  intro c hc
  rcases h c hc with rfl | rfl <;> decide

theorem all_isChar_escapeChar (c : Char) : (escapeChar c).all isChar = isChar c := by
  unfold escapeChar
  split
  · rename_i hc
    subst hc
    decide
  · split
    · rename_i hc
      subst hc
      decide
    · split
      · rename_i hc
        subst hc
        decide
      · rw [List.all_cons, List.all_nil, Bool.and_true]

theorem all_isChar_escapeValueChar (c : Char) : (escapeValueChar c).all isChar = isChar c := by
  unfold escapeValueChar
  split
  · rename_i hc
    subst hc
    decide
  · split
    · rename_i hc
      subst hc
      decide
    · split
      · rename_i hc
        subst hc
        decide
      · exact all_isChar_escapeChar c

theorem all_isChar_escapeQuote (c : Char) : (escapeQuote c).all isChar = isChar c := by
  unfold escapeQuote
  split
  · rename_i hc
    subst hc
    decide
  · rw [List.all_cons, List.all_nil, Bool.and_true]

theorem all_isChar_escape (text : List Char) : (escape text).all isChar = text.all isChar := by
  simp only [escape, List.all_flatMap, all_isChar_escapeChar]

theorem all_isChar_quoteValue (value : List Char) :
    (quoteValue value).all isChar = value.all isChar := by
  have hSpelling (c : Char) : (spelling value c).all isChar = isChar c := by
    unfold spelling
    split
    · simp only [List.all_flatMap, all_isChar_escapeQuote, all_isChar_escapeValueChar]
    · exact all_isChar_escapeValueChar c
  have hQuote : isChar (quoteOf value) = true := by
    rcases quoteOf_eq value with h | h <;> rw [h] <;> decide
  simp only [quoteValue_eq, rawValue, List.all_append, List.all_cons, List.all_nil,
    List.all_flatMap, hSpelling, hQuote, Bool.true_and, Bool.and_true]

theorem all_isChar_tagChars {tag : Tag} (h : LegalTag tag) :
    (tagChars tag).all isChar = tag.attributes.toList.all fun entry => entry.2.toList.all isChar := by
  have hEntry : ∀ entry ∈ tag.attributes.toList,
      (attributeChars entry).all isChar = entry.2.toList.all isChar := by
    intro entry hEntry
    have hKey := all_isChar_name (h.2 entry.1 (List.mem_map_of_mem hEntry))
    have hSpace : isChar ' ' = true := by decide
    have hEquals : isChar '=' = true := by decide
    simp only [attributeChars, List.all_cons, List.all_append, hKey, hSpace, hEquals,
      all_isChar_quoteValue, Bool.true_and]
  rw [tagChars, List.all_append, all_isChar_name h.1, Bool.true_and, List.all_flatMap,
    Bool.eq_iff_iff, List.all_eq_true, List.all_eq_true]
  constructor
  · intro hAll entry hMem
    rw [← hEntry entry hMem]
    exact hAll entry hMem
  · intro hAll entry hMem
    rw [hEntry entry hMem]
    exact hAll entry hMem

/-- What an element holds of a document may be there: the values of its attributes, and its text if
it has no children. -/
structure HoldsXml (tag : Tag) (children : List Node) : Prop where
  values : ∀ entry ∈ tag.attributes.toList, ∀ c ∈ entry.2.toList, IsXmlChar c
  text : children = [] → ∀ c ∈ (tag.text.getD "").toList, IsXmlChar c

theorem all_isChar_iff (text : List Char) :
    text.all isChar = true ↔ ∀ c ∈ text, IsXmlChar c := by
  simp only [List.all_eq_true, isChar_iff]

theorem holdsXml_iff_all {tag : Tag} {children : List Node} :
    (tag.attributes.toList.all fun entry => entry.2.toList.all isChar) = true ∧
        (children = [] → (tag.text.getD "").toList.all isChar = true) ↔
      HoldsXml tag children := by
  rw [List.all_eq_true]
  simp only [all_isChar_iff]
  exact ⟨fun h => ⟨h.1, h.2⟩, fun h => ⟨h.values, h.text⟩⟩

instance (tag : Tag) (children : List Node) : Decidable (HoldsXml tag children) :=
  decidable_of_iff _ holdsXml_iff_all

theorem all_isChar_bodyChars (step : Int) (depth : Nat) {tag : Tag} (h : LegalTag tag)
    (children : List Node) :
    (bodyChars step depth tag children).all isChar =
      ((tagChars tag).all isChar && ((tag.text.getD "").toList.all isChar &&
        (renderAll step (depth + 1) children).toList.all isChar)) := by
  have hLess : isChar '<' = true := by decide
  have hGreater : isChar '>' = true := by decide
  have hSlash : isChar '/' = true := by decide
  have hClosing : (closingChars tag.name).all isChar = true := by
    simp only [closingChars, List.all_cons, List.all_append, List.all_nil, hLess, hSlash, hGreater,
      all_isChar_name h.1, Bool.and_self]
  have hIndent :
      (if children.isEmpty then [] else (closingIndent step depth).toList).all isChar = true := by
    split
    · rfl
    · exact (isLayout_closingIndent step depth).all_isChar
  rw [bodyChars, List.all_cons, hLess, Bool.true_and, List.all_append]
  split
  · rename_i hComplete
    rw [Bool.and_eq_true, List.isEmpty_iff, Option.isNone_iff_eq_none] at hComplete
    obtain ⟨rfl, hText⟩ := hComplete
    rw [hText, renderAll]
    rfl
  · simp only [List.all_cons, List.all_append, hGreater, all_isChar_escape, hIndent, hClosing,
      Bool.true_and, Bool.and_true]

theorem holdsXml_iff {tag : Tag} {children : List Node} (h : Legible tag children) :
    HoldsXml tag children ↔
      (tagChars tag).all isChar = true ∧ (tag.text.getD "").toList.all isChar = true := by
  rw [all_isChar_tagChars h.legal, all_isChar_iff, List.all_eq_true]
  simp only [all_isChar_iff]
  constructor
  · rintro ⟨hValues, hText⟩
    refine ⟨hValues, ?_⟩
    by_cases hChildren : children = []
    · exact hText hChildren
    · rw [h.text hChildren]
      intro c hc
      simp at hc
  · rintro ⟨hValues, hText⟩
    exact ⟨hValues, fun _ => hText⟩

mutual

/-- A rendered document holds only characters that may be there if its values and texts do. -/
theorem all_isChar_render (step : Int) (depth : Nat) {node : Node} (h : node.Every Legible) :
    (render step depth node).toList.all isChar = true ↔ node.Every HoldsXml := by
  cases node with
  | foreign value => exact h.elim
  | element tag children =>
    rw [Node.Every] at h ⊢
    obtain ⟨hTag, hChildren⟩ := h
    have hInner : (renderAll step (depth + 1) children).toList.all isChar = true ↔
        Node.EveryAll HoldsXml children := all_isChar_renderAll step (depth + 1) hChildren
    rw [toList_render, List.all_append, (isLayout_openingIndent step depth).all_isChar,
      Bool.true_and, all_isChar_bodyChars step depth hTag.legal, Bool.and_eq_true, Bool.and_eq_true,
      hInner, holdsXml_iff hTag, and_assoc]

theorem all_isChar_renderAll (step : Int) (depth : Nat) {nodes : List Node}
    (h : Node.EveryAll Legible nodes) :
    (renderAll step depth nodes).toList.all isChar = true ↔ Node.EveryAll HoldsXml nodes := by
  cases nodes with
  | nil =>
    rw [renderAll, Node.EveryAll]
    exact iff_of_true rfl trivial
  | cons node rest =>
    rw [Node.EveryAll] at h ⊢
    rw [renderAll, String.toList_append, List.all_append, Bool.and_eq_true,
      all_isChar_render step depth h.1, all_isChar_renderAll step depth h.2]

end

/-! ## Documents -/

/-- Where a document begins with a tag, nothing stands in front of its root. -/
theorem readText_of_ne {c : Char} (hQuestion : c ≠ '?') (hMark : c ≠ '!') (rest : List Char) :
    readText .narrow ('<' :: c :: rest) =
      readRoot .narrow 0 ('<' :: c :: rest) (Definitions.empty, ⟨0, 0⟩) := by
  have hBegin : withoutMark ('<' :: c :: rest) = '<' :: c :: rest := rfl
  have hDeclaration :
      afterDeclaration? .narrow ('<' :: c :: rest) = some (false, '<' :: c :: rest) := by
    simp [afterDeclaration?, hQuestion]
  have hProlog (before : Nat) :
      scanProlog .narrow before none ('<' :: c :: rest) = some (none, '<' :: c :: rest) := by
    rw [scanProlog, dropWhile_isSpace_cons (by decide)]
    split
    · rename_i hNext
      exact absurd (List.cons.inj (List.cons.inj hNext).2).1 hQuestion
    · rename_i hNext
      exact absurd (List.cons.inj (List.cons.inj hNext).2).1 hMark
    · rename_i hNext
      exact absurd (List.cons.inj (List.cons.inj hNext).2).1 hMark
    · rfl
  unfold readText
  simp only [hBegin, hDeclaration, hProlog, Nat.sub_self]
  rfl

theorem exists_cons_of_render (step : Int) {root : Node} (h : root.Every Legible) :
    ∃ c rest, (render step 0 root).toList = '<' :: c :: rest ∧ isFirst c = true := by
  cases root with
  | foreign value => exact h.elim
  | element tag children =>
    rw [Node.Every] at h
    obtain ⟨c, more, hName, hFirst⟩ := exists_cons_of_isLegalName h.1.legal.1
    have hIndent : (openingIndent step 0).toList = [] := by
      rw [openingIndent, if_pos (Or.inr rfl)]
      rfl
    rw [toList_render, hIndent, bodyChars, tagChars, hName]
    exact ⟨c, _, rfl, hFirst⟩

/-- Where nothing is in front of the root, and no entity is declared, the text is read by `feed`. -/
theorem readText_eq_feed {c : Char} (hQuestion : c ≠ '?') (hMark : c ≠ '!') (rest : List Char) :
    ∃ usage : Usage, usage.IsModest ∧
      readText .narrow ('<' :: c :: rest) =
        match (Progress.start usage).feed .empty 0 .narrow ('<' :: c :: rest) with
        | some ⟨[], root, _⟩ => root
        | _ => none := by
  have hStart : Usage.IsModest ⟨0, 0⟩ := Nat.le_refl 0
  have hWritten : Source.account .narrow ≠ .added := by decide
  refine ⟨_, hStart.note hWritten (0 - 0), ?_⟩
  rw [readText_of_ne hQuestion hMark, readRoot, hStart.charge hWritten]
  rfl

/-- The text of a rendered tree is that of the tree that is read back, unless something in it
declares a namespace that may not be declared. -/
theorem readText_render {step : Int} {root : Node} (h : root.Every Legible) :
    readText .narrow (render step 0 root).toList =
      if root.Every DeclaresWell then some (readBackIn "" step 0 root) else none := by
  obtain ⟨c, rest, hText, hFirst⟩ := exists_cons_of_render step h
  have hQuestion : c ≠ '?' := ne_of_isFirst hFirst (by decide)
  have hMark : c ≠ '!' := ne_of_isFirst hFirst (by decide)
  obtain ⟨start, hStart, hRead⟩ := readText_eq_feed hQuestion hMark rest
  have hRoom : (Progress.start start).frames = [] → 0 = 0 ∧ (Progress.start start).root = none :=
    fun _ => ⟨rfl, rfl⟩
  rw [← hText] at hRead
  rw [hRead]
  by_cases hDeclares : root.Every DeclaresWell
  · obtain ⟨usage, hFeed, -⟩ := Progress.feed_render step 0 h hDeclares hRoom hStart []
    have hAdd : ((Progress.start start).indented (openingIndent step 0).toList usage).addTree
        (readBackIn (Progress.start start).scope.space step 0 root) =
          some ⟨[], some (readBackIn "" step 0 root), usage⟩ := rfl
    have hEnd : Progress.feed .empty 0 .narrow ⟨[], some (readBackIn "" step 0 root), usage⟩ [] =
        some ⟨[], some (readBackIn "" step 0 root), usage⟩ := by
      rw [Progress.feed, Progress.feedWith]
    rw [List.append_nil, hAdd, Option.bind_some, hEnd] at hFeed
    simp only [hFeed, hDeclares, if_true]
  · have hFeed := Progress.feed_render_eq_none step 0 h hDeclares hRoom hStart []
    rw [List.append_nil] at hFeed
    simp only [hFeed, hDeclares, if_false]

/-- A rendered tree is read exactly if it holds only characters that may be there, and declares only
namespaces that may be declared. -/
theorem read_render {step : Int} {root : Node} (h : root.Every Legible) (tree : Tree) :
    read (render step 0 root) = .ok tree ↔
      root.Every HoldsXml ∧ root.Every DeclaresWell ∧ tree = readBackIn "" step 0 root := by
  obtain ⟨c, rest, hText, hFirst⟩ := exists_cons_of_render step h
  have hDecoded : decoded? (render step 0 root).toList =
      some (.narrow, (render step 0 root).toList) := by
    have hNull : c ≠ '\x00' := ne_of_isFirst hFirst (by decide)
    rw [hText]
    simp [decoded?, hNull]
  rw [← all_isChar_render step 0 h, read, readChars, hDecoded]
  by_cases hAll : (render step 0 root).toList.all isChar = true
  · by_cases hDeclares : root.Every DeclaresWell
    · simp only [hAll, if_true, readText_render h, hDeclares, Except.ok.injEq, true_and, eq_comm]
    · simp only [hAll, if_true, readText_render h, hDeclares, if_false, reduceCtorEq, false_and,
        and_false]
  · simp only [hAll, if_false, reduceCtorEq, false_and]

/-- Without declarations of namespaces only the characters matter. -/
theorem read_render_eq_ok_iff {step : Int} {root : Node} (h : root.Every Readable) (tree : Tree) :
    read (render step 0 root) = .ok tree ↔ root.Every HoldsXml ∧ tree = readBack step 0 root := by
  have hDeclares : root.Every DeclaresWell := h.mono fun _ _ hTag => hTag.declaresNone.declaresWell
  rw [read_render (h.mono fun _ _ hTag => hTag.legible), readBackIn_eq_readBack step 0 h]
  simp only [hDeclares, true_and]

end XmlLayout.Reading
