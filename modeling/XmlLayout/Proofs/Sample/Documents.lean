import XmlLayout.Proofs.Document.Shape
import XmlLayout.Proofs.Sample.Choices
import XmlLayout.Sample.Documents

/-!
# Which documents are made

Sample documents are exactly the trees within the bounds whose names, attributes and texts are of the
form that is chosen from: every sequence of numbers gives one of them, and each of them is given by
some numbers. The choices are followed one after the other, each with what it makes exactly.

* `makes_name`, `makes_text`, `makes_attributes`: what an element has of its own.
* `makes_element`: the elements that are made at a depth, also one above the root.
* `makesOnly_element`: the same where the bounds may be below zero.
* `document_sound_complete`: the documents.
-/

namespace XmlLayout.Sample

open Document

/-! ## Characters -/

theorem mem_map_ofNat {c : Char} (h : c.toNat < 128) : c ∈ (List.range 128).map Char.ofNat :=
  List.mem_map.mpr ⟨c.toNat, List.mem_range.mpr h, Char.ofNat_toNat c⟩

theorem mem_nameStarts {c : Char} :
    c ∈ nameStarts ↔ isFirst c = true ∧ c ≠ 'x' ∧ c ≠ 'X' := by
  have hAll : isFirst c = true → c ∈ (List.range 128).map Char.ofNat := fun hFirst =>
    mem_map_ofNat (range_of_isFollow (isFollow_of_isFirst hFirst)).2
  simp only [nameStarts, List.mem_filter, Bool.and_eq_true, decide_eq_true_eq, and_assoc]
  exact ⟨And.right, fun h => ⟨hAll h.1, h⟩⟩

theorem mem_nameFollows {c : Char} : c ∈ nameFollows ↔ isFollow c = true := by
  rw [nameFollows, List.mem_filter]
  exact ⟨And.right, fun h => ⟨mem_map_ofNat (range_of_isFollow h).2, h⟩⟩

theorem mem_textChars {c : Char} : c ∈ textChars ↔ 0x20 ≤ c.toNat ∧ c.toNat ≤ 0x7e := by
  have hCodes : ∀ i < 95, (Char.ofNat (32 + i)).toNat = 32 + i := by decide
  rw [textChars, List.mem_map]
  constructor
  · rintro ⟨i, hi, rfl⟩
    rw [List.mem_range] at hi
    rw [hCodes i hi]
    omega
  · rintro ⟨hLow, hHigh⟩
    refine ⟨c.toNat - 32, List.mem_range.mpr (by omega), ?_⟩
    rw [Nat.add_sub_cancel' hLow, Char.ofNat_toNat]

/-! ## What an element has of its own -/

/-- A name of at most twelve characters that are legal, and not one that is reserved. -/
structure IsSampleName (name : String) : Prop where
  length : 1 ≤ name.length ∧ name.length ≤ 12
  chars : ∀ c ∈ name.toList, isFollow c = true
  first : ∀ c ∈ name.toList.head?, isFirst c = true ∧ c ≠ 'x' ∧ c ≠ 'X'

/-- A text of printable characters. -/
structure IsSampleText (longest : Nat) (text : String) : Prop where
  length : text.length ≤ longest
  chars : ∀ c ∈ text.toList, 0x20 ≤ c.toNat ∧ c.toNat ≤ 0x7e

/-- A name and a value of an attribute. -/
def IsSampleEntry (entry : String × String) : Prop :=
  IsSampleName entry.1 ∧ IsSampleText 19 entry.2

/-- At most two attributes; that no two of them have the same name is part of the type. -/
structure IsSampleAttributes (attributes : Attributes) : Prop where
  length : attributes.toList.length ≤ 2
  entries : ∀ entry ∈ attributes.toList, IsSampleEntry entry

theorem makes_name : Makes name IsSampleName := by
  unfold name
  refine ((makes_choose nameStarts _).bind fun first _ => (makes_draw 12 _).bind fun count _ =>
    (makes_repeatedly (makes_choose nameFollows _) _).bind fun rest _ =>
      makes_pure _).congr fun text => ?_
  constructor
  · rintro ⟨first, hFirst, count, -, rest, ⟨hCount, hRest⟩, rfl⟩
    rw [mem_nameStarts] at hFirst
    have hLess := count.isLt
    refine ⟨?_, ?_, ?_⟩
    · rw [← String.length_toList, String.toList_ofList, List.length_cons]
      omega
    · rw [String.toList_ofList, List.forall_mem_cons]
      exact ⟨isFollow_of_isFirst hFirst.1, fun c hc => mem_nameFollows.mp (hRest c hc)⟩
    · rw [String.toList_ofList, List.head?_cons]
      rintro c ⟨⟩
      exact hFirst
  · rintro ⟨⟨hSome, hLength⟩, hChars, hHead⟩
    cases hText : text.toList with
    | nil =>
      rw [← String.length_toList, hText] at hSome
      exact absurd hSome (by decide)
    | cons first rest =>
      rw [← String.length_toList, hText, List.length_cons] at hLength
      rw [hText] at hChars hHead
      refine ⟨first, mem_nameStarts.mpr (hHead first rfl), ⟨rest.length, by omega⟩, trivial, rest,
        ⟨rfl, fun c hc => mem_nameFollows.mpr (hChars c (List.mem_cons_of_mem _ hc))⟩, ?_⟩
      rw [← hText, String.ofList_toList]

theorem makes_text (limit : Nat) (h : 0 < limit) :
    Makes (text limit h) (IsSampleText (limit - 1)) := by
  unfold text
  refine ((makes_draw limit h).bind fun count _ =>
    (makes_repeatedly (makes_choose textChars _) _).bind fun chars _ =>
      makes_pure _).congr fun text => ?_
  constructor
  · rintro ⟨count, -, chars, ⟨hCount, hChars⟩, rfl⟩
    have hLess := count.isLt
    refine ⟨?_, ?_⟩
    · rw [← String.length_toList, String.toList_ofList]
      omega
    · rw [String.toList_ofList]
      exact fun c hc => mem_textChars.mp (hChars c hc)
  · rintro ⟨hLength, hChars⟩
    rw [← String.length_toList] at hLength
    exact ⟨⟨text.toList.length, by omega⟩, trivial, text.toList,
      ⟨rfl, fun c hc => mem_textChars.mpr (hChars c hc)⟩, String.ofList_toList.symm⟩

/-! ## Attributes -/

theorem makes_addAttribute (attributes : Attributes) :
    Makes (addAttribute attributes)
      (fun more => ∃ entry, IsSampleEntry entry ∧ more = attributes.insert entry.1 entry.2) := by
  unfold addAttribute
  refine ((makes_text 20 _).bind fun value _ => makes_name.bind fun key _ =>
    makes_pure _).congr fun more => ?_
  constructor
  · rintro ⟨value, hValue, key, hKey, rfl⟩
    exact ⟨(key, value), ⟨hKey, hValue⟩, rfl⟩
  · rintro ⟨⟨key, value⟩, ⟨hKey, hValue⟩, rfl⟩
    exact ⟨value, hValue, key, hKey, rfl⟩

theorem makes_addAttributes (attributes : Attributes) (n : Nat) :
    Makes (addAttributes attributes n) (fun more => ∃ entries : List (String × String),
      entries.length = n ∧ (∀ entry ∈ entries, IsSampleEntry entry) ∧
        more = attributes.insertAll entries) := by
  induction n generalizing attributes with
  | zero =>
    refine (makes_pure attributes).congr fun more => ?_
    constructor
    · rintro rfl
      exact ⟨[], rfl, fun entry hEntry => absurd hEntry List.not_mem_nil, rfl⟩
    · rintro ⟨entries, hLength, -, rfl⟩
      rw [List.length_eq_zero_iff.mp hLength]
      rfl
  | succ n ih =>
    refine ((makes_addAttribute attributes).bind fun more _ => ih more).congr fun last => ?_
    constructor
    · rintro ⟨_, ⟨entry, hEntry, rfl⟩, entries, rfl, hEntries, rfl⟩
      exact ⟨entry :: entries, rfl, List.forall_mem_cons.mpr ⟨hEntry, hEntries⟩, rfl⟩
    · rintro ⟨entries, hLength, hEntries, rfl⟩
      cases entries with
      | nil => cases hLength
      | cons entry rest =>
        obtain ⟨hEntry, hRest⟩ := List.forall_mem_cons.mp hEntries
        exact ⟨_, ⟨entry, hEntry, rfl⟩, rest, Nat.succ.inj hLength, hRest, rfl⟩

theorem mem_insertEntry {key value : String} {entries : List (String × String)}
    {entry : String × String} (h : entry ∈ insertEntry key value entries) :
    entry = (key, value) ∨ entry ∈ entries := by
  induction entries with
  | nil => exact Or.inl (List.mem_singleton.mp h)
  | cons first rest ih =>
    rw [insertEntry] at h
    split at h
    · exact (List.mem_cons.mp h).imp_right (List.mem_cons_of_mem first)
    · rcases List.mem_cons.mp h with rfl | h
      · exact Or.inr List.mem_cons_self
      · exact (ih h).imp_right (List.mem_cons_of_mem first)

theorem length_insertEntry_le (key value : String) (entries : List (String × String)) :
    (insertEntry key value entries).length ≤ entries.length + 1 := by
  induction entries with
  | nil => exact Nat.le_refl _
  | cons first rest ih =>
    rw [insertEntry]
    split
    · exact Nat.le_succ _
    · exact Nat.succ_le_succ ih

theorem insertEntry_of_not_mem {key value : String} {entries : List (String × String)}
    (h : key ∉ entries.map Prod.fst) :
    insertEntry key value entries = entries ++ [(key, value)] := by
  induction entries with
  | nil => rfl
  | cons first rest ih =>
    rw [List.map_cons, List.mem_cons, not_or] at h
    rw [insertEntry, if_neg (Ne.symm h.1), ih h.2, List.cons_append]

theorem mem_insertAll {entries : List (String × String)} {attributes : Attributes}
    {entry : String × String} (h : entry ∈ (attributes.insertAll entries).toList) :
    entry ∈ attributes.toList ∨ entry ∈ entries := by
  induction entries generalizing attributes with
  | nil => exact Or.inl h
  | cons first rest ih =>
    rcases ih h with hFirst | hRest
    · rcases mem_insertEntry hFirst with rfl | hOld
      · exact Or.inr List.mem_cons_self
      · exact Or.inl hOld
    · exact Or.inr (List.mem_cons_of_mem first hRest)

theorem length_insertAll_le (entries : List (String × String)) (attributes : Attributes) :
    (attributes.insertAll entries).toList.length ≤ attributes.toList.length + entries.length := by
  induction entries generalizing attributes with
  | nil => exact Nat.le_refl _
  | cons first rest ih =>
    have hRest := ih (attributes.insert first.1 first.2)
    have hFirst := length_insertEntry_le first.1 first.2 attributes.toList
    rw [Attributes.toList_insert] at hRest
    rw [List.length_cons]
    exact Nat.le_trans hRest (by omega)

/-- Attributes that are new are put behind each other. -/
theorem toList_insertAll {entries : List (String × String)} {attributes : Attributes}
    (h : ((attributes.toList ++ entries).map Prod.fst).Nodup) :
    (attributes.insertAll entries).toList = attributes.toList ++ entries := by
  induction entries generalizing attributes with
  | nil => exact (List.append_nil _).symm
  | cons first rest ih =>
    have hNew : first.1 ∉ attributes.toList.map Prod.fst := by
      rw [List.map_append, List.map_cons, List.nodup_append] at h
      exact fun hMem => h.2.2 _ hMem _ List.mem_cons_self rfl
    have hInsert : (attributes.insert first.1 first.2).toList = attributes.toList ++ [first] :=
      insertEntry_of_not_mem hNew
    have hSplit : attributes.toList ++ first :: rest = attributes.toList ++ [first] ++ rest := by
      rw [List.append_assoc, List.singleton_append]
    rw [hSplit, ← hInsert]
    apply ih
    rw [hInsert, ← hSplit]
    exact h

theorem insertAll_empty (attributes : Attributes) :
    Attributes.empty.insertAll attributes.toList = attributes := by
  apply Attributes.ext
  have hAll : (Attributes.empty.insertAll attributes.toList).toList =
      Attributes.empty.toList ++ attributes.toList := toList_insertAll attributes.nodup
  exact hAll

theorem makes_attributes : Makes attributes IsSampleAttributes := by
  unfold attributes
  refine ((makes_draw 3 _).bind fun count _ => makes_addAttributes .empty _).congr fun made => ?_
  constructor
  · rintro ⟨count, -, entries, hLength, hEntries, rfl⟩
    have hMost := length_insertAll_le entries .empty
    have hLess := count.isLt
    refine ⟨Nat.le_trans hMost ?_, ?_⟩
    · simp only [Attributes.empty, List.length_nil]
      omega
    · intro entry hEntry
      rcases mem_insertAll hEntry with hNone | hEntry
      · exact absurd hNone List.not_mem_nil
      · exact hEntries entry hEntry
  · rintro ⟨hLength, hEntries⟩
    exact ⟨⟨made.toList.length, by omega⟩, trivial, made.toList, rfl, hEntries,
      (insertAll_empty made).symm⟩

/-! ## Elements -/

/-- An element as it is made, by its tag and its children. -/
structure IsSampleElement (widest : Int) (tag : Tag) (children : List Node) : Prop where
  few : children.length ≤ widest
  name : IsSampleName tag.name
  attributes : IsSampleAttributes tag.attributes
  /-- A text stands only in an element without children. -/
  alone : children ≠ [] → tag.text = none
  text : ∀ text ∈ tag.text, IsSampleText 39 text

theorem makes_elementText (hasChildren : Bool) :
    Makes (elementText hasChildren) (fun text =>
      (hasChildren = true → text = none) ∧ ∀ s ∈ text, IsSampleText 39 s) := by
  unfold elementText
  cases hasChildren with
  | true =>
    refine (makes_pure none).congr fun text => ?_
    constructor
    · rintro rfl
      exact ⟨fun _ => rfl, fun s hs => by cases hs⟩
    · rintro ⟨hNone, -⟩
      exact hNone rfl
  | false =>
    have hWanted (wanted : Fin 2) : Makes
        (if wanted = 0 then pure none else some <$> text 40 (by decide))
        (fun chosen => wanted = 0 ∧ chosen = none ∨
          ¬wanted = 0 ∧ ∃ s, IsSampleText 39 s ∧ chosen = some s) :=
      Makes.dite (fun _ => makes_pure none)
        (fun _ => (makes_text 40 _).map fun chosen => Iff.rfl)
    refine ((makes_draw 2 _).bind fun wanted _ => hWanted wanted).congr fun chosen => ?_
    constructor
    · rintro ⟨wanted, -, ⟨-, rfl⟩ | ⟨-, s, hText, rfl⟩⟩
      · exact ⟨fun _ => rfl, fun s hs => by cases hs⟩
      · refine ⟨fun hTrue => absurd hTrue Bool.false_ne_true, ?_⟩
        rintro t ⟨⟩
        exact hText
    · rintro ⟨-, hText⟩
      cases chosen with
      | none => exact ⟨0, trivial, Or.inl ⟨rfl, rfl⟩⟩
      | some s => exact ⟨1, trivial, Or.inr ⟨by decide, s, hText s rfl, rfl⟩⟩

section
variable {bounds : Bounds} (name : String) (attributes : Attributes)

/-- An element that is made with children, where its children are made by `child`. -/
theorem makes_parent {child : Sampling Node} {P : Node → Prop} (hWidest : 0 ≤ bounds.widest)
    (hChild : Makes child P) :
    Makes (do
        let count ← below (bounds.widest + 1)
        let children ← repeatedly child count.val
        let text ← elementText (!children.isEmpty)
        return Node.element ⟨name, attributes, text⟩ children)
      (fun node => ∃ (text : Option String) (children : List Node),
        children.length ≤ bounds.widest ∧ (∀ node ∈ children, P node) ∧
          (children ≠ [] → text = none) ∧ (∀ s ∈ text, IsSampleText 39 s) ∧
          node = .element ⟨name, attributes, text⟩ children) := by
  refine ((makes_below (by omega)).bind fun count _ => (makes_repeatedly hChild _).bind
    fun children _ => (makes_elementText _).bind fun text _ => makes_pure _).congr fun node => ?_
  constructor
  · rintro ⟨⟨count, hCount⟩, -, children, ⟨hLength, hAll⟩, text, ⟨hAlone, hText⟩, rfl⟩
    refine ⟨text, children, ?_, hAll, ?_, hText, rfl⟩
    · dsimp only at hLength
      omega
    · intro hSome
      exact hAlone (by simpa using hSome)
  · rintro ⟨text, children, hFew, hAll, hAlone, hText, rfl⟩
    refine ⟨⟨children.length, by omega⟩, trivial, children, ⟨rfl, hAll⟩, text, ⟨?_, hText⟩, rfl⟩
    intro hSome
    exact hAlone (by simpa using hSome)

theorem makes_leaf :
    Makes (do
        let text ← elementText false
        return Node.element ⟨name, attributes, text⟩ [])
      (fun node => ∃ text : Option String, (∀ s ∈ text, IsSampleText 39 s) ∧
        node = .element ⟨name, attributes, text⟩ []) := by
  refine ((makes_elementText false).bind fun text _ => makes_pure _).congr fun node => ?_
  constructor
  · rintro ⟨text, ⟨-, hText⟩, rfl⟩
    exact ⟨text, hText, rfl⟩
  · rintro ⟨text, hText, rfl⟩
    exact ⟨text, ⟨fun hTrue => absurd hTrue Bool.false_ne_true, hText⟩, rfl⟩

end

/-- The elements that are made at a depth. The number that lets an element have children is at most
the greatest depth, and so the height is at most what is left of it. -/
theorem makes_element {bounds : Bounds} (hDeepest : 0 ≤ bounds.deepest)
    (hWidest : 0 ≤ bounds.widest) (depth : Int) :
    Makes (element bounds depth) (fun node => node.Every (IsSampleElement bounds.widest) ∧
      node.height ≤ (bounds.deepest - depth).toNat) := by
  induction depth using element.induct bounds with
  | case1 depth ih =>
    rw [element]
    -- The choices in their order; whether there are children is settled by the third of them.
    refine (makes_name.bind fun name _ => makes_attributes.bind fun attributes _ =>
      (makes_below (by omega)).bind fun gate _ => Makes.dite
        (fun hDeeper => makes_parent name attributes hWidest (ih gate.1 gate.2 hDeeper))
        (fun _ => makes_leaf name attributes)).congr fun node => ?_
    constructor
    · rintro ⟨name, hName, attributes, hAttributes, ⟨gate, hGate⟩, -, hNode⟩
      rcases hNode with ⟨hDeeper, text, children, hFew, hAll, hAlone, hText, rfl⟩ |
        ⟨-, text, hText, rfl⟩
      · rw [Node.Every, Node.height, Node.everyAll_iff, Node.heightAll_le_iff]
        refine ⟨⟨⟨hFew, hName, hAttributes, hAlone, hText⟩, fun child hChild => (hAll child hChild).1⟩,
          fun child hChild => ?_⟩
        have hHeight := (hAll child hChild).2
        dsimp only at hDeeper
        omega
      · rw [Node.Every, Node.height, Node.EveryAll, Node.heightAll]
        exact ⟨⟨⟨hWidest, hName, hAttributes, fun hNil => absurd rfl hNil, hText⟩, trivial⟩,
          Nat.zero_le _⟩
    · -- For a tree that is given the greatest number there is is chosen, which allows children as
      -- long as the height does.
      rintro ⟨hEvery, hHeight⟩
      cases node with
      | foreign value => exact hEvery.elim
      | element tag children =>
        rw [Node.Every, Node.everyAll_iff] at hEvery
        rw [Node.height, Node.heightAll_le_iff] at hHeight
        obtain ⟨⟨hFew, hName, hAttributes, hAlone, hText⟩, hAll⟩ := hEvery
        refine ⟨tag.name, hName, tag.attributes, hAttributes, ⟨bounds.deepest.toNat, by omega⟩,
          trivial, ?_⟩
        by_cases hDeeper : depth < bounds.deepest
        · refine Or.inl ⟨by dsimp only; omega, tag.text, children, hFew, ?_, hAlone, hText, rfl⟩
          intro child hChild
          have hLess := hHeight child hChild
          exact ⟨hAll child hChild, by omega⟩
        · have hNil : children = [] := by
            cases children with
            | nil => rfl
            | cons child rest =>
              have hLess := hHeight child List.mem_cons_self
              omega
          subst hNil
          exact Or.inr ⟨by dsimp only; omega, tag.text, hText, rfl⟩

/-! ## Documents -/

/-- A document within some bounds. -/
def IsSampleDocument (bounds : Bounds) (root : Node) : Prop :=
  root.height ≤ bounds.deepest ∧ root.Every (IsSampleElement bounds.widest)

theorem makes_document {bounds : Bounds} (hDeepest : 0 ≤ bounds.deepest)
    (hWidest : 0 ≤ bounds.widest) : Makes (document bounds) (IsSampleDocument bounds) := by
  refine (makes_element hDeepest hWidest 0).congr fun root => ?_
  have hHeight : root.height ≤ (bounds.deepest - 0).toNat ↔ root.height ≤ bounds.deepest := by
    omega
  rw [hHeight, and_comm]
  rfl

/-- Where the bounds are below zero nothing may be made; but what is made has the form of all sample
elements, with no children if there is no room for any. -/
theorem makesOnly_element (bounds : Bounds) (depth : Int) :
    MakesOnly (element bounds depth) (·.Every (IsSampleElement (max bounds.widest 0))) := by
  induction depth using element.induct bounds with
  | case1 depth ih =>
    rw [element]
    refine makes_name.makesOnly.bind fun name hName =>
      makes_attributes.makesOnly.bind fun attributes hAttributes => ?_
    have hBelow (n : Int) : MakesOnly (below n) fun _ => True := fun _ _ _ _ => trivial
    refine (hBelow _).bind ?_
    rintro ⟨gate, hGate⟩ -
    dsimp only
    by_cases hDeeper : depth < gate
    · rw [dif_pos hDeeper]
      refine (hBelow _).bind ?_
      rintro ⟨count, hCount⟩ -
      refine ((ih gate hGate hDeeper).repeatedly count).bind fun children hChildren =>
        (makes_elementText _).makesOnly.bind fun text hText => makesOnly_pure ?_
      obtain ⟨hLength, hAll⟩ := hChildren
      rw [Node.Every, Node.everyAll_iff]
      refine ⟨⟨by omega, hName, hAttributes, fun hSome => ?_, hText.2⟩, hAll⟩
      exact hText.1 (by simpa using hSome)
    · rw [dif_neg hDeeper]
      refine (makes_elementText false).makesOnly.bind fun text hText => makesOnly_pure ?_
      exact ⟨⟨Int.le_max_right bounds.widest 0, hName, hAttributes, fun hNil => absurd rfl hNil,
        hText.2⟩, trivial⟩

/-- Every sequence of numbers gives a document within the bounds, and each document within the
bounds is given by the numbers of some list, all of which are taken. -/
theorem document_sound_complete (bounds : Bounds) (hDeepest : 0 ≤ bounds.deepest)
    (hWidest : 0 ≤ bounds.widest) :
    (∀ draws, ∃ root after, (document bounds).run draws = .ok root after ∧
        IsSampleDocument bounds root) ∧
      ∀ root, IsSampleDocument bounds root → ∃ (numbers : List Int) (after : Draws),
        (document bounds).run (.cycle numbers.toArray) = .ok root after ∧
          after.used = numbers.length := by
  have hMakes := makes_document hDeepest hWidest
  refine ⟨hMakes.sound, fun root hRoot => ?_⟩
  obtain ⟨numbers, hRun⟩ := hMakes.complete root hRoot
  refine ⟨numbers, _, hRun _ (Draws.begins_cycle numbers), ?_⟩
  exact Nat.zero_add _

/-- A document as high and as wide as can be within its bounds, with a longest name. -/
def slender : Node :=
  .element ⟨"_0.-AZaz9wyY", ⟨[("b", "'"), ("W", " ~")], by decide⟩, none⟩
    [.element ⟨"Y", .empty, some ""⟩ []]

theorem isSampleDocument_slender : IsSampleDocument ⟨1, 1⟩ slender := by
  refine ⟨by decide, ⟨⟨by decide, ?_, ?_, fun _ => rfl, ?_⟩, ⟨⟨by decide, ?_, ?_, ?_, ?_⟩, trivial⟩,
    trivial⟩⟩
  · exact ⟨by decide, by simp [isFollow, isFirst], by simp [isFirst]⟩
  · refine ⟨by decide, ?_⟩
    intro entry hEntry
    rcases List.mem_cons.mp hEntry with rfl | hEntry
    · exact ⟨⟨by decide, by simp [isFollow, isFirst], by simp [isFirst]⟩, by decide, by simp⟩
    · rw [List.mem_singleton.mp hEntry]
      exact ⟨⟨by decide, by simp [isFollow, isFirst], by simp [isFirst]⟩, by decide, by simp⟩
  · intro text hText
    cases hText
  · exact ⟨by decide, by simp [isFollow, isFirst], by simp [isFirst]⟩
  · exact ⟨by decide, fun entry hEntry => absurd hEntry List.not_mem_nil⟩
  · intro hSome
    exact absurd rfl hSome
  · rintro text ⟨⟩
    exact ⟨by decide, by simp⟩

theorem document_sound_complete_slender :
    IsSampleDocument ⟨1, 1⟩ slender ∧ ∃ (numbers : List Int) (after : Draws),
      (document ⟨1, 1⟩).run (.cycle numbers.toArray) = .ok slender after ∧
        after.used = numbers.length := by
  obtain ⟨-, hGiven⟩ := document_sound_complete ⟨1, 1⟩ (by decide) (by decide)
  exact ⟨isSampleDocument_slender, hGiven slender isSampleDocument_slender⟩

end XmlLayout.Sample
