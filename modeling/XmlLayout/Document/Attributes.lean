/-!
# Attributes

An ordered map from names to texts. Giving an attribute a new value keeps its place; a new
attribute goes last. No name occurs twice: this is part of the type.

* `toList_insert` says what `insert` does to the list of entries.
* `get?_insert` says that the entries are a map.
-/

namespace XmlLayout.Document

/-- The entries of an ordered map after `key` has got `value`. -/
def insertEntry (key value : String) : List (String × String) → List (String × String)
  | [] => [(key, value)]
  | entry :: rest =>
    if entry.1 = key then (key, value) :: rest else entry :: insertEntry key value rest

theorem keys_insertEntry (key value : String) (entries : List (String × String)) :
    (insertEntry key value entries).map Prod.fst =
      if key ∈ entries.map Prod.fst then entries.map Prod.fst
      else entries.map Prod.fst ++ [key] := by
  induction entries with
  | nil => simp [insertEntry]
  | cons entry rest ih =>
    by_cases hKey : entry.1 = key
    · simp [insertEntry, hKey]
    · have hKey' : key ≠ entry.1 := Ne.symm hKey
      by_cases hMem : key ∈ rest.map Prod.fst
      · simp only [insertEntry, hKey, if_false, List.map_cons, ih, hMem, if_true,
          List.mem_cons, or_true]
      · simp only [insertEntry, hKey, if_false, List.map_cons, ih, hMem,
          List.mem_cons, hKey', false_or, List.cons_append]

theorem nodup_insertEntry {key value : String} {entries : List (String × String)}
    (h : (entries.map Prod.fst).Nodup) :
    ((insertEntry key value entries).map Prod.fst).Nodup := by
  rw [keys_insertEntry]
  split
  · exact h
  · rename_i hMem
    rw [List.nodup_append]
    refine ⟨h, by simp, ?_⟩
    intro a ha b hb hab
    rw [List.mem_singleton] at hb
    exact hMem (hb ▸ hab ▸ ha)

/-- An ordered map from names to texts, without repeated names. -/
structure Attributes where
  toList : List (String × String)
  nodup : (toList.map Prod.fst).Nodup
  deriving DecidableEq

namespace Attributes

@[ext]
theorem ext {a b : Attributes} (h : a.toList = b.toList) : a = b := by
  cases a
  cases b
  simp_all

def empty : Attributes :=
  ⟨[], by simp⟩

instance : Inhabited Attributes :=
  ⟨empty⟩

def keys (a : Attributes) : List String :=
  a.toList.map Prod.fst

def get? (a : Attributes) (key : String) : Option String :=
  a.toList.lookup key

/-- Gives an attribute a value. An attribute that is there keeps its place. -/
def insert (a : Attributes) (key value : String) : Attributes :=
  ⟨insertEntry key value a.toList, nodup_insertEntry a.nodup⟩

def erase (a : Attributes) (key : String) : Attributes where
  toList := a.toList.filter fun entry => entry.1 ≠ key
  nodup := a.nodup.sublist (List.filter_sublist.map Prod.fst)

/-- Gives several attributes their values, one after the other. -/
def insertAll (a : Attributes) (entries : List (String × String)) : Attributes :=
  entries.foldl (fun b entry => b.insert entry.1 entry.2) a

/-- The attributes with these entries, unless a name is repeated. -/
def ofDistinct? (entries : List (String × String)) : Option Attributes :=
  if h : (entries.map Prod.fst).Nodup then some ⟨entries, h⟩ else none

/-- Whether two ordered maps have the same entries, in any order. -/
def same (a b : Attributes) : Bool :=
  a.toList.length = b.toList.length &&
    a.toList.all fun entry => b.get? entry.1 = some entry.2

@[simp]
theorem toList_insert (a : Attributes) (key value : String) :
    (a.insert key value).toList = insertEntry key value a.toList :=
  rfl

theorem lookup_insertEntry (key value other : String) (entries : List (String × String)) :
    (insertEntry key value entries).lookup other =
      if other = key then some value else entries.lookup other := by
  induction entries with
  | nil =>
    by_cases h : other = key
    · simp [insertEntry, h]
    · have hBeq : (other == key) = false := by simp [h]
      simp [insertEntry, List.lookup_cons, h, hBeq]
  | cons entry rest ih =>
    obtain ⟨first, old⟩ := entry
    by_cases hEntry : first = key
    · by_cases h : other = key
      · simp [insertEntry, hEntry, h]
      · have hBeq : (other == key) = false := by simp [h]
        simp [insertEntry, List.lookup_cons, hEntry, h, hBeq]
    · by_cases hOther : other = first
      · simp [insertEntry, hEntry, hOther]
      · have hBeq : (other == first) = false := by simp [hOther]
        simp [insertEntry, hEntry, List.lookup_cons, hBeq, ih]

/-- After `insert`, the attribute has the value, and the others are as before. -/
theorem get?_insert (a : Attributes) (key value other : String) :
    (a.insert key value).get? other = if other = key then some value else a.get? other :=
  lookup_insertEntry key value other a.toList

theorem get?_eq_none_iff {a : Attributes} {key : String} : a.get? key = none ↔ key ∉ a.keys := by
  rw [get?, List.lookup_eq_none_iff, keys, List.mem_map, not_exists]
  refine forall_congr' fun entry => ?_
  rw [bne_iff_ne, not_and, ne_comm]

theorem get?_erase_self (a : Attributes) (key : String) : (a.erase key).get? key = none := by
  rw [get?_eq_none_iff]
  simp [keys, erase]

theorem erase_of_not_mem {a : Attributes} {key : String} (h : key ∉ a.keys) : a.erase key = a := by
  ext1
  refine List.filter_eq_self.mpr fun entry hEntry => ?_
  rw [decide_eq_true_eq]
  rintro rfl
  exact h (List.mem_map_of_mem hEntry)

end Attributes

end XmlLayout.Document
