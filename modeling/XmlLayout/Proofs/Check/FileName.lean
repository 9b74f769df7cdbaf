import XmlLayout.Check.FileName

/-!
# Plain file names

The name of a file in the directory itself means what it says: it is its only part, there is nothing
to tidy, and it leads to a file exactly if one of that name exists. A name may also be too long for any
file.
-/

namespace XmlLayout.Check

/-- A name without a slash that means neither the directory itself nor the one above. -/
structure IsSimpleName (name : String) : Prop where
  noSlash : '/' ∉ name.toList
  noNull : '\x00' ∉ name.toList
  ne_empty : name ≠ ""
  ne_point : name ≠ "."
  ne_points : name ≠ ".."

/-- A name that a file in the directory can have. -/
structure IsPlainName (name : String) : Prop where
  noSlash : '/' ∉ name.toList
  noNull : '\x00' ∉ name.toList
  ne_empty : name ≠ ""
  ne_point : name ≠ "."
  ne_points : name ≠ ".."
  size_le : name.utf8ByteSize ≤ largestPart

theorem pathParts_of_not_mem {path : List Char} (h : '/' ∉ path) : pathParts path = [path] := by
  induction path with
  | nil => rfl
  | cons c rest ih =>
    rw [List.mem_cons, not_or] at h
    have hRest : pathParts rest = [rest] := ih h.2
    unfold pathParts at hRest ⊢
    rw [List.foldr_cons, hRest, if_neg (Ne.symm h.1)]

variable {name : String}

theorem IsPlainName.isSimpleName (h : IsPlainName name) : IsSimpleName name where
  noSlash := h.noSlash
  noNull := h.noNull
  ne_empty := h.ne_empty
  ne_point := h.ne_point
  ne_points := h.ne_points

theorem IsSimpleName.toList_ne_nil (h : IsSimpleName name) : name.toList ≠ [] := by
  intro hNil
  exact h.ne_empty (String.toList_inj.mp hNil)

theorem IsSimpleName.meaningfulParts (h : IsSimpleName name) :
    meaningfulParts name.toList = [name.toList] := by
  have hPoint : name.toList ≠ ['.'] := fun hOne => h.ne_point (String.toList_inj.mp hOne)
  rw [Check.meaningfulParts, pathParts_of_not_mem h.noSlash]
  simp [h.toList_ne_nil, hPoint]

theorem IsSimpleName.pathRoot (h : IsSimpleName name) : pathRoot name.toList = [] := by
  have hFirst (rest : List Char) : name.toList ≠ '/' :: rest := by
    intro hChars
    exact h.noSlash (hChars ▸ List.mem_cons_self)
  unfold Check.pathRoot
  split
  · exact absurd ‹_› (hFirst _)
  · exact absurd ‹_› (hFirst _)
  · exact absurd ‹_› (hFirst _)
  · rfl

theorem IsSimpleName.tidyPath (h : IsSimpleName name) : tidyPath name = name := by
  unfold Check.tidyPath
  rw [h.pathRoot, h.meaningfulParts]
  simp [h.toList_ne_nil]

theorem IsPlainName.tidyPath (h : IsPlainName name) : Check.tidyPath name = name :=
  h.isSimpleName.tidyPath

/-- What a name leads to: a file of this name, or nothing, where it may be too long to tell. -/
theorem IsSimpleName.leadsTo (h : IsSimpleName name) (files : Files) :
    leadsTo files name =
      if largestPath < name.utf8ByteSize then .error .tooLong
      else if name ∈ files.existing.map Check.tidyPath then .ok .file
      else if largestPart < name.utf8ByteSize then .error .tooLong
      else .error .noFile := by
  unfold Check.leadsTo
  simp only [h.pathRoot, h.tidyPath, h.meaningfulParts, if_neg h.noNull, if_true, List.map_cons,
    List.map_nil, String.ofList_toList]
  split
  · rfl
  · split
    · rfl
    · rename_i hNew
      by_cases hLong : largestPart < name.utf8ByteSize
      · simp only [Place.follow, Place.next, if_neg h.ne_points, if_pos hLong]
      · simp only [Place.follow, Place.next, if_neg h.ne_points, if_neg hLong, if_neg hNew, if_true]

theorem IsPlainName.leadsTo (h : IsPlainName name) (files : Files) :
    leadsTo files name =
      if name ∈ files.existing.map Check.tidyPath then .ok .file else .error .noFile := by
  have hPart : ¬largestPart < name.utf8ByteSize := Nat.not_lt.mpr h.size_le
  have hSize : ¬largestPath < name.utf8ByteSize := by
    simp only [largestPart, largestPath] at hPart ⊢
    omega
  rw [h.isSimpleName.leadsTo, if_neg hSize, if_neg hPart]

theorem IsPlainName.isInside (h : IsPlainName name) : isInside name = true := by
  rw [Check.isInside, h.tidyPath, decide_eq_true_eq]
  exact h.noSlash

theorem mem_sortedNames {names : List String} :
    name ∈ sortedNames names ↔ name ∈ names.map tidyPath := by
  rw [sortedNames, List.mem_mergeSort, List.mem_eraseDups]

/-! ## Null characters -/

theorem Place.next_ne_null (files : Files) (place : Place) (part : String) :
    place.next files part ≠ .error .null := by
  fun_cases Place.next files place part
  all_goals exact nofun

theorem Place.follow_ne_null (files : Files) (place : Place) (parts : List String) :
    place.follow files parts ≠ .error .null := by
  induction parts generalizing place with
  | nil => exact nofun
  | cons part rest ih =>
    unfold Place.follow
    split
    · exact ih _
    · split
      · exact nofun
      · exact nofun
    · rename_i gap _ hNext
      rintro ⟨⟩
      exact next_ne_null files place part hNext

/-- Only a null character makes a path one that no name can have. -/
theorem mem_of_leadsTo {files : Files} {path : String} (h : leadsTo files path = .error .null) :
    '\x00' ∈ path.toList := by
  refine Decidable.byContradiction fun hNone => ?_
  unfold leadsTo at h
  dsimp only at h
  rw [if_neg hNone] at h
  split at h
  · cases h
  · split at h
    · cases h
    · exact Place.follow_ne_null _ _ _ h

end XmlLayout.Check
