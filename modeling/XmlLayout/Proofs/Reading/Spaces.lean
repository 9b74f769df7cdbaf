import XmlLayout.Document.Node
import XmlLayout.Proofs.Reading.Values
import XmlLayout.Reading.Tree

/-!
# Default namespaces

A legal name has no qualifier, so the only namespace that a tree can declare is the default one, by an
attribute `xmlns`. Reading does not keep that attribute, and the names of the elements in its scope are
read with the namespace in front (`tagIn`). A few namespaces may not be declared at all
(`MayBeSpace`).

* `enter?_plainEntries`, `enter?_plainEntries_eq_none`: the scope inside an element.
* `open?_plainEntries`, `open?_plainEntries_eq_none`: what an opening tag begins.
-/

namespace XmlLayout.Reading

open Document (Tag Attributes Node)

/-! ## Declarations -/

/-- A text that may be declared to be the default namespace. -/
def MayBeSpace (space : String) : Prop :=
  '}' ∉ space.toList ∧ space.toList ≠ xmlNamespace ∧ space.toList ≠ declaringNamespace

instance (space : String) : Decidable (MayBeSpace space) :=
  inferInstanceAs (Decidable (_ ∧ _))

theorem mayDeclare_none_iff {space : String} :
    mayDeclare none space.toList = true ↔ MayBeSpace space := by
  simp [mayDeclare, MayBeSpace, and_assoc]

/-- An element that declares no default namespace, or one that it may declare. -/
def DeclaresWell (tag : Tag) (_ : List Node) : Prop :=
  ∀ space ∈ tag.attributes.get? "xmlns", MayBeSpace space

instance (tag : Tag) (children : List Node) : Decidable (DeclaresWell tag children) :=
  decidable_of_iff ((tag.attributes.get? "xmlns").all fun space => decide (MayBeSpace space)) <| by
    unfold DeclaresWell
    cases tag.attributes.get? "xmlns" with
    | none => simp
    | some space => simp

/-- An element that declares no default namespace. -/
def DeclaresNone (tag : Tag) (_ : List Node) : Prop :=
  "xmlns" ∉ tag.attributes.keys

instance (tag : Tag) (children : List Node) : Decidable (DeclaresNone tag children) :=
  inferInstanceAs (Decidable (¬_))

theorem DeclaresNone.get?_eq_none {tag : Tag} {children : List Node}
    (h : DeclaresNone tag children) : tag.attributes.get? "xmlns" = none :=
  Attributes.get?_eq_none_iff.mpr h

theorem DeclaresNone.declaresWell {tag : Tag} {children : List Node}
    (h : DeclaresNone tag children) : DeclaresWell tag children := by
  intro space hSpace
  rw [h.get?_eq_none] at hSpace
  cases hSpace

theorem declares?_of_ne {key : String} (h : key ≠ "xmlns") : declares? ⟨none, key.toList⟩ = none := by
  have hBase : key.toList ≠ declaring := by
    intro hEq
    exact h (String.toList_inj.mp hEq)
  unfold declares?
  rw [if_neg (by simp), if_neg (by simpa using hBase)]

theorem declares?_xmlns : declares? ⟨none, "xmlns".toList⟩ = some none := by
  decide

/-! ## Scopes -/

/-- The default namespace of a scope; an empty one is none. -/
def Scope.space (scope : Scope) : String :=
  String.ofList ((scope.declared.lookup none).getD [])

/-- The scope inside an element. -/
def Scope.inside (scope : Scope) (tag : Tag) : Scope :=
  match tag.attributes.get? "xmlns" with
  | none => scope
  | some space => ⟨(none, space.toList) :: scope.declared⟩

/-- The default namespace inside an element, where `space` is the one around it. -/
def spaceInside (space : String) (tag : Tag) : String :=
  (tag.attributes.get? "xmlns").getD space

theorem space_inside (scope : Scope) (tag : Tag) :
    (scope.inside tag).space = spaceInside scope.space tag := by
  unfold Scope.inside spaceInside
  cases tag.attributes.get? "xmlns" with
  | none => rfl
  | some space => simp [Scope.space]

section Entries

variable {entries : List (String × String)} (scope : Scope)

theorem enter?_of_lookup_eq_none (h : entries.lookup "xmlns" = none) :
    scope.enter? (plainEntries entries) = some scope := by
  induction entries with
  | nil => rfl
  | cons entry rest ih =>
    rw [List.lookup_eq_none_iff] at h
    have hFirst : entry.1 ≠ "xmlns" := fun hEq => by simpa [hEq] using h entry (by simp)
    have hRest : rest.lookup "xmlns" = none :=
      List.lookup_eq_none_iff.mpr fun e he => h e (List.mem_cons_of_mem entry he)
    rw [plainEntries, List.map_cons, ← plainEntries, Scope.enter?, declares?_of_ne hFirst]
    exact ih hRest

/-- At most one attribute declares a namespace, as no name is repeated. -/
theorem enter?_of_lookup_eq_some (hNodup : (entries.map Prod.fst).Nodup) {space : String}
    (h : entries.lookup "xmlns" = some space) :
    scope.enter? (plainEntries entries) =
      if MayBeSpace space then some ⟨(none, space.toList) :: scope.declared⟩ else none := by
  induction entries with
  | nil => cases h
  | cons entry rest ih =>
    rw [List.map_cons, List.nodup_cons] at hNodup
    obtain ⟨hNew, hNodup⟩ := hNodup
    rw [plainEntries, List.map_cons, ← plainEntries, Scope.enter?]
    by_cases hFirst : entry.1 = "xmlns"
    · have hSpace : entry.2 = space := by
        rw [List.lookup_cons, hFirst, beq_self_eq_true] at h
        exact Option.some.inj h
      have hRest : rest.lookup "xmlns" = none := by
        rw [List.lookup_eq_none_iff]
        intro e he
        rw [bne_iff_ne]
        intro hEq
        exact hNew (hFirst ▸ hEq ▸ List.mem_map_of_mem he)
      rw [hFirst, declares?_xmlns, hSpace]
      simp only [mayDeclare_none_iff, enter?_of_lookup_eq_none _ hRest]
    · have hBeq : ("xmlns" == entry.1) = false := beq_eq_false_iff_ne.mpr (Ne.symm hFirst)
      rw [List.lookup_cons, hBeq] at h
      rw [declares?_of_ne hFirst]
      exact ih hNodup h

theorem entries?_plainEntries :
    scope.entries? (plainEntries entries) =
      some (entries.filter fun entry => entry.1 ≠ "xmlns") := by
  induction entries with
  | nil => rfl
  | cons entry rest ih =>
    rw [plainEntries, List.map_cons, ← plainEntries, Scope.entries?, ih, List.filter_cons]
    by_cases hFirst : entry.1 = "xmlns"
    · rw [hFirst, declares?_xmlns]
      simp
    · rw [declares?_of_ne hFirst]
      simp [Scope.attributeName?, hFirst]

end Entries

variable {tag : Tag} {children : List Node}

theorem enter?_plainEntries (scope : Scope) (h : DeclaresWell tag children) :
    scope.enter? (plainEntries tag.attributes.toList) = some (scope.inside tag) := by
  unfold Scope.inside
  cases hSpace : tag.attributes.get? "xmlns" with
  | none => exact enter?_of_lookup_eq_none scope hSpace
  | some space =>
    rw [enter?_of_lookup_eq_some scope tag.attributes.nodup hSpace, if_pos (h space hSpace)]

theorem enter?_plainEntries_eq_none (scope : Scope) (h : ¬DeclaresWell tag children) :
    scope.enter? (plainEntries tag.attributes.toList) = none := by
  cases hSpace : tag.attributes.get? "xmlns" with
  | none =>
    refine absurd ?_ h
    intro space hMem
    rw [hSpace] at hMem
    cases hMem
  | some space =>
    have hNot : ¬MayBeSpace space := by
      intro hMay
      refine h ?_
      rintro other hMem
      rw [hSpace] at hMem
      cases hMem
      exact hMay
    rw [enter?_of_lookup_eq_some scope tag.attributes.nodup hSpace, if_neg hNot]

theorem nodup_plainEntries (attributes : Attributes) :
    ((plainEntries attributes.toList).map Prod.fst).Nodup := by
  have hKeys : (plainEntries attributes.toList).map Prod.fst =
      (attributes.toList.map Prod.fst).map fun key => ⟨none, key.toList⟩ := by
    simp [plainEntries]
  rw [hKeys]
  refine List.Pairwise.map _ (fun a b hab hEq => hab ?_) attributes.nodup
  exact String.toList_inj.mp (congrArg QualifiedName.base hEq)

/-- The attributes of an element are those that are written, without the declaration. -/
theorem attributes?_plainEntries (scope : Scope) (attributes : Attributes) :
    scope.attributes? (plainEntries attributes.toList) = some (attributes.erase "xmlns") := by
  rw [Scope.attributes?, if_pos (nodup_plainEntries attributes), entries?_plainEntries,
    Option.bind_some]
  exact dif_pos (attributes.erase "xmlns").nodup

/-! ## Names -/

/-- The full name of an element in a namespace. -/
def nameIn (space name : String) : String :=
  if space = "" then name else "\x7b" ++ space ++ "\x7d" ++ name

theorem elementName?_eq (scope : Scope) (name : String) :
    scope.elementName? ⟨none, name.toList⟩ = some (nameIn scope.space name).toList := by
  unfold Scope.elementName? nameIn Scope.space
  cases scope.declared.lookup none with
  | none => simp
  | some space =>
    by_cases hSpace : space = []
    · simp [hSpace]
    · have hText : String.ofList space ≠ "" := by
        intro hEq
        exact hSpace (by rw [← String.toList_ofList (l := space), hEq]; rfl)
      simp [hSpace, hText, expanded]

/-- What an element has of its own when it is read, where `space` is the default namespace in it. -/
def tagIn (space : String) (tag : Tag) : Tag where
  name := nameIn space tag.name
  attributes := tag.attributes.erase "xmlns"
  text := tag.text

section DeclaresNone

variable {tag : Tag} {children : List Node}

theorem DeclaresNone.spaceInside_eq (h : DeclaresNone tag children) (space : String) :
    spaceInside space tag = space := by
  rw [spaceInside, h.get?_eq_none]
  rfl

theorem DeclaresNone.tagIn_eq (h : DeclaresNone tag children) : tagIn "" tag = tag := by
  rw [tagIn, Attributes.erase_of_not_mem h]
  rfl

end DeclaresNone

/-! ## Frames -/

/-- An element of which only the opening tag was read, in a scope. -/
def openFrame (scope : Scope) (tag : Tag) : Frame where
  written := ⟨none, tag.name.toList⟩
  name := (tagIn (scope.inside tag).space tag).name
  attributes := (tagIn (scope.inside tag).space tag).attributes
  scope := scope.inside tag
  text := []
  children := []

theorem open?_plainEntries (scope : Scope) (h : DeclaresWell tag children) :
    Frame.open? scope ⟨none, tag.name.toList⟩ (plainEntries tag.attributes.toList) =
      some (openFrame scope tag) := by
  simp only [Frame.open?, enter?_plainEntries scope h, elementName?_eq, attributes?_plainEntries,
    String.ofList_toList]
  rfl

/-- A namespace that may not be declared ends the reading. -/
theorem open?_plainEntries_eq_none (scope : Scope) (h : ¬DeclaresWell tag children) :
    Frame.open? scope ⟨none, tag.name.toList⟩ (plainEntries tag.attributes.toList) = none := by
  simp only [Frame.open?, enter?_plainEntries_eq_none scope h]

end XmlLayout.Reading
