import Mathlib.Order.Bounds.Defs
import XmlLayout.Document.Edit
import XmlLayout.Proofs.Document.Shape

/-!
# Equality of trees

Two trees of elements are equal exactly if they have the same shape: as many children, each of the
shape of the other in its place. Nothing that an element has of its own counts. So equality is an
equivalence, and what searches the children of an element for an equal one finds the first of the same
shape, which may be an element of another name.

* `Node.equal_iff_sameShape`: equality.
* `Element.position?_eq_some_iff`, `Element.position?_eq_none_iff`: what a search finds.
* `Element.equality_by_shape`: equality, and what it means for the children of an element.
-/

namespace XmlLayout.Document

namespace Node

/-- A tree of elements alone. -/
def IsPure : Node → Prop :=
  Every fun _ _ => True

/-- Two trees of elements that have as many children, each of the same shape as the other in its
place. -/
def SameShape : Node → Node → Prop :=
  Related fun _ _ _ _ => True

instance (node : Node) : Decidable node.IsPure :=
  inferInstanceAs (Decidable (node.Every fun _ _ => True))

instance (a b : Node) : Decidable (a.SameShape b) :=
  inferInstanceAs (Decidable (a.Related (fun _ _ _ _ => True) b))

mutual

theorem equal_iff_sameShape {a b : Node} (ha : a.IsPure) (hb : b.IsPure) :
    a.equal b = true ↔ a.SameShape b := by
  cases a with
  | foreign value => exact ha.elim
  | element s xs =>
    cases b with
    | foreign value => exact hb.elim
    | element t ys =>
      rw [equal, childrenEqual_iff_related ha.2 hb.2, SameShape, Related, true_and]

theorem childrenEqual_iff_related {xs ys : List Node} (hxs : EveryAll (fun _ _ => True) xs)
    (hys : EveryAll (fun _ _ => True) ys) :
    childrenEqual xs ys = true ↔ RelatedAll (fun _ _ _ _ => True) xs ys := by
  cases xs with
  | nil =>
    cases ys with
    | nil => exact iff_of_true rfl trivial
    | cons y ys => exact iff_of_false Bool.false_ne_true id
  | cons x xs =>
    cases ys with
    | nil => exact iff_of_false Bool.false_ne_true id
    | cons y ys =>
      have hFirst : x.equal y = true ↔ x.SameShape y := equal_iff_sameShape hxs.1 hys.1
      have hRest := childrenEqual_iff_related hxs.2 hys.2
      rw [childrenEqual, Bool.and_eq_true, hFirst, hRest, RelatedAll]
      exact Iff.rfl

end

variable {a b : Node}

theorem sameShape_refl (h : a.IsPure) : a.SameShape a :=
  Every.related (fun _ _ _ => trivial) h

theorem SameShape.symm (h : a.SameShape b) : b.SameShape a :=
  Related.symm (fun _ _ _ _ _ => trivial) h

theorem SameShape.trans {c : Node} (hab : a.SameShape b) (hbc : b.SameShape c) : a.SameShape c :=
  Related.trans (fun _ _ _ _ _ _ _ _ => trivial) hab hbc

theorem equivalence_equal :
    Equivalence fun a b : { node : Node // node.IsPure } => a.1.equal b.1 = true where
  refl a := (equal_iff_sameShape a.2 a.2).mpr (sameShape_refl a.2)
  symm {a b} hab := by
    have hShape := (equal_iff_sameShape a.2 b.2).mp hab
    exact (equal_iff_sameShape b.2 a.2).mpr hShape.symm
  trans {a b c} hab hbc := by
    have hLeft := (equal_iff_sameShape a.2 b.2).mp hab
    have hRight := (equal_iff_sameShape b.2 c.2).mp hbc
    exact (equal_iff_sameShape a.2 c.2).mpr (hLeft.trans hRight)

end Node

/-! ## The children of an element -/

namespace Element

variable {e : Element} {x : Node}

/-- The places of the children that have the shape of a tree. -/
def placesOf (e : Element) (x : Node) : Set Nat :=
  {i | ∃ child ∈ e.children[i]?, child.SameShape x}

theorem equal_child_iff (he : e.toNode.IsPure) (hx : x.IsPure) {child : Node}
    (hChild : child ∈ e.children) : child.equal x = true ↔ child.SameShape x :=
  Node.equal_iff_sameShape (Node.everyAll_iff.mp he.2 child hChild) hx

theorem mem_placesOf_iff (he : e.toNode.IsPure) (hx : x.IsPure) {i : Nat} :
    i ∈ e.placesOf x ↔ ∃ hi : i < e.children.length, e.children[i].equal x = true := by
  constructor
  · rintro ⟨child, hChild, hShape⟩
    obtain ⟨hi, rfl⟩ := List.getElem?_eq_some_iff.mp hChild
    exact ⟨hi, (equal_child_iff he hx (List.getElem_mem hi)).mpr hShape⟩
  · rintro ⟨hi, hEqual⟩
    exact ⟨e.children[i], List.getElem?_eq_getElem hi,
      (equal_child_iff he hx (List.getElem_mem hi)).mp hEqual⟩

theorem position?_eq_some_iff (he : e.toNode.IsPure) (hx : x.IsPure) {i : Nat} :
    e.position? x = some i ↔ IsLeast (e.placesOf x) i := by
  rw [position?, List.findIdx?_eq_some_iff_getElem]
  constructor
  · rintro ⟨hi, hFound, hBefore⟩
    refine ⟨(mem_placesOf_iff he hx).mpr ⟨hi, hFound⟩, ?_⟩
    intro j hj
    obtain ⟨hLess, hEqual⟩ := (mem_placesOf_iff he hx).mp hj
    exact Nat.le_of_not_lt fun hEarlier => hBefore j hEarlier hEqual
  · rintro ⟨hPlace, hLeast⟩
    obtain ⟨hi, hEqual⟩ := (mem_placesOf_iff he hx).mp hPlace
    refine ⟨hi, hEqual, ?_⟩
    intro j hj hEarlier
    have hLess : j < e.children.length := Nat.lt_trans hj hi
    exact Nat.not_le_of_lt hj (hLeast ((mem_placesOf_iff he hx).mpr ⟨hLess, hEarlier⟩))

theorem position?_eq_none_iff (he : e.toNode.IsPure) (hx : x.IsPure) :
    e.position? x = none ↔ ∀ child ∈ e.children, ¬child.SameShape x := by
  rw [position?, List.findIdx?_eq_none_iff]
  apply forall₂_congr
  intro child hChild
  rw [← equal_child_iff he hx hChild, Bool.not_eq_true]

theorem count_eq_length (he : e.toNode.IsPure) (hx : x.IsPure) :
    e.count x = (e.children.filter fun child => child.SameShape x).length := by
  rw [count, List.countP_eq_length_filter]
  congr 1
  apply List.filter_congr
  intro child hChild
  rw [Bool.eq_iff_iff, decide_eq_true_eq]
  exact equal_child_iff he hx hChild

/-- The child that is taken out stands between the others. -/
theorem exists_of_position? {i : Nat} (h : e.position? x = some i) :
    ∃ before child after, e.children = before ++ child :: after ∧ before.length = i ∧
      e.children.eraseIdx i = before ++ after := by
  obtain ⟨hi, -⟩ := List.findIdx?_eq_some_iff_getElem.mp h
  refine ⟨e.children.take i, e.children[i], e.children.drop (i + 1), ?_, ?_, ?_⟩
  · rw [List.getElem_cons_drop, List.take_append_drop]
  · exact List.length_take_of_le (Nat.le_of_lt hi)
  · exact List.eraseIdx_eq_take_drop_succ _ _

/-- Trees of elements are equal exactly if they have the same shape, which is an equivalence, whatever
the names, the attributes and the texts are. So the children that equal a tree are counted by their
shape; the index is the least place of one of them, and exactly the child at this place is taken out,
while the others keep their order and the tag stays. Where there is none, the search fails, and there is
no changed element. -/
theorem equality_by_shape :
    (∀ a b : Node, a.IsPure → b.IsPure → (a.equal b = true ↔ a.SameShape b)) ∧
    (Equivalence fun a b : { node : Node // node.IsPure } => a.1.equal b.1 = true) ∧
    ∀ (e : Element) (x : Node), e.toNode.IsPure → x.IsPure →
      e.count x = (e.children.filter fun child => child.SameShape x).length ∧
      (∀ i, e.index x = .ok i ↔ IsLeast (e.placesOf x) i) ∧
      (∀ cause, e.index x = .error cause ↔
        (∀ child ∈ e.children, ¬child.SameShape x) ∧ cause = .notAmongChildren x.shown) ∧
      (∀ i, e.index x = .ok i → ∃ before child after, e.children = before ++ child :: after ∧
        before.length = i ∧ e.remove x = .ok ⟨e.tag, before ++ after⟩) ∧
      ∀ cause, e.remove x = .error cause ↔
        (∀ child ∈ e.children, ¬child.SameShape x) ∧ cause = .noEqualChild := by
  refine ⟨fun a b ha hb => Node.equal_iff_sameShape ha hb, Node.equivalence_equal, ?_⟩
  intro e x he hx
  refine ⟨count_eq_length he hx, ?_⟩
  have hNone := position?_eq_none_iff he hx
  have hSome (i : Nat) := position?_eq_some_iff he hx (i := i)
  unfold index remove
  cases hPosition : e.position? x with
  | none =>
    rw [hPosition] at hSome
    have hNever := hNone.mp hPosition
    refine ⟨?_, ?_, nofun, ?_⟩
    · intro i
      rw [← hSome i]
      exact iff_of_false nofun nofun
    · intro cause
      rw [Except.error.injEq, eq_comm]
      exact (and_iff_right hNever).symm
    · intro cause
      rw [Except.error.injEq, eq_comm]
      exact (and_iff_right hNever).symm
  | some place =>
    rw [hPosition] at hSome
    have hThere : ¬∀ child ∈ e.children, ¬child.SameShape x := by
      intro hAll
      rw [hNone.mpr hAll] at hPosition
      cases hPosition
    refine ⟨?_, ?_, ?_, ?_⟩
    · intro i
      rw [← hSome i, Except.ok.injEq, Option.some.injEq]
    · intro cause
      exact iff_of_false nofun fun hCause => hThere hCause.1
    · rintro i ⟨⟩
      obtain ⟨before, child, after, hChildren, hLength, hErase⟩ := exists_of_position? hPosition
      refine ⟨before, child, after, hChildren, hLength, ?_⟩
      dsimp only
      rw [hErase]
    · intro cause
      exact iff_of_false nofun fun hCause => hThere hCause.1

/-- An element with a child that has one itself, and two that have none. -/
def shelf : Element :=
  ⟨⟨"shelf", .empty, none⟩, [
    .element ⟨"box", .empty, none⟩ [.element ⟨"pen", .empty, none⟩ []],
    .element ⟨"cup", .empty, some "tea"⟩ [], .element ⟨"jar", .empty, none⟩ []]⟩

/-- What equals a jar is the cup, and what equals the whole shelf is not on it. -/
theorem equality_by_shape_shelf :
    let jar : Node := .element ⟨"jar", ⟨[("of", "jam")], by decide⟩, none⟩ []
    shelf.toNode.IsPure ∧ jar.IsPure ∧ shelf.count jar = 2 ∧ shelf.index jar = .ok 1 ∧
      (∃ before child after, shelf.children = before ++ child :: after ∧ before.length = 1 ∧
        shelf.remove jar = .ok ⟨shelf.tag, before ++ after⟩) ∧
      shelf.remove shelf.toNode = .error .noEqualChild := by
  intro jar
  have hShelf : shelf.toNode.IsPure := by decide
  have hJar : jar.IsPure := by decide
  obtain ⟨hCount, hIndex, -, hRemove, -⟩ := equality_by_shape.2.2 shelf jar hShelf hJar
  obtain ⟨-, -, -, -, hRefused⟩ := equality_by_shape.2.2 shelf shelf.toNode hShelf hShelf
  have hPlace : shelf.index jar = .ok 1 := by
    rw [hIndex]
    refine ⟨⟨.element ⟨"cup", .empty, some "tea"⟩ [], rfl, by decide⟩, ?_⟩
    rintro (_ | i) ⟨child, hChild, hShape⟩
    · cases hChild
      exact absurd hShape (by decide)
    · exact Nat.le_add_left 1 i
  refine ⟨hShelf, hJar, ?_, hPlace, hRemove 1 hPlace, ?_⟩
  · rw [hCount]
    decide
  · exact (hRefused _).mpr ⟨by decide, rfl⟩

end Element

end XmlLayout.Document
