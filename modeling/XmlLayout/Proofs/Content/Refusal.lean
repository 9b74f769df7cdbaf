import XmlLayout.Content
import XmlLayout.Proofs.Writing.Refused

/-!
# Trees that have no content

A tree in which a plain value stands where an element belongs has no content, and no text either. An
element that was read from a document has a content, but it cannot be written. Contents and texts are
looked for in different ways: the content of an element is made of the contents of its children, which
come first, while a tag is written before what is in it; and an encoding may end for other reasons, at
any node. Still both come to the nodes in document order. So where an encoding ends at a plain value
there is no content for the same cause; but where it ends at an element that was read, there may be one.

* `failure?_ofNode`: the contents of a tree are looked for in document order.
* `Content.fails_alike`: how this fits the encoding of the tree.
* `Content.not_forall_fails_alike`: an element that was read ends an encoding alone.
-/

namespace XmlLayout

open Document (Node)
open Indent (Stack Reuse)
open Writing

namespace Content

/-- Why something failed, if it did. -/
def failure? {α : Type} : Except Error α → Option Error
  | .ok _ => none
  | .error cause => some cause

/-- Why a node has no content, whatever is in it. -/
def noContent? : Nat × Node → Option Error
  | (_, .foreign (.plain value)) => some (.notElement value.kind)
  | (_, .foreign (.parsed _ _)) => none
  | (_, .element _ _) => none

theorem failure?_eq_some_iff {α : Type} {x : Except Error α} {cause : Error} :
    failure? x = some cause ↔ x = .error cause := by
  cases x with
  | ok a => exact iff_of_false nofun nofun
  | error other => rw [failure?, Option.some.injEq, Except.error.injEq]

theorem failure?_eq_none_iff {α : Type} {x : Except Error α} :
    failure? x = none ↔ ∃ a, x = .ok a := by
  cases x with
  | ok a => exact iff_of_true rfl ⟨a, rfl⟩
  | error other => exact iff_of_false nofun nofun

theorem failure?_map {α β : Type} (f : α → β) (x : Except Error α) :
    failure? (x.map f) = failure? x := by
  cases x <;> rfl

mutual

/-- The first plain value ends the search for a content. -/
theorem failure?_ofNode (depth : Nat) (node : Node) :
    failure? (ofNode node) = (node.preorder depth).findSome? noContent? := by
  cases node with
  | foreign value =>
    cases value with
    | plain value => rfl
    | parsed address tree => rfl
  | element tag children =>
    rw [ofNode, failure?_map, failure?_ofNodes (depth + 1) children, Node.preorder,
      List.findSome?_cons, noContent?]

theorem failure?_ofNodes (depth : Nat) (nodes : List Node) :
    failure? (ofNodes nodes) = (Node.preorderAll depth nodes).findSome? noContent? := by
  cases nodes with
  | nil => rfl
  | cons node rest =>
    rw [Node.preorderAll, List.findSome?_append, ← failure?_ofNode depth node,
      ← failure?_ofNodes depth rest, ofNodes]
    cases ofNode node with
    | error cause => rfl
    | ok first => exact failure?_map _ _

end

/-! ## The first node of a kind -/

/-- The first node of a tree in document order that has a property. -/
def First (P : Node → Prop) (root node : Node) : Prop :=
  ∃ before depth after, root.preorder 0 = before ++ (depth, node) :: after ∧
    (∀ entry ∈ before, ¬P entry.2) ∧ P node

def IsForeign (node : Node) : Prop :=
  ∃ value, node = .foreign value

def IsPlain (node : Node) : Prop :=
  ∃ value, node = .foreign (.plain value)

/-- No plain value is in front of the first node that is no element. -/
theorem First.isPlain {root : Node} {value : Value}
    (h : First IsForeign root (.foreign (.plain value))) :
    First IsPlain root (.foreign (.plain value)) := by
  obtain ⟨before, depth, after, hNodes, hBefore, -⟩ := h
  refine ⟨before, depth, after, hNodes, ?_, value, rfl⟩
  rintro entry hEntry ⟨other, hNode⟩
  exact hBefore entry hEntry ⟨_, hNode⟩

theorem noContent?_eq_some_iff {entry : Nat × Node} {cause : Error} :
    noContent? entry = some cause ↔
      ∃ value, entry.2 = .foreign (.plain value) ∧ cause = .notElement value.kind := by
  obtain ⟨depth, node⟩ := entry
  constructor
  · intro h
    cases node with
    | element tag children => cases h
    | foreign value =>
      cases value with
      | parsed address tree => cases h
      | plain value => exact ⟨value, rfl, (Option.some.inj h).symm⟩
  · rintro ⟨value, rfl, rfl⟩
    rfl

theorem noContent?_eq_none_iff {entry : Nat × Node} :
    noContent? entry = none ↔ ¬IsPlain entry.2 := by
  rw [Option.eq_none_iff_forall_ne_some]
  constructor
  · rintro h ⟨value, hNode⟩
    exact h _ (noContent?_eq_some_iff.mpr ⟨value, hNode, rfl⟩)
  · intro h cause hCause
    obtain ⟨value, hNode, -⟩ := noContent?_eq_some_iff.mp hCause
    exact h ⟨value, hNode⟩

theorem ofNode_eq_error_iff {root : Node} {cause : Error} :
    ofNode root = .error cause ↔
      ∃ value, First IsPlain root (.foreign (.plain value)) ∧ cause = .notElement value.kind := by
  rw [← failure?_eq_some_iff, failure?_ofNode 0, List.findSome?_eq_some_iff]
  simp only [noContent?_eq_none_iff, noContent?_eq_some_iff]
  constructor
  · rintro ⟨before, ⟨depth, node⟩, after, hNodes, ⟨value, rfl, rfl⟩, hBefore⟩
    exact ⟨value, ⟨before, depth, after, hNodes, hBefore, value, rfl⟩, rfl⟩
  · rintro ⟨value, ⟨before, depth, after, hNodes, hBefore, -⟩, rfl⟩
    exact ⟨before, (depth, .foreign (.plain value)), after, hNodes, ⟨value, rfl, rfl⟩, hBefore⟩

theorem exists_error_iff {root : Node} :
    (∃ cause, ofNode root = .error cause) ↔
      ∃ depth value, (depth, .foreign (.plain value)) ∈ root.preorder 0 := by
  have hSome : (∃ cause, ofNode root = .error cause) ↔
      ((root.preorder 0).findSome? noContent?).isSome := by
    simp only [Option.isSome_iff_exists, ← failure?_ofNode 0, failure?_eq_some_iff]
  rw [hSome, List.findSome?_isSome_iff]
  constructor
  · rintro ⟨⟨depth, node⟩, hMem, hStop⟩
    obtain ⟨cause, hCause⟩ := Option.isSome_iff_exists.mp hStop
    obtain ⟨value, rfl, -⟩ := noContent?_eq_some_iff.mp hCause
    exact ⟨depth, value, hMem⟩
  · rintro ⟨depth, value, hMem⟩
    exact ⟨(depth, .foreign (.plain value)), hMem, rfl⟩

/-! ## Contents and encodings -/

/-- Of what ends an encoding, only what is no element is said to be none. -/
theorem exists_foreign_of_stop? {step : Int} {entry : Nat × Node} {kind : Kind}
    (h : stop? step entry = some (.notElement kind)) :
    ∃ value, entry.2 = .foreign value ∧ value.kind = kind := by
  obtain ⟨depth, node⟩ := entry
  rcases refused_iff.mpr h with hInvalid | ⟨-, -, hCause⟩
  · cases hInvalid with
    | foreign value => exact ⟨value, rfl, rfl⟩
  · split at hCause
    · cases hCause
    · cases hCause

/-- An encoding goes past elements only. -/
theorem not_isForeign_of_stop? {step : Int} {entry : Nat × Node} (h : stop? step entry = none) :
    ¬IsForeign entry.2 := by
  obtain ⟨depth, node⟩ := entry
  rintro ⟨value, rfl⟩
  cases h

theorem exists_first_of_fault {step : Int} {root : Node} {kind : Kind}
    (h : (outline step 0 root).fault = some (.notElement kind)) :
    ∃ value, First IsForeign root (.foreign value) ∧ value.kind = kind := by
  rw [fault_outline] at h
  obtain ⟨before, ⟨depth, node⟩, after, hNodes, hStop, hBefore⟩ := List.findSome?_eq_some_iff.mp h
  obtain ⟨value, rfl, hKind⟩ := exists_foreign_of_stop? hStop
  refine ⟨value, ⟨before, depth, after, hNodes, ?_, value, rfl⟩, hKind⟩
  intro earlier hEarlier
  exact not_isForeign_of_stop? (hBefore earlier hEarlier)

theorem exists_ofNode_of_fault_eq_none {step : Int} {root : Node}
    (h : (outline step 0 root).fault = none) : ∃ content, ofNode root = .ok content := by
  rw [fault_outline, List.findSome?_eq_none_iff] at h
  rw [← failure?_eq_none_iff, failure?_ofNode 0, List.findSome?_eq_none_iff]
  intro entry hEntry
  rw [noContent?_eq_none_iff]
  rintro ⟨value, hNode⟩
  exact not_isForeign_of_stop? (h entry hEntry) ⟨_, hNode⟩

/-- A tree has no content exactly if there is a plain value in it, and then for the kind of the first
one in document order. A writer at a desk, in whatever state, that fails with a tree because of
something that is no element names the kind of the first such node. Unless this is an element that was
read, there is no content for the same cause. Only trees that have a content are encoded. And a
comparison with a document fails as the content does, whatever the document is. -/
theorem fails_alike (root : Node) :
    (∀ cause, ofNode root = .error cause ↔
        ∃ value, First IsPlain root (.foreign (.plain value)) ∧ cause = .notElement value.kind) ∧
      ((∃ cause, ofNode root = .error cause) ↔
        ∃ depth value, (depth, .foreign (.plain value)) ∈ root.preorder 0) ∧
      (∀ (step : Int) (size : Nat) (strict : Bool) (reuse : Reuse) (count : Nat)
          (history : List (Fin count × Task)) (i : Fin count),
        let w := ((Desk.ofStack (.fresh step size strict reuse) count).after history).writer i
        (∀ kind, (w.encode root).1 = some (.notElement kind) →
            (∃ value, First IsForeign root (.foreign value) ∧ value.kind = kind) ∧
              (kind ≠ .parsed → ofNode root = .error (.notElement kind))) ∧
          ((w.encode root).1 = none → ∃ content, ofNode root = .ok content)) ∧
      ∀ cause document, ofNode root = .error cause → differs root document = .error cause := by
  refine ⟨fun cause => ofNode_eq_error_iff, exists_error_iff, ?_, ?_⟩
  · intro step size strict reuse count history i w
    have hSteady : w.Steady size step :=
      ((Desk.steady_ofStack step size strict reuse count).after history).writer i
    rw [hSteady.fault_encode]
    refine ⟨?_, exists_ofNode_of_fault_eq_none⟩
    intro kind hFault
    obtain ⟨value, hFirst, rfl⟩ := exists_first_of_fault hFault
    refine ⟨⟨value, hFirst, rfl⟩, ?_⟩
    intro hOther
    cases value with
    | parsed address tree => exact absurd rfl hOther
    | plain value => exact ofNode_eq_error_iff.mpr ⟨value, hFirst.isPlain, rfl⟩
  · intro cause document hError
    rw [differs, hError]
    rfl

/-- An element with one inside that was read from a document. -/
def album : Node :=
  .element ⟨"album", .empty, none⟩ [.foreign (.parsed 0 (.element ⟨"page", .empty, none⟩ []))]

theorem exists_ofNode_album : ∃ content, ofNode album = .ok content :=
  ⟨_, rfl⟩

/-- Not all that is no element keeps a tree from having a content: a writer refuses an element that was
read, for its kind, but the tree around it has a content. -/
theorem not_forall_fails_alike :
    (¬∀ root : Node, (∃ cause, ofNode root = .error cause) ↔
        ∃ depth value, (depth, .foreign value) ∈ root.preorder 0) ∧
      ¬∀ (root : Node) (kind : Kind),
        (((Desk.ofStack (.ofStep 3) 1).writer 0).encode root).1 = some (.notElement kind) →
          ofNode root = .error (.notElement kind) := by
  obtain ⟨content, hContent⟩ := exists_ofNode_album
  constructor
  · intro hRaises
    obtain ⟨cause, hError⟩ := (hRaises album).mpr ⟨1, _, List.mem_cons_of_mem _ List.mem_cons_self⟩
    rw [hContent] at hError
    cases hError
  · intro hAlike
    have hError := hAlike album .parsed (by decide +kernel)
    rw [hContent] at hError
    cases hError

end Content

end XmlLayout
