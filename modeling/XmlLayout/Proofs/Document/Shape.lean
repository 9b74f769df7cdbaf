import XmlLayout.Document.Node

/-!
# Properties of all elements of a tree

`Node.Every P` says that a tree is made of elements alone, and that `P` holds of each of them, by
its tag and its children. `Node.Related R` says that two trees of elements have the same shape, and
that `R` relates the elements in the same places. The height of a tree is the number of levels below
its root.
-/

namespace XmlLayout.Document.Node

mutual

/-- Every node is an element for whose tag and children `P` holds. -/
def Every (P : Tag → List Node → Prop) : Node → Prop
  | foreign _ => False
  | element tag children => P tag children ∧ EveryAll P children

/-- Every node of several trees is an element for whose tag and children `P` holds. -/
def EveryAll (P : Tag → List Node → Prop) : List Node → Prop
  | [] => True
  | node :: rest => node.Every P ∧ EveryAll P rest

end

mutual

def height : Node → Nat
  | foreign _ => 0
  | element _ children => heightAll children

/-- The number of levels that several nodes take up. -/
def heightAll : List Node → Nat
  | [] => 0
  | node :: rest => max (node.height + 1) (heightAll rest)

end

theorem heightAll_le_iff {nodes : List Node} {n : Nat} :
    heightAll nodes ≤ n ↔ ∀ node ∈ nodes, node.height + 1 ≤ n := by
  induction nodes with
  | nil => simp [heightAll]
  | cons node rest ih => rw [heightAll, List.forall_mem_cons, ← ih, Nat.max_le]

variable {P Q : Tag → List Node → Prop}

theorem everyAll_iff {nodes : List Node} :
    EveryAll P nodes ↔ ∀ node ∈ nodes, node.Every P := by
  induction nodes with
  | nil => simp [EveryAll]
  | cons node rest ih => rw [EveryAll, List.forall_mem_cons, ← ih]

mutual

theorem Every.mono (hPQ : ∀ tag children, P tag children → Q tag children) {node : Node}
    (h : node.Every P) : node.Every Q := by
  cases node with
  | foreign value => exact h
  | element tag children =>
    rw [Every] at h ⊢
    exact ⟨hPQ tag children h.1, EveryAll.mono hPQ h.2⟩

theorem EveryAll.mono (hPQ : ∀ tag children, P tag children → Q tag children) {nodes : List Node}
    (h : EveryAll P nodes) : EveryAll Q nodes := by
  cases nodes with
  | nil => rw [EveryAll]; trivial
  | cons node rest =>
    rw [EveryAll] at h ⊢
    exact ⟨Every.mono hPQ h.1, EveryAll.mono hPQ h.2⟩

end

mutual

theorem Every.and {node : Node} (hP : node.Every P) (hQ : node.Every Q) :
    node.Every fun tag children => P tag children ∧ Q tag children := by
  cases node with
  | foreign value => exact hP
  | element tag children =>
    rw [Every] at hP hQ ⊢
    exact ⟨⟨hP.1, hQ.1⟩, EveryAll.and hP.2 hQ.2⟩

theorem EveryAll.and {nodes : List Node} (hP : EveryAll P nodes) (hQ : EveryAll Q nodes) :
    EveryAll (fun tag children => P tag children ∧ Q tag children) nodes := by
  cases nodes with
  | nil => rw [EveryAll]; trivial
  | cons node rest =>
    rw [EveryAll] at hP hQ ⊢
    exact ⟨Every.and hP.1 hQ.1, EveryAll.and hP.2 hQ.2⟩

end

/-! ## Two trees of one shape -/

mutual

/-- Two elements that `R` relates, by their tags and their children, and so on for the children. -/
def Related (R : Tag → List Node → Tag → List Node → Prop) : Node → Node → Prop
  | element s xs, element t ys => R s xs t ys ∧ RelatedAll R xs ys
  | _, _ => False

/-- As many trees on either side, which are related one by one. -/
def RelatedAll (R : Tag → List Node → Tag → List Node → Prop) : List Node → List Node → Prop
  | [], [] => True
  | x :: xs, y :: ys => x.Related R y ∧ RelatedAll R xs ys
  | _, _ => False

end

section Equivalence

variable {R : Tag → List Node → Tag → List Node → Prop}

mutual

/-- Every tree of elements is related to itself by what relates each of them to itself. -/
theorem Every.related (hR : ∀ tag children, P tag children → R tag children tag children)
    {node : Node} (h : node.Every P) : node.Related R node := by
  cases node with
  | foreign value => exact h
  | element tag children =>
    rw [Every] at h
    rw [Related]
    exact ⟨hR tag children h.1, EveryAll.related hR h.2⟩

theorem EveryAll.related (hR : ∀ tag children, P tag children → R tag children tag children)
    {nodes : List Node} (h : EveryAll P nodes) : RelatedAll R nodes nodes := by
  cases nodes with
  | nil => rw [RelatedAll]; trivial
  | cons node rest =>
    rw [EveryAll] at h
    rw [RelatedAll]
    exact ⟨Every.related hR h.1, EveryAll.related hR h.2⟩

end

mutual

theorem Related.symm (hR : ∀ s xs t ys, R s xs t ys → R t ys s xs) {a b : Node}
    (h : a.Related R b) : b.Related R a := by
  cases a with
  | foreign value => exact h.elim
  | element s xs =>
    cases b with
    | foreign value => exact h.elim
    | element t ys =>
      rw [Related] at h ⊢
      exact ⟨hR s xs t ys h.1, RelatedAll.symm hR h.2⟩

theorem RelatedAll.symm (hR : ∀ s xs t ys, R s xs t ys → R t ys s xs) {xs ys : List Node}
    (h : RelatedAll R xs ys) : RelatedAll R ys xs := by
  cases xs with
  | nil =>
    cases ys with
    | nil => exact h
    | cons y ys => exact h.elim
  | cons x xs =>
    cases ys with
    | nil => exact h.elim
    | cons y ys =>
      rw [RelatedAll] at h ⊢
      exact ⟨Related.symm hR h.1, RelatedAll.symm hR h.2⟩

end

mutual

theorem Related.trans
    (hR : ∀ s xs t ys u zs, R s xs t ys → R t ys u zs → R s xs u zs) {a b c : Node}
    (hab : a.Related R b) (hbc : b.Related R c) : a.Related R c := by
  cases a with
  | foreign value => exact hab.elim
  | element s xs =>
    cases b with
    | foreign value => exact hab.elim
    | element t ys =>
      cases c with
      | foreign value => exact hbc.elim
      | element u zs =>
        rw [Related] at hab hbc ⊢
        exact ⟨hR s xs t ys u zs hab.1 hbc.1, RelatedAll.trans hR hab.2 hbc.2⟩

theorem RelatedAll.trans
    (hR : ∀ s xs t ys u zs, R s xs t ys → R t ys u zs → R s xs u zs) {xs ys zs : List Node}
    (hxy : RelatedAll R xs ys) (hyz : RelatedAll R ys zs) : RelatedAll R xs zs := by
  cases xs with
  | nil =>
    cases ys with
    | nil => exact hyz
    | cons y ys => exact hxy.elim
  | cons x xs =>
    cases ys with
    | nil => exact hxy.elim
    | cons y ys =>
      cases zs with
      | nil => exact hyz.elim
      | cons z zs =>
        rw [RelatedAll] at hxy hyz ⊢
        exact ⟨Related.trans hR hxy.1 hyz.1, RelatedAll.trans hR hxy.2 hyz.2⟩

end

end Equivalence

theorem RelatedAll.eq_nil_iff {R : Tag → List Node → Tag → List Node → Prop} {xs ys : List Node}
    (h : RelatedAll R xs ys) : xs = [] ↔ ys = [] := by
  cases xs with
  | nil =>
    cases ys with
    | nil => exact Iff.rfl
    | cons y ys => exact h.elim
  | cons x xs =>
    cases ys with
    | nil => exact h.elim
    | cons y ys => simp

/-! ## Deciding -/

section Decidable

variable [∀ tag children, Decidable (P tag children)]

mutual

def decideEvery : (node : Node) → Decidable (node.Every P)
  | foreign _ => inferInstanceAs (Decidable False)
  | element tag children =>
    have := decideEveryAll children
    inferInstanceAs (Decidable (P tag children ∧ EveryAll P children))

def decideEveryAll : (nodes : List Node) → Decidable (EveryAll P nodes)
  | [] => inferInstanceAs (Decidable True)
  | node :: rest =>
    have := decideEvery node
    have := decideEveryAll rest
    inferInstanceAs (Decidable (node.Every P ∧ EveryAll P rest))

end

instance (node : Node) : Decidable (node.Every P) :=
  decideEvery node

variable {R : Tag → List Node → Tag → List Node → Prop} [∀ s xs t ys, Decidable (R s xs t ys)]

mutual

def decideRelated : (a b : Node) → Decidable (a.Related R b)
  | element s xs, element t ys =>
    have := decideRelatedAll xs ys
    inferInstanceAs (Decidable (R s xs t ys ∧ RelatedAll R xs ys))
  | element _ _, foreign _ => inferInstanceAs (Decidable False)
  | foreign _, element _ _ => inferInstanceAs (Decidable False)
  | foreign _, foreign _ => inferInstanceAs (Decidable False)

def decideRelatedAll : (xs ys : List Node) → Decidable (RelatedAll R xs ys)
  | [], [] => inferInstanceAs (Decidable True)
  | x :: xs, y :: ys =>
    have := decideRelated x y
    have := decideRelatedAll xs ys
    inferInstanceAs (Decidable (x.Related R y ∧ RelatedAll R xs ys))
  | [], _ :: _ => inferInstanceAs (Decidable False)
  | _ :: _, [] => inferInstanceAs (Decidable False)

end

instance (a b : Node) : Decidable (a.Related R b) :=
  decideRelated a b

end Decidable

end XmlLayout.Document.Node
