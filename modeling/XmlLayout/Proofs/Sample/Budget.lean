import Mathlib.Algebra.Ring.GeomSum
import XmlLayout.Proofs.Document.Preorder
import XmlLayout.Proofs.Sample.Documents

/-!
# How many numbers a sample takes

Whatever the numbers are, choosing an element comes to an end: no more of them are taken than a tree
needs that is as high and as wide as the bounds allow. This is so at every depth, also above the root,
and where the bounds are below zero and nothing can be chosen in the end.

* `Node.length_preorder_le`: how many elements a tree of some height and width has.
* `Takes.bind`, `takes_repeatedly`: the numbers that are taken in steps.
* `takes_element`: the numbers that an element and those below it take.
* `element_ends`: what comes out, for all bounds, depths and numbers.
-/

namespace XmlLayout

/-! ## Full trees -/

namespace Document

/-- The number of elements in a tree of some height in which every element that may has `width`
children. -/
def fullSize (width height : Nat) : Nat :=
  ∑ level ∈ Finset.range (height + 1), width ^ level

theorem fullSize_zero (width : Nat) : fullSize width 0 = 1 :=
  geom_sum_one width

/-- Below the root of a full tree there are full trees. -/
theorem fullSize_succ (width height : Nat) :
    fullSize width (height + 1) = width * fullSize width height + 1 :=
  geom_sum_succ

theorem one_le_fullSize (width height : Nat) : 1 ≤ fullSize width height := by
  cases height with
  | zero => exact Nat.le_of_eq (fullSize_zero width).symm
  | succ height =>
    rw [fullSize_succ]
    exact Nat.le_add_left 1 _

namespace Node

mutual

/-- A tree has no more elements than a full one. -/
theorem length_preorder_le {width height : Nat} {node : Node}
    (h : node.Every fun _ children => children.length ≤ width) (hHeight : node.height ≤ height)
    (depth : Nat) : (node.preorder depth).length ≤ fullSize width height := by
  cases node with
  | foreign value => exact h.elim
  | element tag children =>
    rw [Every] at h
    rw [Node.height, heightAll_le_iff] at hHeight
    rw [preorder, List.length_cons]
    cases height with
    | zero =>
      have hNil : children = [] := by
        apply List.eq_nil_iff_forall_not_mem.mpr
        intro child hChild
        have hLess := hHeight child hChild
        omega
      rw [hNil, preorderAll, fullSize_zero]
      exact Nat.le_refl 1
    | succ height =>
      have hBelow : (preorderAll (depth + 1) children).length ≤
          children.length * fullSize width height := by
        apply length_preorderAll_le h.2
        intro child hChild
        exact Nat.le_of_succ_le_succ (hHeight child hChild)
      rw [fullSize_succ]
      apply Nat.succ_le_succ
      exact Nat.le_trans hBelow (Nat.mul_le_mul_right _ h.1)

theorem length_preorderAll_le {width height : Nat} {nodes : List Node}
    (h : EveryAll (fun _ children => children.length ≤ width) nodes)
    (hHeight : ∀ node ∈ nodes, node.height ≤ height) (depth : Nat) :
    (preorderAll depth nodes).length ≤ nodes.length * fullSize width height := by
  cases nodes with
  | nil => exact Nat.zero_le _
  | cons node rest =>
    rw [EveryAll] at h
    rw [List.forall_mem_cons] at hHeight
    have hFirst := length_preorder_le h.1 hHeight.1 depth
    have hRest := length_preorderAll_le h.2 hHeight.2 depth
    rw [preorderAll, List.length_append, List.length_cons, Nat.succ_mul]
    omega

end

end Node

end Document

namespace Sample

open Document

/-! ## Numbers that are taken -/

variable {α β : Type} {x y : Sampling α} {f : α → Sampling β} {n m : Nat}

/-- The sequence as it is when something was made, or could not be made. -/
def Draws.behind (d : Draws) (x : Sampling α) : Draws :=
  match x d with
  | .ok _ e => e
  | .error _ e => e

/-- `x` ends with at most `n` numbers taken, whatever the numbers are and whether it fails or not. -/
def Takes (x : Sampling α) (n : Nat) : Prop :=
  ∀ d : Draws, ∃ taken ≤ n, d.behind x = d.skip taken

theorem Draws.skip_skip (d : Draws) (n m : Nat) : (d.skip n).skip m = d.skip (n + m) := by
  simp only [skip, Nat.add_assoc]

theorem Draws.behind_of_made {d e : Draws} {a : α} (h : x d = .ok a e) : d.behind x = e := by
  rw [behind, h]

theorem Draws.behind_of_failed {d e : Draws} {cause : Error} (h : x d = .error cause e) :
    d.behind x = e := by
  rw [behind, h]

theorem takes_pure (a : α) : Takes (pure a) 0 := by
  intro d
  exact ⟨0, Nat.le_refl 0, rfl⟩

theorem takes_throw (cause : Error) : Takes (throw cause : Sampling α) 0 := by
  intro d
  exact ⟨0, Nat.le_refl 0, rfl⟩

theorem Takes.mono (h : Takes x n) (hLe : n ≤ m) : Takes x m := by
  intro d
  obtain ⟨taken, hTaken, hBehind⟩ := h d
  exact ⟨taken, Nat.le_trans hTaken hLe, hBehind⟩

/-- The second of two steps takes its numbers behind those of the first, unless that failed. -/
theorem Takes.bind (hx : Takes x n) (hf : ∀ a, Takes (f a) m) : Takes (x >>= f) (n + m) := by
  intro d
  obtain ⟨first, hFirst, hBehind⟩ := hx d
  cases hRun : x d with
  | error cause e =>
    rw [Draws.behind_of_failed hRun] at hBehind
    refine ⟨first, Nat.le_trans hFirst (Nat.le_add_right n m), ?_⟩
    rw [Draws.behind_of_failed (bind_of_failed hRun), hBehind]
  | ok a e =>
    rw [Draws.behind_of_made hRun] at hBehind
    obtain ⟨second, hSecond, hLast⟩ := hf a e
    refine ⟨first + second, Nat.add_le_add hFirst hSecond, ?_⟩
    have hSame : d.behind (x >>= f) = e.behind (f a) := by
      rw [Draws.behind, bind_of_made hRun]
      rfl
    rw [hSame, hLast, hBehind, Draws.skip_skip]

theorem Takes.map {g : α → β} (h : Takes x n) : Takes (g <$> x) n := by
  intro d
  obtain ⟨taken, hTaken, hBehind⟩ := h d
  refine ⟨taken, hTaken, ?_⟩
  rw [← hBehind]
  simp only [Draws.behind, Functor.map, EStateM.map]
  cases x d with
  | ok a e => rfl
  | error cause e => rfl

theorem Takes.dite {c : Prop} [Decidable c] {y : c → Sampling α} {z : ¬c → Sampling α}
    (hy : ∀ h, Takes (y h) n) (hz : ∀ h, Takes (z h) n) :
    Takes (if h : c then y h else z h) n := by
  by_cases hc : c
  · rw [dif_pos hc]
    exact hy hc
  · rw [dif_neg hc]
    exact hz hc

theorem takes_draw (n : Nat) (hn : 0 < n) : Takes (draw n hn) 1 := by
  intro d
  exact ⟨1, Nat.le_refl 1, rfl⟩

theorem takes_below (n : Int) : Takes (below n) 1 := by
  unfold below
  apply Takes.dite
  · intro hn
    exact (takes_draw n.toNat _).bind fun k => takes_pure _
  · intro hn
    exact (takes_throw .emptyRange).mono (Nat.zero_le 1)

theorem takes_choose (items : List α) (h : 0 < items.length) : Takes (choose items h) 1 :=
  (takes_draw items.length h).bind fun _ => takes_pure _

theorem takes_repeatedly (h : Takes x n) (count : Nat) :
    Takes (repeatedly x count) (count * n) := by
  induction count with
  | zero =>
    rw [Nat.zero_mul]
    exact takes_pure []
  | succ count ih =>
    have hSum : n + (count * n + 0) = (count + 1) * n := by
      rw [Nat.succ_mul, Nat.add_zero, Nat.add_comm]
    rw [← hSum]
    exact h.bind fun first => ih.bind fun rest => takes_pure _

/-! ## What an element has of its own -/

theorem takes_name : Takes name 13 := by
  unfold name
  refine Takes.mono (n := 1 + (1 + (11 * 1 + 0))) ?_ (Nat.le_refl 13)
  refine (takes_choose nameStarts _).bind fun first => (takes_draw 12 _).bind fun count => ?_
  apply Takes.bind _ fun rest => takes_pure _
  apply (takes_repeatedly (takes_choose nameFollows _) count).mono
  exact Nat.mul_le_mul_right 1 (Nat.le_of_lt_succ count.isLt)

theorem takes_text (limit : Nat) (h : 0 < limit) : Takes (text limit h) limit := by
  unfold text
  refine Takes.mono (n := 1 + ((limit - 1) * 1 + 0)) ?_ (by omega)
  refine (takes_draw limit _).bind fun count => ?_
  apply Takes.bind _ fun chars => takes_pure _
  apply (takes_repeatedly (takes_choose textChars _) count).mono
  exact Nat.mul_le_mul_right 1 (Nat.le_sub_one_of_lt count.isLt)

theorem takes_addAttribute (attributes : Attributes) : Takes (addAttribute attributes) 33 :=
  (takes_text 20 _).bind fun _ => takes_name.bind fun _ => takes_pure _

theorem takes_addAttributes (attributes : Attributes) (count : Nat) :
    Takes (addAttributes attributes count) (count * 33) := by
  induction count generalizing attributes with
  | zero => exact takes_pure attributes
  | succ count ih =>
    have hSum : 33 + count * 33 = (count + 1) * 33 := by omega
    rw [← hSum]
    exact (takes_addAttribute attributes).bind fun more => ih more

theorem takes_attributes : Takes attributes 67 := by
  unfold attributes
  refine Takes.mono (n := 1 + 2 * 33) ?_ (Nat.le_refl 67)
  refine (takes_draw 3 _).bind fun count => ?_
  apply (takes_addAttributes .empty count).mono
  exact Nat.mul_le_mul_right 33 (Nat.le_of_lt_succ count.isLt)

theorem takes_elementText (hasChildren : Bool) : Takes (elementText hasChildren) 41 := by
  unfold elementText
  cases hasChildren with
  | true => exact (takes_pure none).mono (Nat.zero_le 41)
  | false =>
    refine Takes.mono (n := 1 + 40) ?_ (Nat.le_refl 41)
    refine (takes_draw 2 _).bind fun wanted => ?_
    apply Takes.dite
    · intro hNone
      exact (takes_pure none).mono (Nat.zero_le 40)
    · intro hSome
      exact (takes_text 40 _).map

/-! ## Elements -/

/-- The greatest number of numbers that an element takes for itself: for its name, for its attributes,
for whether it may have children and how many it has, and for its text. -/
def share : Nat := 13 + 67 + 2 + 41

/-- An element takes no more numbers than a full tree would with a share for each element. -/
theorem takes_element (bounds : Bounds) (depth : Int) :
    Takes (element bounds depth)
      (share * fullSize bounds.widest.toNat (bounds.deepest - depth).toNat) := by
  induction depth using element.induct bounds with
  | case1 depth ih =>
    rw [element]
    have hOne := one_le_fullSize bounds.widest.toNat (bounds.deepest - depth).toNat
    generalize hSize : fullSize bounds.widest.toNat (bounds.deepest - depth).toNat = size at hOne ⊢
    refine Takes.mono (n := 13 + (67 + (1 + (share * size - 81)))) ?_ ?_
    · refine takes_name.bind fun name => takes_attributes.bind fun attributes =>
        (takes_below _).bind ?_
      rintro ⟨gate, hGate⟩
      apply Takes.dite
      · intro hDeeper
        -- The number that allows children is at most the greatest depth, so a level is left.
        have hLevel : (bounds.deepest - depth).toNat =
            (bounds.deepest - (depth + 1)).toNat + 1 := by omega
        rw [hLevel, fullSize_succ] at hSize
        generalize hInner : fullSize bounds.widest.toNat (bounds.deepest - (depth + 1)).toNat = inner
          at hSize
        have hChild : Takes (element bounds (depth + 1)) (share * inner) := by
          rw [← hInner]
          exact ih gate hGate hDeeper
        have hTotal : share * size = bounds.widest.toNat * (share * inner) + share := by
          rw [← hSize, Nat.mul_add, Nat.mul_one, Nat.mul_left_comm]
        refine Takes.mono
          (n := 1 + (bounds.widest.toNat * (share * inner) + (41 + 0))) ?_ ?_
        · refine (takes_below _).bind ?_
          rintro ⟨count, hCount⟩
          refine Takes.bind ?_ fun children => (takes_elementText _).bind fun text => takes_pure _
          apply (takes_repeatedly hChild count).mono
          apply Nat.mul_le_mul_right
          omega
        · rw [hTotal]
          simp only [share]
          omega
      · intro hShallow
        refine Takes.mono (n := 41 + 0) ?_ ?_
        · exact (takes_elementText false).bind fun text => takes_pure _
        · simp only [share]
          omega
    · simp only [share]
      omega

/-- The number that settles whether an element may have children. It is taken behind those for the
name and the attributes of the element. -/
def gate (bounds : Bounds) (d : Draws) : Int :=
  let after := (d.behind name).behind attributes
  after.number after.used % (bounds.deepest + 1)

/-- The choices for an element, from the one on that settles whether it may have children. -/
theorem exists_element_eq (bounds : Bounds) (depth : Int) (d : Draws) :
    ∃ (name : String) (attributes : Attributes),
      element bounds depth d = (do
        let ⟨gate, _⟩ ← below (bounds.deepest + 1)
        if depth < gate then
          let count ← below (bounds.widest + 1)
          let children ← repeatedly (element bounds (depth + 1)) count
          let text ← elementText (!children.isEmpty)
          return .element ⟨name, attributes, text⟩ children
        else
          let text ← elementText false
          return .element ⟨name, attributes, text⟩ [] : Sampling Node)
        ((d.behind Sample.name).behind Sample.attributes) := by
  obtain ⟨name, afterName, hName, -⟩ := makes_name.sound d
  obtain ⟨attributes, afterAttributes, hAttributes, -⟩ := makes_attributes.sound afterName
  refine ⟨name, attributes, ?_⟩
  rw [element, bind_of_made hName, bind_of_made hAttributes, Draws.behind_of_made hName,
    Draws.behind_of_made hAttributes]
  rfl

theorem below_of_nonpos {n : Int} (hn : n ≤ 0) (d : Draws) : below n d = .error .emptyRange d := by
  unfold below
  rw [dif_neg (Int.not_lt.mpr hn)]
  rfl

theorem below_of_pos {n : Int} (hn : 0 < n) (d : Draws) :
    ∃ (k : Nat) (hk : (k : Int) < n),
      below n d = .ok ⟨k, hk⟩ (d.skip 1) ∧ (k : Int) = d.number d.used % n := by
  have hLow := Int.emod_nonneg (d.number d.used) (Int.ne_of_gt hn)
  have hHigh := Int.emod_lt_of_pos (d.number d.used) hn
  have hWord : ((n.toNat : Nat) : Int) = n := Int.toNat_of_nonneg (Int.le_of_lt hn)
  have hNumber : d.number d.used % (n.toNat : Int) = d.number d.used % n := by rw [hWord]
  refine ⟨(d.number d.used % (n.toNat : Int)).toNat, by omega, ?_, by omega⟩
  unfold below
  rw [dif_pos hn]
  rfl

/-- Whatever the bounds, the depth and the numbers are, choosing an element ends, with so many numbers
taken at most. Where there are no depths to choose from it fails, and where there are no numbers of
children it fails if the element may have any, as it always may above the root; otherwise it makes a
tree within the bounds. -/
theorem element_ends (bounds : Bounds) (depth : Int) (d : Draws) :
    let height := (bounds.deepest - depth).toNat
    let size := fullSize bounds.widest.toNat height
    let result := (element bounds depth).run d
    (∃ taken ≤ share * size, d.behind (element bounds depth) = d.skip taken) ∧
      if bounds.deepest < 0 then ∃ after, result = .error .emptyRange after
      else if bounds.widest < 0 then
        0 ≤ gate bounds d ∧
          if depth < gate bounds d then ∃ after, result = .error .emptyRange after
          else ∃ tag after, result = .ok (.element tag []) after
      else ∃ root after, result = .ok root after ∧ root.height ≤ height ∧
        root.Every (fun _ children => children.length ≤ bounds.widest) ∧
        (root.preorder 0).length ≤ size := by
  intro height size result
  refine ⟨takes_element bounds depth d, ?_⟩
  obtain ⟨name, attributes, hElement⟩ := exists_element_eq bounds depth d
  have hResult : result = element bounds depth d := rfl
  rw [hResult]
  split
  · rename_i hDeepest
    have hNone : bounds.deepest + 1 ≤ 0 := by omega
    rw [bind_of_failed (below_of_nonpos hNone _)] at hElement
    exact ⟨_, hElement⟩
  · rename_i hDeepest
    split
    · rename_i hWidest
      obtain ⟨k, hk, hBelow, hGate⟩ := below_of_pos (n := bounds.deepest + 1) (by omega)
        ((d.behind Sample.name).behind Sample.attributes)
      have hSame : gate bounds d = k := hGate.symm
      rw [hSame]
      refine ⟨Int.natCast_nonneg k, ?_⟩
      rw [bind_of_made hBelow] at hElement
      dsimp only at hElement
      by_cases hDeeper : depth < k
      · rw [if_pos hDeeper, bind_of_failed (below_of_nonpos (by omega) _)] at hElement
        rw [if_pos hDeeper]
        exact ⟨_, hElement⟩
      · rw [if_neg hDeeper] at hElement ⊢
        obtain ⟨node, after, hLeaf, text, -, rfl⟩ :=
          (makes_leaf name attributes).sound
            (((d.behind Sample.name).behind Sample.attributes).skip 1)
        exact ⟨_, after, hElement.trans hLeaf⟩
    · rename_i hWidest
      obtain ⟨root, after, hRun, hEvery, hHeight⟩ :=
        (makes_element (Int.not_lt.mp hDeepest) (Int.not_lt.mp hWidest) depth).sound d
      have hFew : root.Every fun _ children => children.length ≤ bounds.widest.toNat := by
        apply hEvery.mono
        intro tag children hSample
        have hLess := hSample.few
        omega
      refine ⟨root, after, hRun, hHeight, ?_, ?_⟩
      · apply hEvery.mono
        intro tag children hSample
        exact hSample.few
      · exact Node.length_preorder_le hFew hHeight 0

end Sample

end XmlLayout
