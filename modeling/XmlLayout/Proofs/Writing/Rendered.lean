import XmlLayout.Proofs.Document.Shape
import XmlLayout.Proofs.Writing.Outline
import XmlLayout.Writing.Rendering

/-!
# The text of a tree that can be written

A tree of which every element can be written is written as it is rendered, unless one of its levels
is too deep for its indent to be made; then the first element at such a level ends the encoding.

* `encodeToText_of_fits`, `encodeToText_of_wide`: the two cases.
* `encodeToText_eq_ok_iff`: which trees have a text, and which text that is.
-/

namespace XmlLayout.Writing

open Document Indent

/-- Whether an element can be written, by its tag and its children. -/
def Writable (tag : Tag) (children : List Node) : Prop :=
  fault? tag children = none

instance (tag : Tag) (children : List Node) : Decidable (Writable tag children) :=
  inferInstanceAs (Decidable (_ = _))

theorem writable_iff {tag : Tag} {children : List Node} :
    Writable tag children ↔ (children ≠ [] → tag.text.getD "" = "") ∧
      ∀ key ∈ tag.attributes.keys, isLegalName key = true := by
  have hText : (!children.isEmpty && decide (tag.text.getD "" ≠ "")) = true ↔
      ¬(children ≠ [] → tag.text.getD "" = "") := by
    rw [Bool.and_eq_true, Bool.not_eq_true', decide_eq_true_eq, List.isEmpty_eq_false_iff,
      Classical.not_imp]
  have hKeys : tag.attributes.keys.find? (fun key => !isLegalName key) = none ↔
      ∀ key ∈ tag.attributes.keys, isLegalName key = true := by
    simp only [List.find?_eq_none, Bool.not_eq_true', Bool.not_eq_false]
  unfold Writable fault?
  rw [← hKeys]
  split
  · rename_i hBoth
    exact iff_of_false (by simp) fun hAll => hText.mp hBoth hAll.1
  · rename_i hEither
    rw [Option.map_eq_none_iff]
    exact ⟨fun hNone => ⟨Classical.byContradiction fun hNot => hEither (hText.mpr hNot), hNone⟩,
      And.right⟩

theorem openingAt_eq_openingIndent (step : Int) (depth : Nat) :
    openingAt step depth = openingIndent step depth := by
  have hZero : (depth : Int) ≤ 0 ↔ depth = 0 := by omega
  simp only [openingAt, openingIndent, indentText_eq, hZero]

theorem closingAt_eq_closingIndent (step : Int) (depth : Nat) :
    closingAt step depth 2 = closingIndent step depth := by
  unfold closingAt closingIndent
  by_cases hStep : step ≤ 0
  · rw [if_pos (Or.inl hStep), if_pos hStep]
  · have hNot : ¬(step ≤ 0 ∨ (depth : Int) < 0) := by omega
    rw [if_neg hNot, if_neg hStep, indentText_eq]
    by_cases hDepth : (1 : Int) ≤ depth
    · rw [if_pos hDepth]
    · have hZero : depth = 0 := by omega
      rw [if_neg hDepth, hZero]
      simp [lineIndent]

/-- Whether all indents down to a level can be made. -/
def Fits (step : Int) (level : Nat) : Prop :=
  step ≤ 0 ∨ level * step ≤ memoryLimit

instance (step : Int) (level : Nat) : Decidable (Fits step level) :=
  inferInstanceAs (Decidable (_ ∨ _))

theorem Fits.mono {step : Int} {level other : Nat} (h : Fits step level) (hLe : other ≤ level) :
    Fits step other := by
  rcases h with hStep | hFits
  · exact Or.inl hStep
  · by_cases hStep : step ≤ 0
    · exact Or.inl hStep
    · right
      have hCast : (other : Int) ≤ level := by omega
      exact Int.le_trans (Int.mul_le_mul_of_nonneg_right hCast (by omega)) hFits

theorem Fits.openingFault? {step : Int} {depth : Nat} (h : Fits step depth) :
    openingFault? step depth = none := by
  unfold Indent.openingFault?
  split
  · rfl
  · rename_i hDeep
    exact Stack.widthFault?_eq_none_iff.2 (h.resolve_left fun hStep => hDeep (Or.inl hStep))

mutual

/-- Where nothing fails, every element can be written, and the tree is written as it is rendered. -/
theorem outline_of_fault_eq_none {step : Int} {depth : Nat} {node : Node}
    (h : (outline step depth node).fault = none) :
    node.Every Writable ∧ (outline step depth node).text = render step depth node := by
  cases node with
  | foreign value =>
    rw [outline] at h
    cases h
  | element tag children =>
    rw [fault_outline_element, Option.or_eq_none_iff, Option.or_eq_none_iff] at h
    obtain ⟨⟨hTag, hHere⟩, hInner⟩ := h
    obtain ⟨hChildren, hText⟩ := outlineAll_of_fault_eq_none hInner
    rw [Node.Every, render, outline_eq_wrap hTag hHere]
    refine ⟨⟨hTag, hChildren⟩, ?_⟩
    unfold Outline.wrap
    dsimp only
    split
    · rw [openingAt_eq_openingIndent]
    · rw [hInner]
      simp only [hText, openingAt_eq_openingIndent, closingAt_eq_closingIndent,
        String.append_assoc]

theorem outlineAll_of_fault_eq_none {step : Int} {depth : Nat} {nodes : List Node}
    (h : (outlineAll step depth nodes).fault = none) :
    Node.EveryAll Writable nodes ∧
      (outlineAll step depth nodes).text = renderAll step depth nodes := by
  cases nodes with
  | nil =>
    rw [Node.EveryAll, outlineAll, renderAll]
    exact ⟨trivial, rfl⟩
  | cons node rest =>
    rw [outlineAll, Outline.andThen] at h ⊢
    cases hFirst : (outline step depth node).fault with
    | some cause =>
      rw [hFirst] at h
      dsimp only at h
      rw [hFirst] at h
      cases h
    | none =>
      rw [hFirst] at h
      obtain ⟨hNode, hText⟩ := outline_of_fault_eq_none hFirst
      obtain ⟨hRest, hMore⟩ := outlineAll_of_fault_eq_none h
      rw [Node.EveryAll, renderAll]
      exact ⟨⟨hNode, hRest⟩, by rw [hText, hMore]⟩

end

mutual

/-- Where all indents can be made, nothing fails in a tree that can be written. -/
theorem outline_of_fits {step : Int} {depth : Nat} {node : Node} (h : node.Every Writable)
    (hFits : Fits step (depth + node.height)) : (outline step depth node).fault = none := by
  cases node with
  | foreign value => exact h.elim
  | element tag children =>
    rw [Node.Every] at h
    rw [Node.height] at hFits
    obtain ⟨hTag, hChildren⟩ := h
    have hHere := (hFits.mono (Nat.le_add_right depth _)).openingFault?
    have hInner : (outlineAll step (depth + 1) children).fault = none :=
      outlineAll_of_fits hChildren hFits
    rw [fault_outline_element, show fault? tag children = none from hTag, hHere, hInner]
    rfl

theorem outlineAll_of_fits {step : Int} {depth : Nat} {nodes : List Node}
    (h : Node.EveryAll Writable nodes) (hFits : Fits step (depth + Node.heightAll nodes)) :
    (outlineAll step (depth + 1) nodes).fault = none := by
  cases nodes with
  | nil =>
    rw [outlineAll]
    rfl
  | cons node rest =>
    rw [Node.EveryAll] at h
    rw [Node.heightAll] at hFits
    have hNode : Fits step (depth + 1 + node.height) := hFits.mono (by omega)
    have hOthers : Fits step (depth + Node.heightAll rest) := hFits.mono (by omega)
    rw [outlineAll, Outline.andThen, outline_of_fits h.1 hNode]
    exact outlineAll_of_fits h.2 hOthers

end

/-- Why a tree with a level that is too deep cannot be written. -/
def wideFault (step : Int) : Error :=
  if largestLength < step then .widthTooLarge else .outOfMemory

/-- The first level that is too deep is not many times as wide as can be. -/
theorem widthFault?_eq_wideFault {step : Int} {level : Nat} (h : Fits step level)
    (hWide : ¬Fits step (level + 1)) :
    Stack.widthFault? ((level + 1 : Nat) * step) = some (wideFault step) := by
  have hStep : 0 < step := Int.not_le.1 fun hStep => hWide (Or.inl hStep)
  have hOver : memoryLimit < (level + 1 : Nat) * step :=
    Int.not_le.1 fun hLe => hWide (Or.inr hLe)
  have hFits : level * step ≤ memoryLimit := h.resolve_left (by omega)
  have hNext : ((level + 1 : Nat) : Int) * step = level * step + step := by
    rw [Int.natCast_add, Int.add_mul]
    simp
  rw [hNext] at hOver ⊢
  unfold Stack.widthFault? wideFault
  by_cases hZero : level = 0
  · subst hZero
    have hNone : ((0 : Nat) : Int) * step + step = step := by simp
    rw [hNone] at hOver ⊢
    rw [if_pos hOver]
    split <;> rfl
  · have hLe : step ≤ level * step := by
      have hOne : (1 : Int) * step ≤ level * step :=
        Int.mul_le_mul_of_nonneg_right (by omega) (by omega)
      omega
    have hMemory : 2 * memoryLimit ≤ largestLength := by decide
    rw [if_neg (by omega), if_pos hOver, if_neg (by omega)]

mutual

/-- A level that is too deep ends the encoding of a tree that could be written otherwise. -/
theorem outline_of_wide {step : Int} {depth : Nat} {node : Node} (h : node.Every Writable)
    (hAbove : Fits step (depth - 1)) (hWide : ¬Fits step (depth + node.height)) :
    (outline step depth node).fault = some (wideFault step) := by
  cases node with
  | foreign value => exact h.elim
  | element tag children =>
    rw [Node.Every] at h
    rw [Node.height] at hWide
    obtain ⟨hTag, hChildren⟩ := h
    rw [fault_outline_element, show fault? tag children = none from hTag, Option.none_or]
    by_cases hHere : Fits step depth
    · have hInner : (outlineAll step (depth + 1) children).fault = some (wideFault step) :=
        outlineAll_of_wide hChildren hHere hWide
      rw [hHere.openingFault?, hInner]
      rfl
    · cases depth with
      | zero =>
        refine absurd (Or.inr ?_) hHere
        simp [memoryLimit]
      | succ level =>
        have hLevel : Fits step level := hAbove
        have hFault := widthFault?_eq_wideFault hLevel hHere
        have hStep : 0 < step := Int.not_le.1 fun hStep => hHere (Or.inl hStep)
        rw [Stack.openingFault?_eq hStep (by omega), hFault]
        rfl

theorem outlineAll_of_wide {step : Int} {depth : Nat} {nodes : List Node}
    (h : Node.EveryAll Writable nodes) (hAbove : Fits step depth)
    (hWide : ¬Fits step (depth + Node.heightAll nodes)) :
    (outlineAll step (depth + 1) nodes).fault = some (wideFault step) := by
  cases nodes with
  | nil => exact absurd hAbove hWide
  | cons node rest =>
    rw [Node.EveryAll] at h
    rw [Node.heightAll] at hWide
    rw [outlineAll, Outline.andThen]
    by_cases hFirst : Fits step (depth + 1 + node.height)
    · rw [outline_of_fits h.1 hFirst]
      refine outlineAll_of_wide h.2 hAbove fun hRest => hWide ?_
      rcases Nat.le_total (node.height + 1) (Node.heightAll rest) with hLe | hLe
      · rw [Nat.max_eq_right hLe]
        exact hRest
      · rw [Nat.max_eq_left hLe]
        exact hFirst.mono (by omega)
    · have hBelow : Fits step (depth + 1 - 1) := hAbove
      have hFault := outline_of_wide h.1 hBelow hFirst
      rw [hFault]
      exact hFault

end

theorem encodeToText_of_fits {root : Node} {step : Int} (h : root.Every Writable)
    (hFits : Fits step root.height) : encodeToText root step = .ok (render step 0 root) := by
  have hRoot : Fits step (0 + root.height) := by rwa [Nat.zero_add]
  have hFault := outline_of_fits h hRoot
  rw [encodeToText_eq_outline, hFault, (outline_of_fault_eq_none hFault).2]

theorem encodeToText_of_wide {root : Node} {step : Int} (h : root.Every Writable)
    (hWide : ¬Fits step root.height) : encodeToText root step = .error (wideFault step) := by
  have hTop : Fits step (0 - 1) := Or.inr (by simp [memoryLimit])
  have hRoot : ¬Fits step (0 + root.height) := by rwa [Nat.zero_add]
  have hFault := outline_of_wide h hTop hRoot
  rw [encodeToText_eq_outline, hFault]

/-- A text that is made is the rendering of a tree of which every element can be written. -/
theorem eq_render_of_encodeToText {root : Node} {step : Int} {text : String}
    (h : encodeToText root step = .ok text) :
    root.Every Writable ∧ text = render step 0 root := by
  rw [encodeToText_eq_outline] at h
  cases hFault : (outline step 0 root).fault with
  | some cause =>
    rw [hFault] at h
    cases h
  | none =>
    rw [hFault] at h
    cases h
    exact outline_of_fault_eq_none hFault

/-- Which trees have a text at a step, and that it is their rendering: no state of the stack is left
in it, whatever the shape and the height of the tree. -/
theorem encodeToText_eq_ok_iff (root : Node) (step : Int) (text : String) :
    encodeToText root step = .ok text ↔
      root.Every Writable ∧ Fits step root.height ∧ text = render step 0 root := by
  constructor
  · intro h
    obtain ⟨hWritable, hText⟩ := eq_render_of_encodeToText h
    refine ⟨hWritable, Decidable.byContradiction fun hWide => ?_, hText⟩
    rw [encodeToText_of_wide hWritable hWide] at h
    cases h
  · rintro ⟨hWritable, hFits, rfl⟩
    exact encodeToText_of_fits hWritable hFits

end XmlLayout.Writing
