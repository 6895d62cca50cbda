import Mathlib.Data.Multiset.Bind
import Stencil.Proofs.Expansion.Narrowing
/-!
# Flattening

A value is flattened by going down through everything enumerable in it.  The elements of one level,
flattened further, are the flattened value, and for several axes that go down at the same time no
combination is lost or comes twice: only their order is another one.

    v.flat = v.choices.flatMap flat                                      (`flat_eq_flatMap_choices`)
    ((product axes).flatMap flatProduct).Perm (flatProduct axes)         (`flatMap_product_perm`)
-/

namespace Stencil

/-! ## Algorithm -/

namespace Value

mutual

/-- What a value holds at the bottom: nothing enumerable is left. -/
def flat : Value → List Value
  | .seq items => flatItems items
  | .range first last => rangeElements first last
  | v => [v]

/-- The same of several values in turn. -/
def flatItems : List Value → List Value
  | [] => []
  | v :: vs => flat v ++ flatItems vs

end

/-- What is reached by going down so many levels; what is not enumerable stays as it is. -/
def descents : Nat → Value → List Value
  | 0, v => [v]
  | steps + 1, v => v.choices.flatMap (descents steps)

/-- Enumerable values in each other to the same depth wherever one goes down. -/
def EvenlyNested : Nat → Value → Prop
  | 0, v => v.isEnumerable = false
  | depth + 1, v => ∃ items, v.elements? = some items ∧ ∀ item ∈ items, EvenlyNested depth item

end Value

namespace Expansion

/-- All ways to choose one value at the bottom of each axis, the last axis varying fastest. -/
def flatProduct (axes : List (String × Value)) : List (List (String × Value)) :=
  product (axes.map fun axis => (axis.1, .seq axis.2.flat))

end Expansion

/-! ## Values -/

namespace Value

theorem flatItems_eq_flatMap (items : List Value) : flatItems items = items.flatMap flat := by
  induction items with
  | nil => rfl
  | cons v vs ih => rw [flatItems, ih, List.flatMap_cons]

theorem flat_of_not_isEnumerable {v : Value} (h : v.isEnumerable = false) : v.flat = [v] := by
  cases v <;> first | rfl | cases h

theorem not_isEnumerable_of_mem_rangeElements {first last : Int64} {v : Value}
    (h : v ∈ rangeElements first last) : v.isEnumerable = false := by
  obtain ⟨i, -, rfl⟩ := List.mem_map.1 h
  rfl

theorem flatMap_flat_of_not_isEnumerable {vs : List Value}
    (h : ∀ v ∈ vs, v.isEnumerable = false) : vs.flatMap flat = vs := by
  rw [List.flatMap_congr fun v hv => flat_of_not_isEnumerable (h v hv)]
  exact List.flatMap_singleton' vs

/-- An enumerable value is flattened element by element, any other value stays as it is. -/
theorem flat_eq (v : Value) :
    v.flat = match v.elements? with
      | some items => items.flatMap flat
      | none => [v] := by
  cases v with
  | seq items => exact flatItems_eq_flatMap items
  | range first last =>
    exact (flatMap_flat_of_not_isEnumerable fun _ hv =>
      not_isEnumerable_of_mem_rangeElements hv).symm
  | _ => rfl

theorem flat_eq_flatMap_choices (v : Value) : v.flat = v.choices.flatMap flat := by
  rw [choices]
  cases hitems : v.elements? with
  | some items =>
    rw [flat_eq, hitems]
    rfl
  | none => exact (List.flatMap_singleton ..).symm

mutual

/-- Nothing at the bottom of a value goes down any further. -/
theorem not_isEnumerable_of_mem_flat : ∀ (v : Value) {w : Value}, w ∈ v.flat → w.isEnumerable = false
  | .seq items, _, h => not_isEnumerable_of_mem_flatItems items h
  | .range _ _, _, h => not_isEnumerable_of_mem_rangeElements h
  | .null, _, h => by rw [List.mem_singleton.1 h]; rfl
  | .bool _, _, h => by rw [List.mem_singleton.1 h]; rfl
  | .int _, _, h => by rw [List.mem_singleton.1 h]; rfl
  | .float _, _, h => by rw [List.mem_singleton.1 h]; rfl
  | .str _, _, h => by rw [List.mem_singleton.1 h]; rfl
  | .map _, _, h => by rw [List.mem_singleton.1 h]; rfl
  | .object .., _, h => by rw [List.mem_singleton.1 h]; rfl

theorem not_isEnumerable_of_mem_flatItems : ∀ (items : List Value) {w : Value}, w ∈ flatItems items →
    w.isEnumerable = false
  | [], _, h => by cases h
  | v :: vs, w, h => by
    rw [flatItems, List.mem_append] at h
    rcases h with h | h
    · exact not_isEnumerable_of_mem_flat v h
    · exact not_isEnumerable_of_mem_flatItems vs h

end

theorem nesting_le_nestingItems {v : Value} {items : List Value} (h : v ∈ items) :
    v.nesting ≤ nestingItems items := by
  induction items with
  | nil => cases h
  | cons w items ih =>
    rw [nestingItems]
    rcases List.mem_cons.1 h with rfl | h
    · omega
    · have := ih h
      omega

theorem nesting_eq_zero_iff {v : Value} : v.nesting = 0 ↔ v.isEnumerable = false := by
  cases v <;> simp [nesting, isEnumerable]

/-- A choice is nested less deep than the value, unless there was nothing to choose. -/
theorem nesting_of_mem_choices {v choice : Value} (h : choice ∈ v.choices) :
    choice.nesting ≤ v.nesting - 1 := by
  cases v with
  | seq items =>
    have hitem : choice ∈ items := h
    have hle := nesting_le_nestingItems hitem
    rw [nesting]
    omega
  | range first last =>
    have hzero := nesting_eq_zero_iff.2 (not_isEnumerable_of_mem_rangeElements h)
    omega
  | _ =>
    obtain rfl := List.mem_singleton.1 h
    exact Nat.zero_le _

/-! ### Level by level -/

theorem mem_flat_of_mem_descents {steps : Nat} {v w u : Value} (hw : w ∈ v.descents steps)
    (hu : u ∈ w.flat) : u ∈ v.flat := by
  induction steps generalizing v with
  | zero =>
    obtain rfl := List.mem_singleton.1 hw
    exact hu
  | succ steps ih =>
    obtain ⟨choice, hchoice, hw⟩ := List.mem_flatMap.1 hw
    rw [flat_eq_flatMap_choices]
    exact List.mem_flatMap.2 ⟨choice, hchoice, ih hw⟩

theorem nesting_of_mem_descents {steps : Nat} {v w : Value} (h : w ∈ v.descents steps) :
    w.nesting ≤ v.nesting - steps := by
  induction steps generalizing v with
  | zero =>
    obtain rfl := List.mem_singleton.1 h
    exact Nat.le_refl _
  | succ steps ih =>
    obtain ⟨choice, hchoice, h⟩ := List.mem_flatMap.1 h
    have hchoice := nesting_of_mem_choices hchoice
    have hw := ih h
    omega

/-- Each level that is gone down is one less. -/
theorem EvenlyNested.of_mem_descents {steps depth : Nat} {v w : Value} (hv : v.EvenlyNested depth)
    (h : w ∈ v.descents steps) : w.EvenlyNested (depth - steps) := by
  induction steps generalizing v depth with
  | zero =>
    obtain rfl := List.mem_singleton.1 h
    exact hv
  | succ steps ih =>
    rw [descents, List.mem_flatMap] at h
    obtain ⟨choice, hchoice, h⟩ := h
    cases depth with
    | zero =>
      rw [choices_of_not_isEnumerable hv, List.mem_singleton] at hchoice
      have hw := ih hv (hchoice ▸ h)
      rwa [Nat.zero_sub] at hw ⊢
    | succ depth =>
      obtain ⟨items, hitems, hall⟩ := hv
      rw [choices, hitems] at hchoice
      rw [Nat.succ_sub_succ]
      exact ih (hall choice hchoice) h

theorem EvenlyNested.isEnumerable_iff {depth : Nat} {v : Value} (h : v.EvenlyNested depth) :
    v.isEnumerable = true ↔ 0 < depth := by
  cases depth with
  | zero =>
    rw [EvenlyNested] at h
    simp [h]
  | succ depth =>
    obtain ⟨items, hitems, -⟩ := h
    have henum : v.isEnumerable = true := by
      by_contra hnot
      rw [elements?_of_not_isEnumerable (Bool.eq_false_iff.2 hnot)] at hitems
      cases hitems
    simp [henum]

end Value

/-! ## Products -/

namespace Expansion

variable {axes : List (String × Value)}

theorem flatProduct_cons (name : String) (value : Value) (axes : List (String × Value)) :
    flatProduct ((name, value) :: axes) =
      value.flat.flatMap fun choice => (flatProduct axes).map ((name, choice) :: ·) := rfl

theorem flatProduct_of_settled (h : ∀ axis ∈ axes, axis.2.isEnumerable = false) :
    flatProduct axes = [axes] := by
  induction axes with
  | nil => rfl
  | cons axis axes ih =>
    obtain ⟨name, value⟩ := axis
    obtain ⟨hvalue, hrest⟩ := List.forall_mem_cons.1 h
    rw [flatProduct_cons, Value.flat_of_not_isEnumerable hvalue, List.flatMap_singleton, ih hrest]
    rfl

/-- A combination has a value from the bottom of each axis. -/
theorem exists_of_mem_flatProduct {o : List (String × Value)} (h : o ∈ flatProduct axes)
    {axis : String × Value} (haxis : axis ∈ axes) : ∃ w ∈ axis.2.flat, (axis.1, w) ∈ o := by
  induction axes generalizing o with
  | nil => cases haxis
  | cons first axes ih =>
    obtain ⟨name, value⟩ := first
    rw [flatProduct_cons, List.mem_flatMap] at h
    obtain ⟨w, hw, h⟩ := h
    obtain ⟨o', ho', rfl⟩ := List.mem_map.1 h
    rcases List.mem_cons.1 haxis with rfl | haxis
    · exact ⟨w, hw, List.mem_cons_self⟩
    · obtain ⟨w', hw', hmem⟩ := ih ho' haxis
      exact ⟨w', hw', List.mem_cons_of_mem _ hmem⟩

/-- The choices of one level, flattened further, are all that is at the bottom. -/
theorem flatMap_product_perm (axes : List (String × Value)) :
    ((product axes).flatMap flatProduct).Perm (flatProduct axes) := by
  induction axes with
  | nil => exact .refl _
  | cons axis axes ih =>
    obtain ⟨name, value⟩ := axis
    rw [product, List.flatMap_assoc, flatProduct_cons, Value.flat_eq_flatMap_choices, List.flatMap_assoc]
    refine .flatMap_left _ fun choice _ => ?_
    -- the value at the bottom of the first axis is chosen before the others instead of behind them
    have hswap : ((product axes).flatMap fun o => choice.flat.flatMap fun w =>
        (flatProduct o).map ((name, w) :: ·)).Perm
          (choice.flat.flatMap fun w => (product axes).flatMap fun o =>
            (flatProduct o).map ((name, w) :: ·)) := by
      rw [← Multiset.coe_eq_coe]
      simp only [← Multiset.coe_bind]
      exact Multiset.bind_bind _ _
    rw [List.flatMap_map]
    simp only [flatProduct_cons]
    refine hswap.trans (.flatMap_left _ fun w _ => ?_)
    rw [← List.map_flatMap]
    exact ih.map _

end Expansion

end Stencil
