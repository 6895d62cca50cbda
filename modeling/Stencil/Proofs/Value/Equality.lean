import Mathlib.Data.List.Zip
import Stencil.Value
/-!
# Equality of values

Sequences are equal item by item, and maps when they are of one length and what stands under each name on
the left is equal to what stands under it on the right.

    Value.seq as == .seq bs ↔ as.length = bs.length ∧ ∀ pair ∈ as.zip bs, pair.1 == pair.2
    Value.map as == .map bs ↔ as.length = bs.length ∧ ∀ e ∈ as, ∃ b, bs.lookup e.1 = some b ∧ e.2 == b
-/

namespace Stencil.Value

/-! ## Pairs of two lists -/

section
universe u v w

variable {α : Type u} {β : Type v} {γ : Type w} {as : List α} {bs : List β}

theorem getElem_mem_zip {i : Nat} (ha : i < as.length) (hb : i < bs.length) :
    (as[i], bs[i]) ∈ as.zip bs := by
  rw [← List.getElem_zip (h := by rw [List.length_zip]; omega)]
  exact List.getElem_mem _

/-- Each item of the one list stands beside an item of the other. -/
theorem exists_mem_zip (hlen : as.length = bs.length) {a : α} (h : a ∈ as) : ∃ b, (a, b) ∈ as.zip bs := by
  obtain ⟨i, hi, rfl⟩ := List.getElem_of_mem h
  exact ⟨bs[i], getElem_mem_zip hi (by omega)⟩

theorem mem_zip_swap {a : α} {b : β} (h : (a, b) ∈ as.zip bs) : (b, a) ∈ bs.zip as := by
  rw [← List.zip_swap]
  exact List.mem_map_of_mem (f := Prod.swap) h

/-- Between an item of one list and the item of another beside it stands the item of a third one. -/
theorem exists_between {cs : List γ} (hab : as.length = bs.length) {a : α} {c : γ}
    (h : (a, c) ∈ as.zip cs) : ∃ b, (a, b) ∈ as.zip bs ∧ (b, c) ∈ bs.zip cs := by
  obtain ⟨i, hi, hpair⟩ := List.getElem_of_mem h
  rw [List.length_zip] at hi
  rw [List.getElem_zip, Prod.mk.injEq] at hpair
  obtain ⟨rfl, rfl⟩ := hpair
  have hb : i < bs.length := by omega
  exact ⟨bs[i], getElem_mem_zip _ hb, getElem_mem_zip hb _⟩

theorem mem_zip_map_left (f : α → γ) {a : α} {b : β} (h : (a, b) ∈ as.zip bs) :
    (f a, b) ∈ (as.map f).zip bs := by
  rw [List.zip_map_left]
  exact List.mem_map_of_mem (f := Prod.map f id) h

theorem length_eq_of_map_eq {f : α → γ} {g : β → γ} (h : as.map f = bs.map g) :
    as.length = bs.length := by
  rw [← List.length_map (f := f), h, List.length_map]

theorem eq_of_mem_zip {f : α → γ} {g : β → γ} (h : as.map f = bs.map g) {pair : α × β}
    (hpair : pair ∈ as.zip bs) : f pair.1 = g pair.2 := by
  induction as generalizing bs with
  | nil => cases hpair
  | cons a as ih =>
    cases bs with
    | nil => cases hpair
    | cons b bs =>
      rw [List.map_cons, List.map_cons, List.cons.injEq] at h
      rcases List.mem_cons.1 hpair with rfl | hpair
      · exact h.1
      · exact ih h.2 hpair

theorem mem_zip_self_iff {a b : α} : (a, b) ∈ as.zip as ↔ a = b ∧ a ∈ as := by
  constructor
  · intro h
    have heq := eq_of_mem_zip (f := id) (g := id) rfl h
    exact ⟨heq, (List.of_mem_zip h).1⟩
  · rintro ⟨rfl, ha⟩
    obtain ⟨b, hb⟩ := exists_mem_zip rfl ha
    obtain rfl : a = b := eq_of_mem_zip (f := id) (g := id) rfl hb
    exact hb

end

/-! ## Sequences and maps -/

theorem eqItems_iff {as bs : List Value} :
    eqItems as bs = true ↔ as.length = bs.length ∧ ∀ pair ∈ as.zip bs, (pair.1 == pair.2) = true := by
  induction as generalizing bs with
  | nil => cases bs <;> simp [eqItems]
  | cons a as ih =>
    cases bs with
    | nil => simp [eqItems]
    | cons b bs =>
      rw [eqItems, Bool.and_eq_true, ih, List.zip_cons_cons, List.forall_mem_cons, List.length_cons,
        List.length_cons, Nat.add_right_cancel_iff, and_left_comm]
      rfl

theorem eqEntries_iff {as bs : List (String × Value)} :
    eqEntries as bs = true ↔ ∀ e ∈ as, ∃ b, bs.lookup e.1 = some b ∧ (e.2 == b) = true := by
  induction as with
  | nil => simp [eqEntries]
  | cons e as ih =>
    rw [eqEntries, Bool.and_eq_true, ih, List.forall_mem_cons]
    refine and_congr_left fun _ => ?_
    cases bs.lookup e.1 with
    | none => simp
    | some b => simp only [Option.some.injEq, exists_eq_left']; rfl

theorem beq_seq_iff {as bs : List Value} : (Value.seq as == .seq bs) = true ↔
    as.length = bs.length ∧ ∀ pair ∈ as.zip bs, (pair.1 == pair.2) = true :=
  eqItems_iff

theorem beq_map_iff {as bs : List (String × Value)} : (Value.map as == .map bs) = true ↔
    as.length = bs.length ∧ ∀ e ∈ as, ∃ b, bs.lookup e.1 = some b ∧ (e.2 == b) = true := by
  show (as.length == bs.length && eqEntries as bs) = true ↔ _
  rw [Bool.and_eq_true, beq_iff_eq, eqEntries_iff]

end Stencil.Value
