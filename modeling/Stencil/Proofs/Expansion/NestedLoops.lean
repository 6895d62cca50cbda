import Stencil.Proofs.Expansion.Narrowing
/-!
# The order of overlays

A path fans out like nested loops over its axes, the last one innermost.  So the number of an overlay
tells the choice on each axis: it is a digit of the number, where each axis is a place that counts up to
as many choices as it has.

    axes = before ++ axis :: after → (product axes)[q]? = some o →
      ∃ c, axis.2.choices[digit axis after q]? = some c ∧ (axis.1, c) ∈ o        (`choice_of_product`)
    product axes = [] ↔ ∃ axis ∈ axes, axis.2.choices = []                      (`product_eq_nil_iff`)
-/

namespace Stencil

/-- What a value stands for in a path: its elements in order, with no integer of a range wrapped, or
itself if it is not enumerable. -/
inductive Value.Chooses : Value → List Value → Prop where
  | seq (items : List Value) : Chooses (.seq items) items
  | range {first last : Int64} {ns : List Int64} :
      ns.map Int64.toInt =
        (List.range (last.toInt + 1 - first.toInt).toNat).map (fun (i : Nat) => first.toInt + i) →
      Chooses (.range first last) (ns.map .int)
  | scalar {v : Value} : v.isEnumerable = false → Chooses v [v]

theorem Value.chooses_range (first last : Int64) :
    Chooses (.range first last) (Value.range first last).choices := by
  have hchoices : (Value.range first last).choices =
      ((List.range (last.toInt + 1 - first.toInt).toNat).map fun (i : Nat) =>
        Int64.ofInt (first.toInt + i)).map .int := by
    have hlength : last.toInt - first.toInt + 1 = last.toInt + 1 - first.toInt := by omega
    rw [List.map_map, choices, elements?, rangeElements, hlength]
    rfl
  rw [hchoices]
  refine .range ?_
  rw [List.map_map]
  refine List.map_congr_left fun i hi => ?_
  have hle := first.le_toInt
  have hlt := last.toInt_lt
  rw [List.mem_range] at hi
  exact Int64.toInt_ofInt_of_le (by omega) (by omega)

theorem Value.chooses_choices (v : Value) : v.Chooses v.choices := by
  cases h : v.isEnumerable with
  | false =>
    rw [choices_of_not_isEnumerable h]
    exact .scalar h
  | true =>
    cases v with
    | seq items => exact .seq items
    | range first last => exact chooses_range first last
    | null | bool | int | float | str | map | object => cases h

namespace Expansion

open Bindings KeyedList TemplateTree

/-! ## Places and digits -/

/-- How many combinations the axes have. -/
def volume (axes : List (String × Value)) : Nat :=
  (axes.map fun axis => axis.2.choices.length).foldr (· * ·) 1

/-- The digit of a number on an axis: the axes behind it count faster. -/
def digit (axis : String × Value) (behind : List (String × Value)) (q : Nat) : Nat :=
  q / volume behind % axis.2.choices.length

theorem volume_cons (axis : String × Value) (axes : List (String × Value)) :
    volume (axis :: axes) = axis.2.choices.length * volume axes := rfl

theorem volume_append (before axes : List (String × Value)) :
    volume (before ++ axes) = volume before * volume axes := by
  induction before with
  | nil => exact (Nat.one_mul _).symm
  | cons axis before ih => rw [List.cons_append, volume_cons, ih, volume_cons, Nat.mul_assoc]

theorem volume_eq_zero_iff {axes : List (String × Value)} :
    volume axes = 0 ↔ ∃ axis ∈ axes, axis.2.choices = [] := by
  induction axes with
  | nil => simp [volume]
  | cons axis axes ih =>
    simp only [volume_cons, Nat.mul_eq_zero, ih, List.length_eq_zero_iff, List.exists_mem_cons_iff]

theorem length_product_eq_volume (axes : List (String × Value)) :
    (product axes).length = volume axes := length_product axes

theorem product_eq_nil_iff {axes : List (String × Value)} :
    product axes = [] ↔ ∃ axis ∈ axes, axis.2.choices = [] := by
  rw [← List.length_eq_zero_iff, length_product_eq_volume, volume_eq_zero_iff]

/-- The axes before do not change the digit. -/
theorem digit_mod (axis : String × Value) (before behind : List (String × Value)) (q : Nat) :
    digit axis behind (q % volume (before ++ axis :: behind)) = digit axis behind q := by
  have hsplit : volume (before ++ axis :: behind) =
      volume behind * (axis.2.choices.length * volume before) := by
    rw [volume_append, volume_cons, Nat.mul_comm, Nat.mul_assoc, Nat.mul_left_comm]
  rw [digit, digit, hsplit, Nat.mod_mul_right_div_self, Nat.mod_mul_right_mod]

/-! ## The product by number -/

/-- Where each part has the same length, the number of an element tells the part and the place in it. -/
theorem getElem?_flatMap {α β : Type} {f : α → List β} {size : Nat} (hf : ∀ x, (f x).length = size)
    (hsize : 0 < size) (xs : List α) (q : Nat) :
    (xs.flatMap f)[q]? = xs[q / size]?.bind fun x => (f x)[q % size]? := by
  induction xs generalizing q with
  | nil => simp
  | cons x xs ih =>
    rw [List.flatMap_cons]
    by_cases hq : q < size
    · rw [List.getElem?_append_left (by rwa [hf]), Nat.div_eq_of_lt hq, Nat.mod_eq_of_lt hq]
      rfl
    · obtain ⟨r, rfl⟩ := Nat.exists_eq_add_of_le (Nat.not_lt.1 hq)
      rw [List.getElem?_append_right (by rw [hf]; omega), hf, Nat.add_sub_cancel_left, ih,
        Nat.add_mod_left, Nat.add_comm size r, Nat.add_div_right r hsize]
      rfl

theorem getElem?_product_cons {axis : String × Value} {axes : List (String × Value)} {q : Nat}
    {o : List (String × Value)} (h : (product (axis :: axes))[q]? = some o) :
    ∃ c rest, axis.2.choices[q / volume axes]? = some c ∧
      (product axes)[q % volume axes]? = some rest ∧ o = (axis.1, c) :: rest := by
  have hpos : 0 < volume axes := by
    rw [Nat.pos_iff_ne_zero]
    intro hzero
    have hnil : product (axis :: axes) = [] := by
      rw [← List.length_eq_zero_iff, length_product_eq_volume, volume_cons, hzero, Nat.mul_zero]
    rw [hnil] at h
    cases h
  have hsize : ∀ c, ((product axes).map ((axis.1, c) :: ·)).length = volume axes := fun c => by
    rw [List.length_map, length_product_eq_volume]
  rw [product, getElem?_flatMap hsize hpos, Option.bind_eq_some_iff] at h
  obtain ⟨c, hc, h⟩ := h
  rw [List.getElem?_map, Option.map_eq_some_iff] at h
  obtain ⟨rest, hrest, rfl⟩ := h
  exact ⟨c, rest, hc, hrest, rfl⟩

/-- The number of a combination has the choices as its digits. -/
theorem choice_of_product {before behind : List (String × Value)} {axis : String × Value} {q : Nat}
    {o : List (String × Value)} (h : (product (before ++ axis :: behind))[q]? = some o) :
    ∃ c, axis.2.choices[digit axis behind q]? = some c ∧ (axis.1, c) ∈ o := by
  induction before generalizing q o with
  | nil =>
    obtain ⟨c, rest, hc, -, rfl⟩ := getElem?_product_cons h
    refine ⟨c, ?_, List.mem_cons_self⟩
    rwa [digit, Nat.mod_eq_of_lt (List.getElem?_eq_some_iff.1 hc).1]
  | cons first before ih =>
    rw [List.cons_append] at h
    obtain ⟨_, rest, -, hrest, rfl⟩ := getElem?_product_cons h
    obtain ⟨c, hc, hmem⟩ := ih hrest
    rw [digit_mod] at hc
    exact ⟨c, hc, List.mem_cons_of_mem _ hmem⟩

/-! ## First appearances -/

/-- What is left out does not change which of two comes first. -/
theorem idxOf_lt_idxOf_filter {p : String → Bool} {m n : String} (hm : p m = true) (hn : p n = true)
    (names : List String) :
    (names.filter p).idxOf m < (names.filter p).idxOf n ↔ names.idxOf m < names.idxOf n := by
  induction names with
  | nil => rfl
  | cons name names ih =>
    by_cases hname : p name = true
    · rw [List.filter_cons_of_pos hname]
      simp only [List.idxOf_cons]
      cases name == m <;> cases name == n <;> simp [ih]
    · have hne : ∀ k, p k = true → (name == k) = false := by
        intro k hk
        rw [beq_eq_false_iff_ne]
        rintro rfl
        exact hname hk
      rw [List.filter_cons_of_neg hname, ih, List.idxOf_cons, List.idxOf_cons, hne m hm, hne n hn]
      simp

theorem pairwise_idxOf_eraseDups (names : List String) :
    names.eraseDups.Pairwise fun m n => names.idxOf m < names.idxOf n := by
  match names with
  | [] => simp
  | name :: names =>
    have hlength := List.length_filter_le (fun n => !(n == name)) names
    have hkept : ∀ n ∈ (names.filter fun n => !(n == name)).eraseDups, (!(n == name)) = true :=
      fun n hn => (List.mem_filter.1 (List.mem_eraseDups.1 hn)).2
    have hlater : ∀ n, (!(n == name)) = true → (name :: names).idxOf n = names.idxOf n + 1 := by
      intro n hn
      have hne : (name == n) = false := by
        rw [beq_eq_false_iff_ne]
        rintro rfl
        simp at hn
      rw [List.idxOf_cons, hne, cond_false]
    rw [List.eraseDups_cons, List.pairwise_cons]
    refine ⟨fun n hn => ?_, (pairwise_idxOf_eraseDups _).imp_of_mem fun {m n} hm hn hlt => ?_⟩
    · rw [hlater n (hkept n hn), List.idxOf_cons_self]
      exact Nat.zero_lt_succ _
    · rw [hlater m (hkept m hm), hlater n (hkept n hn)]
      exact Nat.succ_lt_succ ((idxOf_lt_idxOf_filter (hkept m hm) (hkept n hn) names).1 hlt)
termination_by names.length
decreasing_by exact Nat.lt_succ_of_le hlength

/-- The names of the placeholders that are bound, each once, in the order in which they come first, with
their values. -/
structure IsAxes (ps : List Placeholder) (b : Bindings) (axes : List (String × Value)) : Prop where
  find? : ∀ axis ∈ axes, b.find? axis.1 = some axis.2
  mem_names : ∀ name, name ∈ axes.map Prod.fst ↔ b.contains name = true ∧ ∃ p ∈ ps, p.name = name
  order : (axes.map Prod.fst).Pairwise fun m n =>
    (ps.map (·.name)).idxOf m < (ps.map (·.name)).idxOf n

theorem isAxes (ps : List Placeholder) (b : Bindings) : IsAxes ps b (axes ps b) where
  find? axis haxis := by
    obtain ⟨name, -, h⟩ := List.mem_filterMap.1 haxis
    obtain ⟨v, hv, rfl⟩ := Option.map_eq_some_iff.1 h
    exact hv
  mem_names name := by
    rw [map_fst_axes, List.mem_filter, distinctNames, List.mem_eraseDups, List.mem_map, and_comm]
  order := by
    rw [map_fst_axes]
    exact (pairwise_idxOf_eraseDups _).filter _

/-! ## Top theorem -/

/-- As many overlays as combinations, each for the names of the axes, and the overlay of a number with
the choices that its digits say. -/
structure InNestedOrder (axes : List (String × Value)) (overlays : List Overlay) : Prop where
  length : overlays.length = volume axes
  keys : ∀ o ∈ overlays, o.keys = axes.map Prod.fst
  find? : ∀ q o before axis behind, overlays[q]? = some o → axes = before ++ axis :: behind →
    ∃ c, axis.2.choices[digit axis behind q]? = some c ∧ o.find? axis.1 = some c

theorem inNestedOrder {axes : List (String × Value)} (h : (axes.map Prod.fst).Nodup) :
    InNestedOrder axes ((product axes).map ofList) where
  length := by
    rw [List.length_map, length_product_eq_volume]
  keys o ho := by
    obtain ⟨es, hes, rfl⟩ := List.mem_map.1 ho
    have hnames := map_fst_of_mem_product hes
    rw [keys, entries_ofList (hnames ▸ h), hnames]
  find? q o before axis behind ho haxes := by
    rw [List.getElem?_map, Option.map_eq_some_iff] at ho
    obtain ⟨es, hes, rfl⟩ := ho
    have hnames := map_fst_of_mem_product (List.mem_of_getElem? hes)
    subst haxes
    obtain ⟨c, hc, hmem⟩ := choice_of_product hes
    refine ⟨c, hc, ?_⟩
    rw [KeyedList.find?, entries_ofList (hnames ▸ h)]
    exact lookup_of_mem (hnames ▸ h) hmem

/-- The axes of placeholders are their distinct bound names, each with the choices of its value.  Where
none of them is enumerable there is nothing to expand; else there is one overlay for each combination, in
the order of nested loops, and none at all exactly if an axis has no choices. -/
theorem of_eq_nestedLoops (ps : List Placeholder) (b : Bindings) :
    IsAxes ps b (axes ps b) ∧
    (∀ axis ∈ axes ps b, axis.2.Chooses axis.2.choices) ∧
    (of ps b = .leaf ↔ ∀ axis ∈ axes ps b, axis.2.isEnumerable = false) ∧
    ((∃ axis ∈ axes ps b, axis.2.isEnumerable = true) →
      (of ps b = .empty ↔ ∃ axis ∈ axes ps b, axis.2.choices = []) ∧
      ((∀ axis ∈ axes ps b, axis.2.choices ≠ []) →
        ∃ os, of ps b = .fanOut os ∧ InNestedOrder (axes ps b) os)) ∧
    (of ps b = .leaf ∨ of ps b = .empty → overlays (of ps b) = []) ∧
    ∀ os, of ps b = .fanOut os → overlays (of ps b) = os := by
  have hempty : product (axes ps b) ≠ [] → ¬ ∃ axis ∈ axes ps b, axis.2.choices = [] :=
    mt product_eq_nil_iff.2
  refine ⟨isAxes ps b, fun axis _ => axis.2.chooses_choices, ?_⟩
  rcases of_cases ps b with ⟨hnone, hof⟩ | ⟨⟨axis, haxis, henum⟩, hnil, hof⟩ |
    ⟨⟨axis, haxis, henum⟩, hne, hof⟩
  · rw [hof]
    refine ⟨iff_of_true rfl hnone, fun ⟨axis, haxis, henum⟩ => ?_, fun _ => rfl, by simp⟩
    rw [hnone axis haxis] at henum
    cases henum
  · have hleaf : ¬ ∀ axis ∈ axes ps b, axis.2.isEnumerable = false := fun h => by
      rw [h axis haxis] at henum
      cases henum
    obtain ⟨axis', haxis', hchoices⟩ := product_eq_nil_iff.1 hnil
    rw [hof]
    refine ⟨iff_of_false (by simp) hleaf, fun _ => ⟨iff_of_true rfl ⟨axis', haxis', hchoices⟩, ?_⟩,
      fun _ => rfl, by simp⟩
    intro h
    exact absurd hchoices (h axis' haxis')
  · have hleaf : ¬ ∀ axis ∈ axes ps b, axis.2.isEnumerable = false := fun h => by
      rw [h axis haxis] at henum
      cases henum
    rw [hof]
    refine ⟨iff_of_false (by simp) hleaf, fun _ => ⟨iff_of_false (by simp) (hempty hne), fun _ => ?_⟩,
      by simp, fun os hos => fanOut.inj hos⟩
    exact ⟨_, rfl, inNestedOrder (nodup_axes ps b)⟩

/-- A name that comes again makes no other axis, and one that is not bound makes none. -/
example :
    (overlays (of (["b", "u", "a", "b"].map .ofName)
      (.ofList [("a", .range 1 2), ("b", .seq [.str "x", .str "y"])]))).map
        (fun o => o.entries.map fun e => (e.1, e.2.pathText?)) =
      [[("b", some "x"), ("a", some "1")], [("b", some "x"), ("a", some "2")],
        [("b", some "y"), ("a", some "1")], [("b", some "y"), ("a", some "2")]] := by decide +kernel

end Expansion

end Stencil
