import Mathlib.Data.List.Basic
import Stencil.Proofs.KeyedList
import Stencil.Proofs.Placeholder.Scan
import Stencil.Tree.Build
/-!
# Narrowing

The bindings that a path leads to are found by fixing its names one after the other, each to every
value of its choice in turn.  A name that is fixed already changes nothing when it comes again, so a
path can be narrowed by piece.

    narrowings (ms ++ ns) b = (narrowings ms b).flatMap (narrowings ns)   (`narrowings_append`)
    b.Flat → variants path b = narrowings (names of path) b               (`variants_eq_narrowings`)
-/

namespace Stencil.Bindings

/-- The elements of enumerable values are not enumerable themselves. -/
def Flat (b : Bindings) : Prop :=
  ∀ name v items, b.find? name = some v → v.elements? = some items →
    ∀ item ∈ items, item.isEnumerable = false

theorem flat_iff {b : Bindings} :
    b.Flat ↔ ∀ e ∈ b.entries, ∀ item ∈ e.2.elements?.getD [], item.isEnumerable = false := by
  constructor
  · intro h e he item hitem
    cases hitems : e.2.elements? with
    | none => rw [hitems] at hitem; cases hitem
    | some items =>
      rw [hitems] at hitem
      exact h e.1 e.2 items (KeyedList.lookup_of_mem b.nodup he) hitems item hitem
  · intro h name v items hv hitems item hitem
    have hmem := h (name, v) (KeyedList.mem_of_lookup hv) item
    rw [hitems] at hmem
    exact hmem hitem

instance (b : Bindings) : Decidable b.Flat := decidable_of_iff _ flat_iff.symm

/-- The name cannot fan out: it is unbound or its value is not enumerable. -/
def Settled (b : Bindings) (name : String) : Prop :=
  ∀ v, b.find? name = some v → v.isEnumerable = false

/-- Each name in turn is fixed to each value of its choice; an unbound name is passed over. -/
def narrowings : List String → Bindings → List Bindings
  | [], b => [b]
  | name :: names, b =>
    match b.find? name with
    | none => narrowings names b
    | some v => v.choices.flatMap fun choice => narrowings names (b.insert name choice)

end Bindings

namespace Value

theorem elements?_of_not_isEnumerable {v : Value} (h : v.isEnumerable = false) :
    v.elements? = none := by
  cases v <;> first | rfl | cases h

theorem choices_of_not_isEnumerable {v : Value} (h : v.isEnumerable = false) : v.choices = [v] := by
  rw [choices, elements?_of_not_isEnumerable h]
  rfl

end Value

namespace Bindings

open KeyedList

/-! ## Names that are fixed -/

theorem narrowings_cons_none {b : Bindings} {name : String} (h : b.find? name = none)
    (names : List String) : narrowings (name :: names) b = narrowings names b := by
  simp only [narrowings, h]

theorem narrowings_cons_some {b : Bindings} {name : String} {v : Value} (h : b.find? name = some v)
    (names : List String) : narrowings (name :: names) b =
      v.choices.flatMap fun choice => narrowings names (b.insert name choice) := by
  simp only [narrowings, h]

/-- A settled name changes nothing. -/
theorem narrowings_cons_settled {b : Bindings} {name : String} (h : b.Settled name)
    (names : List String) : narrowings (name :: names) b = narrowings names b := by
  cases hv : b.find? name with
  | none => exact narrowings_cons_none hv names
  | some v =>
    rw [narrowings_cons_some hv, Value.choices_of_not_isEnumerable (h v hv), List.flatMap_singleton,
      insert_of_find? hv]

theorem narrowings_of_settled {b : Bindings} {names : List String}
    (h : ∀ name ∈ names, b.Settled name) : narrowings names b = [b] := by
  induction names with
  | nil => rfl
  | cons name names ih =>
    rw [narrowings_cons_settled (h name List.mem_cons_self)]
    exact ih fun n hn => h n (List.mem_cons_of_mem _ hn)

theorem narrowings_append (ms ns : List String) (b : Bindings) :
    narrowings (ms ++ ns) b = (narrowings ms b).flatMap (narrowings ns) := by
  induction ms generalizing b with
  | nil => simp [narrowings]
  | cons name ms ih =>
    rw [List.cons_append]
    cases hv : b.find? name with
    | none => rw [narrowings_cons_none hv, narrowings_cons_none hv, ih]
    | some v =>
      rw [narrowings_cons_some hv, narrowings_cons_some hv, List.flatMap_assoc]
      exact List.flatMap_congr fun choice _ => ih _

theorem Settled.insert {b : Bindings} {name : String} (h : b.Settled name) {name' : String}
    {v : Value} (hv : name' = name → v.isEnumerable = false) : Settled (b.insert name' v) name := by
  intro w hw
  rw [find?_insert] at hw
  split at hw
  · next e =>
    obtain rfl := Option.some.inj hw
    exact hv e.symm
  · exact h w hw

/-- A settled name can be left out wherever it stands. -/
theorem narrowings_filter_settled {b : Bindings} {name : String} (h : b.Settled name)
    (names : List String) :
    narrowings (names.filter fun n => !(n == name)) b = narrowings names b := by
  induction names generalizing b with
  | nil => rfl
  | cons n names ih =>
    by_cases hn : n = name
    · subst hn
      rw [narrowings_cons_settled h, ← ih h]
      simp
    · have hkeep : (!(n == name)) = true := by simpa using hn
      rw [List.filter_cons_of_pos (by simpa using hn)]
      cases hv : b.find? n with
      | none => rw [narrowings_cons_none hv, narrowings_cons_none hv, ih h]
      | some v =>
        rw [narrowings_cons_some hv, narrowings_cons_some hv]
        exact List.flatMap_congr fun choice _ => ih (h.insert fun e => absurd e hn)

/-! ## What narrowing keeps -/

/-- The same names in the same order, and what cannot fan out is as it was. -/
structure Narrows (b b' : Bindings) : Prop where
  keys : b'.keys = b.keys
  find? : ∀ name, b.Settled name → b'.find? name = b.find? name

theorem Narrows.refl (b : Bindings) : Narrows b b := ⟨rfl, fun _ _ => rfl⟩

theorem Narrows.settled {b b' : Bindings} (h : Narrows b b') {name : String} (hn : b.Settled name) :
    b'.Settled name := by
  intro v hv
  rw [h.find? name hn] at hv
  exact hn v hv

theorem Narrows.trans {b b' b'' : Bindings} (h : Narrows b b') (h' : Narrows b' b'') :
    Narrows b b'' :=
  ⟨h'.keys.trans h.keys, fun name hn => (h'.find? name (h.settled hn)).trans (h.find? name hn)⟩

theorem Narrows.contains {b b' : Bindings} (h : Narrows b b') (name : String) :
    b'.contains name = b.contains name := by
  rw [Bool.eq_iff_iff, ← mem_keys_iff, ← mem_keys_iff, h.keys]

theorem Narrows.insert {b : Bindings} {name : String} {v : Value} (hv : b.find? name = some v)
    {choice : Value} (hchoice : choice ∈ v.choices) : Narrows b (b.insert name choice) := by
  refine ⟨keys_insert_of_contains (contains_of_find? hv) choice, fun n hn => ?_⟩
  rw [find?_insert]
  split
  · next e =>
    subst e
    rw [Value.choices_of_not_isEnumerable (hn v hv)] at hchoice
    rw [hv, List.mem_singleton.1 hchoice]
  · rfl

theorem Narrows.of_mem_narrowings {b b' : Bindings} {names : List String}
    (hmem : b' ∈ narrowings names b) : Narrows b b' := by
  induction names generalizing b with
  | nil =>
    obtain rfl : b' = b := by simpa [narrowings] using hmem
    exact .refl b'
  | cons name names ih =>
    cases hv : b.find? name with
    | none =>
      rw [narrowings_cons_none hv] at hmem
      exact ih hmem
    | some v =>
      rw [narrowings_cons_some hv, List.mem_flatMap] at hmem
      obtain ⟨choice, hchoice, hmem⟩ := hmem
      exact (Narrows.insert hv hchoice).trans (ih hmem)

/-! ## Flat bindings -/

theorem Flat.choices {b : Bindings} (h : b.Flat) {name : String} {v : Value}
    (hv : b.find? name = some v) : ∀ choice ∈ v.choices, choice.isEnumerable = false := by
  intro choice hchoice
  cases hitems : v.elements? with
  | some items =>
    rw [Value.choices, hitems] at hchoice
    exact h name v items hv hitems choice hchoice
  | none =>
    rw [Value.choices, hitems] at hchoice
    obtain rfl : choice = v := by simpa using hchoice
    cases choice <;> first | rfl | cases hitems

theorem Flat.insert {b : Bindings} (h : b.Flat) {v : Value} (hv : v.isEnumerable = false)
    (name : String) : Flat (b.insert name v) := by
  intro name' w items hw hitems
  rw [find?_insert] at hw
  split at hw
  · obtain rfl := Option.some.inj hw
    rw [Value.elements?_of_not_isEnumerable hv] at hitems
    cases hitems
  · exact h name' w items hw hitems

/-- Names that come again are not fixed again. -/
theorem narrowings_eraseDups {b : Bindings} (h : b.Flat) (names : List String) :
    narrowings names.eraseDups b = narrowings names b := by
  match names with
  | [] => simp
  | name :: names =>
    have hlength := List.length_filter_le (fun n => !(n == name)) names
    rw [List.eraseDups_cons]
    cases hv : b.find? name with
    | none =>
      rw [narrowings_cons_none hv, narrowings_cons_none hv, narrowings_eraseDups h]
      exact narrowings_filter_settled (fun v e => by rw [hv] at e; cases e) names
    | some v =>
      rw [narrowings_cons_some hv, narrowings_cons_some hv]
      refine List.flatMap_congr fun choice hchoice => ?_
      have hfixed := h.choices hv choice hchoice
      rw [narrowings_eraseDups (h.insert hfixed name)]
      refine narrowings_filter_settled (fun w hw => ?_) names
      rw [find?_insert, if_pos rfl] at hw
      exact Option.some.inj hw ▸ hfixed
termination_by names.length
decreasing_by all_goals exact Nat.lt_succ_of_le hlength

/-- Flat bindings stay flat, and the names they are narrowed by are settled. -/
theorem Flat.of_mem_narrowings {b b' : Bindings} {names : List String} (h : b.Flat)
    (hmem : b' ∈ narrowings names b) : b'.Flat ∧ ∀ name ∈ names, b'.Settled name := by
  induction names generalizing b with
  | nil =>
    obtain rfl : b' = b := by simpa [narrowings] using hmem
    exact ⟨h, by simp⟩
  | cons name names ih =>
    cases hv : b.find? name with
    | none =>
      rw [narrowings_cons_none hv] at hmem
      obtain ⟨hflat, hsettled⟩ := ih h hmem
      refine ⟨hflat, fun n hn => ?_⟩
      rcases List.mem_cons.1 hn with rfl | hn
      · refine (Narrows.of_mem_narrowings hmem).settled fun w hw => ?_
        rw [hv] at hw
        cases hw
      · exact hsettled n hn
    | some v =>
      rw [narrowings_cons_some hv, List.mem_flatMap] at hmem
      obtain ⟨choice, hchoice, hmem⟩ := hmem
      have hfixed := h.choices hv choice hchoice
      obtain ⟨hflat, hsettled⟩ := ih (h.insert hfixed name) hmem
      refine ⟨hflat, fun n hn => ?_⟩
      rcases List.mem_cons.1 hn with rfl | hn
      · refine (Narrows.of_mem_narrowings hmem).settled fun w hw => ?_
        rw [find?_insert, if_pos rfl] at hw
        exact Option.some.inj hw ▸ hfixed
      · exact hsettled n hn

end Bindings

/-! ## The product of the axes -/

namespace Expansion

open Bindings KeyedList

theorem map_fst_of_mem_product {axes : List (String × Value)} {o : List (String × Value)}
    (h : o ∈ product axes) : o.map Prod.fst = axes.map Prod.fst := by
  induction axes generalizing o with
  | nil =>
    obtain rfl : o = [] := by simpa [product] using h
    rfl
  | cons axis axes ih =>
    obtain ⟨name, value⟩ := axis
    rw [product, List.mem_flatMap] at h
    obtain ⟨choice, -, h⟩ := h
    obtain ⟨o', ho', rfl⟩ := List.mem_map.1 h
    rw [List.map_cons, List.map_cons, ih ho']

/-- The overlays of distinct names, put over bindings one by one, are the narrowings. -/
theorem map_insertAll_product {names : List String} (hnodup : names.Nodup) (b b' : Bindings)
    (hsame : ∀ name ∈ names, b'.find? name = b.find? name) :
    (product (names.filterMap fun name => (b.find? name).map fun value => (name, value))).map
      b'.insertAll = narrowings names b' := by
  induction names generalizing b' with
  | nil => rfl
  | cons name names ih =>
    rw [List.nodup_cons] at hnodup
    have hname := hsame name List.mem_cons_self
    cases hv : b.find? name with
    | none =>
      rw [hv] at hname
      rw [List.filterMap_cons_none (by rw [hv]; rfl), narrowings_cons_none hname]
      exact ih hnodup.2 b' fun n hn => hsame n (List.mem_cons_of_mem _ hn)
    | some v =>
      rw [hv] at hname
      rw [List.filterMap_cons_some (by rw [hv]; rfl), narrowings_cons_some hname, product,
        List.map_flatMap]
      refine List.flatMap_congr fun choice _ => ?_
      rw [List.map_map, ← ih hnodup.2 (b'.insert name choice)]
      · rfl
      · intro n hn
        rw [find?_insert, if_neg]
        · exact hsame n (List.mem_cons_of_mem _ hn)
        · rintro rfl
          exact hnodup.1 hn

theorem map_fst_axes (placeholders : List Placeholder) (b : Bindings) :
    (axes placeholders b).map Prod.fst = (distinctNames placeholders).filter b.contains := by
  rw [axes]
  induction distinctNames placeholders with
  | nil => rfl
  | cons name names ih =>
    cases hv : b.find? name with
    | none =>
      rw [List.filterMap_cons_none (by rw [hv]; rfl), ih,
        List.filter_cons_of_neg (by simp [contains, hv])]
    | some v =>
      rw [List.filterMap_cons_some (by rw [hv]; rfl), List.map_cons, ih,
        List.filter_cons_of_pos (contains_of_find? hv)]

theorem nodup_eraseDups (names : List String) : names.eraseDups.Nodup := by
  match names with
  | [] => simp
  | name :: names =>
    have hlength := List.length_filter_le (fun n => !(n == name)) names
    rw [List.eraseDups_cons, List.nodup_cons]
    refine ⟨fun h => ?_, nodup_eraseDups _⟩
    have := List.mem_eraseDups.1 h
    simp at this
termination_by names.length
decreasing_by exact Nat.lt_succ_of_le hlength

/-- No two axes have the same name. -/
theorem nodup_axes (placeholders : List Placeholder) (b : Bindings) :
    ((axes placeholders b).map Prod.fst).Nodup := by
  rw [map_fst_axes]
  exact (nodup_eraseDups _).filter _

/-- An overlay that is put over the bindings is what their axes are then. -/
theorem axes_insertAll_of_mem_product {placeholders : List Placeholder} {b : Bindings}
    {o : List (String × Value)} (h : o ∈ product (axes placeholders b)) :
    axes placeholders (b.insertAll o) = o := by
  have hkeys : o.map Prod.fst = (distinctNames placeholders).filter b.contains := by
    rw [map_fst_of_mem_product h, map_fst_axes]
  have hnodup : (o.map Prod.fst).Nodup := by
    rw [map_fst_of_mem_product h]
    exact nodup_axes placeholders b
  rw [axes]
  conv_rhs => rw [← filterMap_lookup hnodup, hkeys, List.filterMap_filter]
  refine List.filterMap_congr fun name hname => ?_
  rw [find?_insertAll hnodup]
  cases hbound : b.contains name with
  | true =>
    have hmem : name ∈ o.map Prod.fst := by
      rw [hkeys]
      exact List.mem_filter.2 ⟨hname, hbound⟩
    obtain ⟨e, he, rfl⟩ := List.mem_map.1 hmem
    rw [lookup_of_mem hnodup (k := e.1) (v := e.2) he]
    rfl
  | false =>
    have hnot : name ∉ o.map Prod.fst := by
      rw [hkeys]
      intro hmem
      rw [(List.mem_filter.1 hmem).2] at hbound
      cases hbound
    have hunbound : b.find? name = none := by simpa [contains] using hbound
    rw [lookup_eq_none_of_not_mem hnot, hunbound]
    rfl

/-- An unbound name can be left out. -/
theorem narrowings_filter_contains (b : Bindings) (names : List String) :
    narrowings (names.filter b.contains) b = narrowings names b := by
  suffices h : ∀ b' : Bindings, (∀ name, b'.contains name = b.contains name) →
      narrowings (names.filter b.contains) b' = narrowings names b' from h b fun _ => rfl
  intro b' hb'
  induction names generalizing b' with
  | nil => rfl
  | cons name names ih =>
    cases hv : b'.find? name with
    | none =>
      have hunbound : b.contains name = false := by rw [← hb', contains, hv]; rfl
      rw [List.filter_cons_of_neg (by simp [hunbound]), narrowings_cons_none hv, ih b' hb']
    | some v =>
      have hbound : b.contains name = true := by rw [← hb', contains_of_find? hv]
      rw [List.filter_cons_of_pos hbound, narrowings_cons_some hv, narrowings_cons_some hv]
      refine List.flatMap_congr fun choice _ => ih _ fun n => ?_
      rw [contains_insert, hb']
      by_cases hn : n = name
      · subst hn
        simp [hbound]
      · simp [hn]

end Expansion

namespace TemplateTree

open Bindings Expansion KeyedList

/-- The names of the placeholders of a path, in order. -/
def namesOf (path : String) : List String := (Placeholder.scan path).map (·.name)

theorem namesOf_append_separator (a b : String) :
    namesOf (a ++ "/" ++ b) = namesOf a ++ namesOf b := by
  rw [namesOf, Placeholder.scan_append_separator, List.map_append]
  rfl

theorem map_name_bound (path : String) (b : Bindings) :
    (Placeholder.bound path b).map (·.name) = (namesOf path).filter b.contains := by
  rw [namesOf, List.filter_map]
  rfl

theorem bound_of_narrows {b b' : Bindings} (h : Narrows b b') (path : String) :
    Placeholder.bound path b' = Placeholder.bound path b := by
  rw [Placeholder.bound, Placeholder.bound]
  exact List.filter_congr fun p _ => h.contains p.name

theorem mem_axes_iff {path : String} {b : Bindings} {axis : String × Value} :
    axis ∈ axes (Placeholder.bound path b) b ↔
      axis.1 ∈ namesOf path ∧ b.find? axis.1 = some axis.2 := by
  rw [axes, List.mem_filterMap]
  constructor
  · rintro ⟨name, hname, haxis⟩
    obtain ⟨v, hv, rfl⟩ := Option.map_eq_some_iff.1 haxis
    rw [distinctNames, List.mem_eraseDups, map_name_bound, List.mem_filter] at hname
    exact ⟨hname.1, hv⟩
  · rintro ⟨hname, hv⟩
    refine ⟨axis.1, ?_, by rw [hv]; rfl⟩
    rw [distinctNames, List.mem_eraseDups, map_name_bound, List.mem_filter]
    exact ⟨hname, contains_of_find? hv⟩

theorem expansionOf_eq_leaf {path : String} {b : Bindings}
    (h : ∀ axis ∈ axes (Placeholder.bound path b) b, axis.2.isEnumerable = false) :
    expansionOf path b = .leaf := by
  have hany : ((axes (Placeholder.bound path b) b).any fun axis => axis.2.isEnumerable) = false := by
    rw [List.any_eq_false]
    intro axis haxis
    rw [h axis haxis]
    exact Bool.false_ne_true
  rw [expansionOf, Expansion.of]
  simp only [hany]
  rfl

theorem expansionOf_of_settled {path : String} {b : Bindings}
    (h : ∀ name ∈ namesOf path, b.Settled name) : expansionOf path b = .leaf :=
  expansionOf_eq_leaf fun axis haxis =>
    h axis.1 (mem_axes_iff.1 haxis).1 axis.2 (mem_axes_iff.1 haxis).2

/-- What an expansion is, by its axes. -/
theorem of_cases (placeholders : List Placeholder) (b : Bindings) :
    (∀ axis ∈ axes placeholders b, axis.2.isEnumerable = false) ∧
        Expansion.of placeholders b = .leaf ∨
      (∃ axis ∈ axes placeholders b, axis.2.isEnumerable = true) ∧
        product (axes placeholders b) = [] ∧ Expansion.of placeholders b = .empty ∨
      (∃ axis ∈ axes placeholders b, axis.2.isEnumerable = true) ∧
        product (axes placeholders b) ≠ [] ∧
        Expansion.of placeholders b = .fanOut ((product (axes placeholders b)).map ofList) := by
  rw [Expansion.of]
  cases hany : (axes placeholders b).any fun axis => axis.2.isEnumerable with
  | false => exact .inl ⟨by simpa using hany, rfl⟩
  | true =>
    simp only [if_true]
    cases hproduct : product (axes placeholders b) with
    | nil => exact .inr (.inl ⟨List.any_eq_true.1 hany, rfl, rfl⟩)
    | cons o os => exact .inr (.inr ⟨List.any_eq_true.1 hany, List.cons_ne_nil o os, rfl⟩)

/-- What the expansion of a path is, by its axes. -/
theorem expansionOf_cases (path : String) (b : Bindings) :
    (∀ axis ∈ axes (Placeholder.bound path b) b, axis.2.isEnumerable = false) ∧
        expansionOf path b = .leaf ∨
      product (axes (Placeholder.bound path b) b) = [] ∧ expansionOf path b = .empty ∨
      expansionOf path b = .fanOut ((product (axes (Placeholder.bound path b) b)).map ofList) := by
  rcases of_cases (Placeholder.bound path b) b with hleaf | ⟨-, hempty⟩ | ⟨-, -, hfan⟩
  · exact .inl hleaf
  · exact .inr (.inl hempty)
  · exact .inr (.inr hfan)

/-- The nodes of an entry have the narrowings by the distinct names in its own name. -/
theorem variants_eq_distinct (path : String) (b : Bindings) :
    variants path b = narrowings (distinctNames (Placeholder.bound path b)) b := by
  by_cases hany : ((axes (Placeholder.bound path b) b).any fun axis => axis.2.isEnumerable) = true
  · have hproduct := map_insertAll_product
      (nodup_eraseDups ((Placeholder.bound path b).map (·.name))) b b fun _ _ => rfl
    have hmerge : (product (axes (Placeholder.bound path b) b)).map (fun o => b.merge (ofList o)) =
        narrowings (distinctNames (Placeholder.bound path b)) b := by
      rw [distinctNames, ← hproduct]
      refine List.map_congr_left fun o ho => merge_ofList b ?_
      rw [map_fst_of_mem_product ho]
      exact nodup_axes _ b
    rw [← hmerge, variants, expansionOf, Expansion.of]
    simp only [hany, if_true]
    cases hoverlays : product (axes (Placeholder.bound path b) b) with
    | nil => rfl
    | cons o os => simp
  · have hsettled : ∀ name ∈ distinctNames (Placeholder.bound path b), b.Settled name := by
      intro name hname v hv
      rw [Bool.not_eq_true, List.any_eq_false] at hany
      have hmem : (name, v) ∈ axes (Placeholder.bound path b) b :=
        List.mem_filterMap.2 ⟨name, hname, by rw [hv]; rfl⟩
      simpa using hany (name, v) hmem
    rw [narrowings_of_settled hsettled, variants, expansionOf, Expansion.of]
    simp only [hany]
    rfl

theorem narrows_of_mem_variants {path : String} {b b' : Bindings} (h : b' ∈ variants path b) :
    Narrows b b' := by
  rw [variants_eq_distinct] at h
  exact .of_mem_narrowings h

/-- The nodes of an entry have the overlays of its name put over the bindings. -/
theorem variants_eq_map_product (path : String) (b : Bindings) :
    variants path b = (product (axes (Placeholder.bound path b) b)).map b.insertAll := by
  rw [variants_eq_distinct]
  exact (map_insertAll_product (nodup_eraseDups _) b b fun _ _ => rfl).symm

/-- For flat bindings it does not matter that names come again. -/
theorem variants_eq_narrowings {b : Bindings} (h : b.Flat) (path : String) :
    variants path b = narrowings (namesOf path) b := by
  rw [variants_eq_distinct, distinctNames, narrowings_eraseDups h, map_name_bound,
    narrowings_filter_contains]

theorem length_product (axes : List (String × Value)) :
    (product axes).length = (axes.map fun axis => axis.2.choices.length).foldr (· * ·) 1 := by
  induction axes with
  | nil => rfl
  | cons axis axes ih =>
    obtain ⟨name, value⟩ := axis
    rw [product, List.length_flatMap, List.map_cons, List.foldr_cons, ← ih]
    generalize (product axes) = os
    generalize value.choices = cs
    induction cs with
    | nil => simp
    | cons c cs ihc =>
      rw [List.map_cons, List.sum_cons, ihc, List.length_map, List.length_cons, Nat.succ_mul,
        Nat.add_comm]

/-- Only enumerable axes count. -/
theorem length_product_enumerable (axes : List (String × Value)) :
    (product axes).length = ((axes.filter fun axis => axis.2.isEnumerable).map
      fun axis => axis.2.choices.length).foldr (· * ·) 1 := by
  rw [length_product]
  induction axes with
  | nil => rfl
  | cons axis axes ih =>
    cases h : axis.2.isEnumerable with
    | true => simp only [List.filter_cons, h, if_true, List.map_cons, List.foldr_cons, ih]
    | false =>
      have hone : axis.2.choices.length = 1 := by rw [Value.choices_of_not_isEnumerable h]; rfl
      simp only [List.filter_cons, h, List.map_cons, List.foldr_cons, ih, hone, Nat.one_mul]
      rfl

/-- As many nodes as the lengths of the distinct enumerable values of a path multiply to. -/
theorem length_variants (path : String) (b : Bindings) :
    (variants path b).length =
      (((axes (Placeholder.bound path b) b).filter fun axis => axis.2.isEnumerable).map
        fun axis => axis.2.choices.length).foldr (· * ·) 1 := by
  rw [variants, expansionOf, Expansion.of]
  by_cases hany : ((axes (Placeholder.bound path b) b).any fun axis => axis.2.isEnumerable) = true
  · rw [← length_product_enumerable]
    simp only [hany, if_true]
    cases product (axes (Placeholder.bound path b) b) <;> simp
  · have hnone : ((axes (Placeholder.bound path b) b).filter fun axis => axis.2.isEnumerable) = [] := by
      rw [List.filter_eq_nil_iff]
      rw [Bool.not_eq_true, List.any_eq_false] at hany
      exact hany
    rw [hnone]
    simp only [hany]
    rfl

end TemplateTree

end Stencil
