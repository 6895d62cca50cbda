import Mathlib.Data.List.Induction
import Mathlib.Data.List.Nodup
import Stencil.Proofs.KeyedList
import Stencil.Sorted
/-!
# Laws of lists sorted by name

A sorted list is told by what stands under each name, so how it was put together does not matter: of the
pairs with one name the last stays.

    (put name v es).lookup k = if k = name then some v else es.lookup k      (`lookup_put`)
    (ofList pairs).lookup k = pairs.reverse.lookup k                         (`lookup_ofList`)
    ((ofList pairs).map Prod.fst).Pairwise (· < ·)                           (`pairwise_ofList`)
    (pairs.map Prod.fst).Nodup → (ofList pairs).Perm pairs                   (`perm_ofList`)
    (pairs.map Prod.fst).Pairwise (· < ·) → ofList pairs = pairs             (`ofList_of_pairwise`)
-/

namespace Stencil.Sorted

open KeyedList (lookup_cons_eq)

universe u

variable {α : Type u} {es : List (String × α)} {name : String} {v : α}

/-! ## Putting one pair -/

theorem lookup_put (name k : String) (v : α) (es : List (String × α)) :
    (put name v es).lookup k = if k = name then some v else es.lookup k := by
  induction es with
  | nil => rw [put, lookup_cons_eq]
  | cons e es ih =>
    obtain ⟨n, w⟩ := e
    rw [put]
    by_cases heq : name = n
    · subst heq
      rw [if_pos rfl, lookup_cons_eq, lookup_cons_eq]
      by_cases hk : k = name
      · rw [if_pos hk, if_pos hk]
      · rw [if_neg hk, if_neg hk, if_neg hk]
    · rw [if_neg heq]
      by_cases hlt : name < n
      · rw [if_pos hlt, lookup_cons_eq]
      · rw [if_neg hlt, lookup_cons_eq, lookup_cons_eq, ih]
        by_cases hk : k = n
        · subst hk
          rw [if_pos rfl, if_pos rfl, if_neg (Ne.symm heq)]
        · rw [if_neg hk, if_neg hk]

/-! ## Sorted lists -/

theorem nodup_of_nodup_keys (h : (es.map Prod.fst).Nodup) : es.Nodup :=
  List.Pairwise.of_map Prod.fst (fun _ _ hne heq => hne (congrArg Prod.fst heq)) h

theorem nodup_of_pairwise (h : (es.map Prod.fst).Pairwise (· < ·)) : (es.map Prod.fst).Nodup :=
  h.imp String.ne_of_lt

/-- Lists with distinct names that have the same under each name have the same pairs. -/
theorem perm_of_lookup {es' : List (String × α)} (hes : (es.map Prod.fst).Nodup)
    (hes' : (es'.map Prod.fst).Nodup) (h : ∀ name, es.lookup name = es'.lookup name) : es.Perm es' := by
  rw [List.perm_ext_iff_of_nodup (nodup_of_nodup_keys hes) (nodup_of_nodup_keys hes')]
  intro e
  constructor
  · intro he
    exact KeyedList.mem_of_lookup ((h e.1).symm.trans (KeyedList.lookup_of_mem hes he))
  · intro he
    exact KeyedList.mem_of_lookup ((h e.1).trans (KeyedList.lookup_of_mem hes' he))

theorem eq_of_perm {es' : List (String × α)} (hes : (es.map Prod.fst).Pairwise (· < ·))
    (hes' : (es'.map Prod.fst).Pairwise (· < ·)) (hperm : es.Perm es') : es = es' := by
  refine hperm.eq_of_pairwise (fun e e' _ _ hlt hgt => ?_) (List.pairwise_map.1 hes)
    (List.pairwise_map.1 hes')
  exact absurd (String.lt_trans hlt hgt) (String.lt_irrefl e.1)

/-- A sorted list is told by what stands under each name. -/
theorem ext_lookup {es' : List (String × α)} (hes : (es.map Prod.fst).Pairwise (· < ·))
    (hes' : (es'.map Prod.fst).Pairwise (· < ·)) (h : ∀ name, es.lookup name = es'.lookup name) :
    es = es' :=
  eq_of_perm hes hes' (perm_of_lookup (nodup_of_pairwise hes) (nodup_of_pairwise hes') h)

/-! ## Sorting -/

theorem ofList_concat (pairs : List (String × α)) (name : String) (v : α) :
    ofList (pairs ++ [(name, v)]) = put name v (ofList pairs) := by
  rw [ofList, List.foldl_append]
  rfl

theorem pairwise_ofList (pairs : List (String × α)) : ((ofList pairs).map Prod.fst).Pairwise (· < ·) := by
  induction pairs using List.reverseRecOn with
  | nil => exact List.Pairwise.nil
  | append_singleton pairs e ih =>
    rw [ofList_concat]
    exact pairwise_put ih

theorem nodup_ofList (pairs : List (String × α)) : ((ofList pairs).map Prod.fst).Nodup :=
  nodup_of_pairwise (pairwise_ofList pairs)

/-- Of the pairs with one name the last counts. -/
theorem lookup_ofList (pairs : List (String × α)) (k : String) :
    (ofList pairs).lookup k = pairs.reverse.lookup k := by
  induction pairs using List.reverseRecOn with
  | nil => rfl
  | append_singleton pairs e ih =>
    obtain ⟨n, w⟩ := e
    rw [ofList_concat, lookup_put, ih, List.reverse_append, List.reverse_singleton,
      List.singleton_append, lookup_cons_eq]

/-- Every name stays. -/
theorem mem_map_fst_ofList {pairs : List (String × α)} {k : String} :
    k ∈ (ofList pairs).map Prod.fst ↔ k ∈ pairs.map Prod.fst := by
  rw [KeyedList.mem_map_fst_iff, lookup_ofList, ← KeyedList.mem_map_fst_iff, List.map_reverse,
    List.mem_reverse]

/-- Pairs with distinct names all stay. -/
theorem perm_ofList {pairs : List (String × α)} (h : (pairs.map Prod.fst).Nodup) :
    (ofList pairs).Perm pairs := by
  have hreverse : (pairs.reverse.map Prod.fst).Nodup := by
    rw [List.map_reverse]
    exact List.nodup_reverse.2 h
  exact (perm_of_lookup (nodup_ofList pairs) hreverse (lookup_ofList pairs)).trans pairs.reverse_perm

theorem ofList_of_pairwise {pairs : List (String × α)} (h : (pairs.map Prod.fst).Pairwise (· < ·)) :
    ofList pairs = pairs :=
  eq_of_perm (pairwise_ofList pairs) h (perm_ofList (nodup_of_pairwise h))

end Stencil.Sorted
