import Mathlib.Data.List.Basic
import Mathlib.Data.List.Induction
import Stencil.KeyedList
/-!
# Laws of keyed lists

Entries that are put over themselves change nothing, and a list of pairs with distinct names keeps
its pairs as they are.

    l.find? k = some v → l.insert k v = l                              (`insert_of_find?`)
    (es.map Prod.fst).Nodup → l.merge (ofList es) = l.insertAll es     (`merge_ofList`)
    (l.insertAll es).find? k = (es.lookup k).or (l.find? k)            (`find?_insertAll`)
    (l.insertAll es).keys = (l.keys ++ es.map Prod.fst).eraseDups      (`keys_insertAll`)
    (ofList es).find? k = es.reverse.lookup k                          (`find?_ofList`)
-/

namespace Stencil.KeyedList

universe u

variable {α : Type u}

theorem lookup_cons_eq (n k : String) (v : α) (es : List (String × α)) :
    ((n, v) :: es).lookup k = if k = n then some v else es.lookup k := by
  by_cases h : k = n
  · subst h
    simp
  · have hbeq : (k == n) = false := by simpa using h
    rw [List.lookup_cons, hbeq, if_neg h]

theorem lookup_of_mem {es : List (String × α)} (hnodup : (es.map Prod.fst).Nodup) {k : String} {v : α}
    (h : (k, v) ∈ es) : es.lookup k = some v := by
  obtain ⟨l₁, l₂, rfl⟩ := List.append_of_mem h
  rw [List.lookup_eq_some_iff]
  refine ⟨l₁, l₂, rfl, fun e he => ?_⟩
  rw [List.map_append, List.map_cons, List.nodup_append] at hnodup
  rw [bne_iff_ne]
  exact (hnodup.2.2 e.1 (List.mem_map_of_mem he) k List.mem_cons_self).symm

theorem put_of_lookup {k : String} {v : α} {es : List (String × α)} (h : es.lookup k = some v) :
    put k v es = es := by
  induction es with
  | nil => simp at h
  | cons e es ih =>
    obtain ⟨k', v'⟩ := e
    rw [lookup_cons_eq] at h
    by_cases hk : k = k'
    · subst hk
      rw [if_pos rfl] at h
      obtain rfl := Option.some.inj h
      rw [put, if_pos rfl]
    · rw [if_neg hk] at h
      rw [put, if_neg (Ne.symm hk), ih h]

/-- A value that is there already can be put again without change. -/
theorem insert_of_find? {l : KeyedList α} {k : String} {v : α} (h : l.find? k = some v) :
    l.insert k v = l :=
  ext_entries (put_of_lookup h)

theorem contains_insert (l : KeyedList α) (k k' : String) (v : α) :
    (l.insert k v).contains k' = (decide (k' = k) || l.contains k') := by
  rw [contains, contains, find?_insert]
  by_cases h : k' = k <;> simp [h]

theorem contains_of_find? {l : KeyedList α} {k : String} {v : α} (h : l.find? k = some v) :
    l.contains k = true := by
  simp [contains, h]

theorem mem_map_fst_iff {es : List (String × α)} {k : String} :
    k ∈ es.map Prod.fst ↔ (es.lookup k).isSome = true := by
  rw [List.mem_map]
  induction es with
  | nil => simp
  | cons e es ih =>
    obtain ⟨k', v'⟩ := e
    rw [lookup_cons_eq]
    by_cases hk : k = k'
    · subst hk
      simp
    · rw [if_neg hk, ← ih]
      simp [Ne.symm hk]

/-- A name of a list has something under it, which stands in the list with the name. -/
theorem exists_lookup {es : List (String × α)} {k : String} (h : k ∈ es.map Prod.fst) :
    ∃ v, es.lookup k = some v ∧ (k, v) ∈ es := by
  obtain ⟨v, hv⟩ := Option.isSome_iff_exists.1 (mem_map_fst_iff.1 h)
  exact ⟨v, hv, mem_of_lookup hv⟩

theorem mem_keys_iff {l : KeyedList α} {k : String} : k ∈ l.keys ↔ l.contains k = true :=
  mem_map_fst_iff

/-- Putting a value under a name that is present keeps the names and their order. -/
theorem keys_insert_of_contains {l : KeyedList α} {k : String} (h : l.contains k = true) (v : α) :
    (l.insert k v).keys = l.keys := by
  rw [keys_insert, if_pos (mem_keys_iff.2 h)]

theorem entries_insert_of_not_mem {l : KeyedList α} {k : String} (h : k ∉ l.keys) (v : α) :
    (l.insert k v).entries = l.entries ++ [(k, v)] := by
  rw [keys] at h
  show put k v l.entries = _
  generalize l.entries = es at h
  induction es with
  | nil => rfl
  | cons e es ih =>
    rw [List.map_cons, List.mem_cons, not_or] at h
    rw [put, if_neg (Ne.symm h.1), ih h.2, List.cons_append]

/-- New names go to the end in their order. -/
theorem entries_insertAll_of_disjoint {l : KeyedList α} {es : List (String × α)}
    (hnodup : (es.map Prod.fst).Nodup) (hnew : ∀ k ∈ es.map Prod.fst, k ∉ l.keys) :
    (l.insertAll es).entries = l.entries ++ es := by
  induction es generalizing l with
  | nil => simp
  | cons e es ih =>
    rw [List.map_cons, List.nodup_cons] at hnodup
    have hentries := entries_insert_of_not_mem (hnew e.1 (by simp)) e.2
    rw [insertAll_cons, ih hnodup.2, hentries, List.append_assoc, List.singleton_append]
    intro k hk hmem
    rw [keys, hentries, List.map_append, List.mem_append] at hmem
    rcases hmem with hmem | hmem
    · exact hnew k (by simp only [List.map_cons, List.mem_cons]; exact .inr hk) hmem
    · obtain rfl : k = e.1 := by simpa using hmem
      exact hnodup.1 hk

theorem entries_ofList {es : List (String × α)} (h : (es.map Prod.fst).Nodup) :
    (ofList es).entries = es :=
  entries_insertAll_of_disjoint h (by simp)

/-- A list with distinct names is put over another one pair by pair. -/
theorem merge_ofList (l : KeyedList α) {es : List (String × α)} (h : (es.map Prod.fst).Nodup) :
    l.merge (ofList es) = l.insertAll es := by
  rw [merge, entries_ofList h]

/-! ## Look-up -/

theorem lookup_eq_none_of_not_mem {es : List (String × α)} {k : String} (h : k ∉ es.map Prod.fst) :
    es.lookup k = none := by
  rw [List.lookup_eq_none_iff]
  intro e he
  rw [bne_iff_ne]
  rintro rfl
  exact h (List.mem_map_of_mem he)

theorem find?_insertAll {es : List (String × α)} (hnodup : (es.map Prod.fst).Nodup)
    (l : KeyedList α) (k : String) : (l.insertAll es).find? k = (es.lookup k).or (l.find? k) := by
  induction es generalizing l with
  | nil => rfl
  | cons e es ih =>
    obtain ⟨k', v⟩ := e
    rw [List.map_cons, List.nodup_cons] at hnodup
    rw [insertAll_cons, ih hnodup.2, find?_insert, lookup_cons_eq]
    by_cases hk : k = k'
    · subst hk
      rw [lookup_eq_none_of_not_mem hnodup.1, if_pos rfl, if_pos rfl]
      rfl
    · rw [if_neg hk, if_neg hk]

theorem filterMap_lookup {es : List (String × α)} (hnodup : (es.map Prod.fst).Nodup) :
    (es.map Prod.fst).filterMap (fun k => (es.lookup k).map fun v => (k, v)) = es := by
  rw [List.filterMap_map]
  have hsome : es.filterMap ((fun k => (es.lookup k).map fun v => (k, v)) ∘ Prod.fst) = es.filterMap some :=
    List.filterMap_congr fun e he => by
      simp only [Function.comp_apply]
      rw [lookup_of_mem hnodup (k := e.1) (v := e.2) he]
      rfl
  rw [hsome, List.filterMap_some]

/-! ## Lists with repeated names -/

theorem insertAll_concat (l : KeyedList α) (es : List (String × α)) (e : String × α) :
    l.insertAll (es ++ [e]) = (l.insertAll es).insert e.1 e.2 := by
  rw [insertAll, List.foldl_append]
  rfl

theorem eraseDups_of_nodup {names : List String} (h : names.Nodup) : names.eraseDups = names := by
  induction names with
  | nil => simp
  | cons name names ih =>
    rw [List.nodup_cons] at h
    have hkept : names.filter (fun n => !n == name) = names := by
      rw [List.filter_eq_self]
      intro n hn
      simp only [Bool.not_eq_true', beq_eq_false_iff_ne]
      rintro rfl
      exact h.1 hn
    rw [List.eraseDups_cons, hkept, ih h.2]

/-- One more name goes to the end if it is new. -/
theorem eraseDups_concat (names : List String) (name : String) :
    (names ++ [name]).eraseDups =
      if name ∈ names then names.eraseDups else names.eraseDups ++ [name] := by
  rw [List.eraseDups_append]
  by_cases hmem : name ∈ names
  · have hgone : [name].removeAll names = [] := by simpa [List.removeAll] using hmem
    rw [if_pos hmem, hgone, List.eraseDups_nil, List.append_nil]
  · have hkept : [name].removeAll names = [name] := by simpa [List.removeAll] using hmem
    rw [if_neg hmem, hkept]
    rfl

/-- The names stand in the order in which they come first. -/
theorem keys_insertAll (l : KeyedList α) (es : List (String × α)) :
    (l.insertAll es).keys = (l.keys ++ es.map Prod.fst).eraseDups := by
  induction es using List.reverseRecOn with
  | nil =>
    rw [insertAll_nil, List.map_nil, List.append_nil]
    exact (eraseDups_of_nodup l.nodup).symm
  | append_singleton es e ih =>
    rw [insertAll_concat, keys_insert, ih, List.map_append, List.map_singleton, ← List.append_assoc,
      eraseDups_concat]
    simp only [List.mem_eraseDups]

theorem keys_ofList (es : List (String × α)) : (ofList es).keys = (es.map Prod.fst).eraseDups := by
  rw [ofList, keys_insertAll, keys_empty, List.nil_append]

/-- Of the pairs with one name the last counts. -/
theorem find?_ofList (es : List (String × α)) (k : String) :
    (ofList es).find? k = es.reverse.lookup k := by
  induction es using List.reverseRecOn with
  | nil => rfl
  | append_singleton es e ih =>
    rw [ofList, insertAll_concat, find?_insert, ← ofList, ih, List.reverse_append,
      List.reverse_singleton, List.singleton_append, lookup_cons_eq]

end Stencil.KeyedList
