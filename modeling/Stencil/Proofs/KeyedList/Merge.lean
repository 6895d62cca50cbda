import Stencil.Proofs.KeyedList
/-!
# Merging keyed lists

A keyed list is told by its names in their order and by what stands under them.  Merging keeps the names of
the first list where they are, puts the new names of the second behind them, and takes every value from the
second list that has one.  So it is associative, with the list without names on either side as unit, and
merging a list once more changes nothing.

    a.keys = b.keys → (∀ k, a.find? k = b.find? k) → a = b                    (`ext_find?`)
    (a.merge b).find? k = (b.find? k).or (a.find? k)                          (`find?_merge`)
    (a.merge b).keys = a.keys ++ b.keys.filter (fun k => !a.contains k)       (`keys_merge`)
    (mergeAll parts).keys = (parts.flatMap keys).eraseDups                    (`keys_mergeAll`)
-/

namespace Stencil.KeyedList

universe u

variable {α : Type u}

/-! ## Algorithm -/

/-- Several lists put over each other, the first at the bottom. -/
def mergeAll (parts : List (KeyedList α)) : KeyedList α := parts.foldl merge empty

/-! ## Lemmas -/

theorem nodup_keys (l : KeyedList α) : l.keys.Nodup := l.nodup

theorem ext_find? {a b : KeyedList α} (hkeys : a.keys = b.keys) (hfind : ∀ k, a.find? k = b.find? k) :
    a = b := by
  apply ext_entries
  calc a.entries = a.keys.filterMap (fun k => (a.find? k).map fun v => (k, v)) :=
        (filterMap_lookup a.nodup).symm
    _ = b.keys.filterMap (fun k => (b.find? k).map fun v => (k, v)) := by
        simp only [hkeys, hfind]
    _ = b.entries := filterMap_lookup b.nodup

section
variable (a b : KeyedList α)

theorem find?_merge (k : String) : (a.merge b).find? k = (b.find? k).or (a.find? k) :=
  find?_insertAll b.nodup a k

theorem contains_merge (k : String) : (a.merge b).contains k = (a.contains k || b.contains k) := by
  unfold contains
  rw [find?_merge, Option.isSome_or, Bool.or_comm]

theorem keys_merge_eq_eraseDups : (a.merge b).keys = (a.keys ++ b.keys).eraseDups :=
  keys_insertAll a b.entries

theorem keys_merge : (a.merge b).keys = a.keys ++ b.keys.filter (fun k => !a.contains k) := by
  have hnew : b.keys.removeAll a.keys = b.keys.filter fun k => !a.contains k := by
    unfold List.removeAll
    apply List.filter_congr
    intro k _
    rw [Bool.eq_iff_iff]
    simp [mem_keys_iff]
  rw [keys_merge_eq_eraseDups, List.eraseDups_append, hnew, eraseDups_of_nodup a.nodup_keys,
    eraseDups_of_nodup (b.nodup_keys.filter _)]

end

/-! ## Units and repetitions -/

@[simp]
theorem empty_merge (a : KeyedList α) : empty.merge a = a := by
  apply ext_find?
  · simp [keys_merge, contains]
  · intro k
    simp [find?_merge]

@[simp]
theorem merge_empty (a : KeyedList α) : a.merge empty = a := rfl

@[simp]
theorem merge_self (a : KeyedList α) : a.merge a = a := by
  apply ext_find?
  · have hnone : a.keys.filter (fun k => !a.contains k) = [] := by
      rw [List.filter_eq_nil_iff]
      intro k hk
      simp [mem_keys_iff.1 hk]
    rw [keys_merge, hnone, List.append_nil]
  · intro k
    rw [find?_merge, Option.or_self]

theorem merge_assoc (a b c : KeyedList α) : (a.merge b).merge c = a.merge (b.merge c) := by
  apply ext_find?
  · -- a name of `c` is new if neither of the others has it, whichever is asked first
    have hnew : ∀ k, (!(a.merge b).contains k) = (!a.contains k && !b.contains k) := by
      intro k
      rw [contains_merge, Bool.not_or]
    simp only [keys_merge, List.filter_append, List.filter_filter, hnew, List.append_assoc]
  · intro k
    simp only [find?_merge, Option.or_assoc]

/-! ## Many lists -/

/-- Merging is a monoid in which the second list counts and repetitions do not, down to the order of the
names: what stands under a name comes from the second list if that has the name, the names of the first list
stay where they are, and the new ones of the second follow in its order, each name once. -/
theorem merge_monoid (a b c : KeyedList α) :
    (a.merge b).merge c = a.merge (b.merge c) ∧
      empty.merge a = a ∧ a.merge empty = a ∧
      a.merge a = a ∧ (a.merge b).merge b = a.merge b ∧
      (∀ k, (a.merge b).find? k = if b.contains k then b.find? k else a.find? k) ∧
      (a.merge b).keys = a.keys ++ b.keys.filter (fun k => !a.contains k) ∧
      (a.merge b).keys.Nodup := by
  refine ⟨merge_assoc a b c, empty_merge a, merge_empty a, merge_self a, ?_, ?_, keys_merge a b,
    (a.merge b).nodup_keys⟩
  · rw [merge_assoc, merge_self]
  · intro k
    rw [find?_merge]
    unfold contains
    cases b.find? k <;> rfl

-- a name that both lists have keeps its place and takes the second value
example : (ofList [("i", 1), ("j", 2)]).merge (ofList [("k", 3), ("i", 4)]) =
    ofList [("i", 4), ("j", 2), ("k", 3)] := by decide

end Stencil.KeyedList
