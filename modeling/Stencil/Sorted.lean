/-!
# Lists sorted by name

Pairs of a name and a value in the order of the names, each name once.  Names are ordered by their
code points, which is the order of their bytes in UTF-8.

    (es.map Prod.fst).Pairwise (· < ·) → ((put name v es).map Prod.fst).Pairwise (· < ·)
-/

namespace Stencil.Sorted

universe u

variable {α : Type u}

/-! ## Algorithm -/

/-- Puts a value under a name, in place of the one that is there. -/
def put (name : String) (value : α) : List (String × α) → List (String × α)
  | [] => [(name, value)]
  | (n, v) :: rest =>
    if name = n then (name, value) :: rest
    else if name < n then (name, value) :: (n, v) :: rest
    else (n, v) :: put name value rest

/-- The pairs sorted by name; of pairs with one name the last counts. -/
def ofList (pairs : List (String × α)) : List (String × α) :=
  pairs.foldl (fun sorted (n, v) => put n v sorted) []

/-- The list without a name. -/
def erase (name : String) (pairs : List (String × α)) : List (String × α) :=
  pairs.filter fun (n, _) => n != name

/-! ## Lemmas -/

variable {es : List (String × α)} {name : String} {v : α}

theorem mem_put {e : String × α} (h : e ∈ put name v es) : e = (name, v) ∨ e ∈ es := by
  induction es with
  | nil => exact .inl (List.mem_singleton.1 h)
  | cons first es ih =>
    obtain ⟨n, w⟩ := first
    rw [put] at h
    split at h
    · rcases List.mem_cons.1 h with h | h
      · exact .inl h
      · exact .inr (List.mem_cons_of_mem _ h)
    · split at h
      · exact List.mem_cons.1 h
      · rcases List.mem_cons.1 h with rfl | h
        · exact .inr List.mem_cons_self
        · rcases ih h with h | h
          · exact .inl h
          · exact .inr (List.mem_cons_of_mem _ h)

/-- A pair is put where its name belongs. -/
theorem pairwise_put (h : (es.map Prod.fst).Pairwise (· < ·)) :
    ((put name v es).map Prod.fst).Pairwise (· < ·) := by
  induction es with
  | nil => exact List.pairwise_singleton _ _
  | cons first es ih =>
    obtain ⟨n, w⟩ := first
    obtain ⟨hfirst, hrest⟩ := List.pairwise_cons.1 h
    rw [put]
    by_cases heq : name = n
    · rw [if_pos heq, List.map_cons, List.pairwise_cons]
      subst heq
      exact ⟨hfirst, hrest⟩
    · rw [if_neg heq]
      by_cases hlt : name < n
      · rw [if_pos hlt, List.map_cons, List.pairwise_cons]
        refine ⟨fun other hother => ?_, h⟩
        rcases List.mem_cons.1 hother with rfl | hother
        · exact hlt
        · exact String.lt_trans hlt (hfirst other hother)
      · rw [if_neg hlt, List.map_cons, List.pairwise_cons]
        refine ⟨fun other hother => ?_, ih hrest⟩
        obtain ⟨x, hx, rfl⟩ := List.mem_map.1 hother
        rcases mem_put hx with rfl | hx
        · have hle : n ≤ name := String.not_lt.1 hlt
          refine Classical.byContradiction fun hge => ?_
          exact heq (String.le_antisymm (String.not_lt.1 hge) hle)
        · exact hfirst x.1 (List.mem_map_of_mem hx)

end Stencil.Sorted
