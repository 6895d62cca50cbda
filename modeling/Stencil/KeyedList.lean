/-!
# Keyed lists

A map from names to values that remembers the order in which its names came first.  Putting a value
under a name that is present keeps the name's place; a new name goes to the end.

    (l.insert k v).find? k' = if k' = k then some v else l.find? k'      (`find?_insert`)
    (l.insert k v).keys = if k ∈ l.keys then l.keys else l.keys ++ [k]   (`keys_insert`)
-/

namespace Stencil

universe u

/-- Pairs of a name and a value, each name at most once. -/
structure KeyedList (α : Type u) where
  entries : List (String × α)
  nodup : (entries.map Prod.fst).Nodup

namespace KeyedList

variable {α : Type u}

/-! ## Algorithm -/

/-- The value under `k` becomes `v` at its place, or `(k, v)` goes to the end. -/
def put (k : String) (v : α) : List (String × α) → List (String × α)
  | [] => [(k, v)]
  | (k', v') :: es => if k' = k then (k, v) :: es else (k', v') :: put k v es

theorem map_fst_put (k : String) (v : α) (es : List (String × α)) :
    (put k v es).map Prod.fst =
      if k ∈ es.map Prod.fst then es.map Prod.fst else es.map Prod.fst ++ [k] := by
  induction es with
  | nil => simp [put]
  | cons e es ih =>
    obtain ⟨k', v'⟩ := e
    by_cases h : k' = k
    · subst h; simp [put]
    · have h' : ¬ k = k' := fun e => h e.symm
      simp only [put, h, if_false, List.map_cons, ih, List.mem_cons, h', false_or]
      split <;> simp

theorem nodup_put {es : List (String × α)} (h : (es.map Prod.fst).Nodup) (k : String) (v : α) :
    ((put k v es).map Prod.fst).Nodup := by
  rw [map_fst_put]
  split
  · exact h
  · next hk =>
    rw [List.nodup_append]
    refine ⟨h, by simp, ?_⟩
    intro a ha b hb
    simp only [List.mem_singleton] at hb
    subst hb
    intro hab
    exact hk (hab ▸ ha)

/-- The list without names. -/
def empty : KeyedList α := ⟨[], by simp⟩

def insert (l : KeyedList α) (k : String) (v : α) : KeyedList α :=
  ⟨put k v l.entries, nodup_put l.nodup k v⟩

/-- The names in the order in which they came first. -/
def keys (l : KeyedList α) : List String := l.entries.map Prod.fst

def find? (l : KeyedList α) (k : String) : Option α := l.entries.lookup k

def contains (l : KeyedList α) (k : String) : Bool := (l.find? k).isSome

def size (l : KeyedList α) : Nat := l.entries.length

/-- Each pair in turn is put into the list. -/
def insertAll (l : KeyedList α) (es : List (String × α)) : KeyedList α :=
  es.foldl (fun l e => l.insert e.1 e.2) l

/-- A repeated name keeps its first place and takes its last value. -/
def ofList (es : List (String × α)) : KeyedList α := empty.insertAll es

/-- The first list with every entry of the second put over it. -/
def merge (base overlay : KeyedList α) : KeyedList α := base.insertAll overlay.entries

instance : Inhabited (KeyedList α) := ⟨empty⟩

instance [DecidableEq α] : DecidableEq (KeyedList α) := fun a b =>
  decidable_of_iff (a.entries = b.entries)
    ⟨fun h => by cases a; cases b; cases h; rfl, fun h => h ▸ rfl⟩

/-! ## Lemmas -/

theorem ext_entries {a b : KeyedList α} (h : a.entries = b.entries) : a = b := by
  cases a; cases b; cases h; rfl

theorem lookup_put (k k' : String) (v : α) (es : List (String × α)) :
    (put k v es).lookup k' = if k' = k then some v else es.lookup k' := by
  induction es with
  | nil =>
    by_cases h : k' = k
    · subst h; simp [put]
    · have : (k' == k) = false := by simpa using h
      simp [put, List.lookup_cons, this, h]
  | cons e es ih =>
    obtain ⟨a, b⟩ := e
    by_cases ha : a = k
    · subst ha
      by_cases h : k' = a
      · subst h; simp [put]
      · have : (k' == a) = false := by simpa using h
        simp [put, List.lookup_cons, this, h]
    · simp only [put, ha, if_false]
      by_cases h : k' = a
      · subst h
        simp [ha]
      · have : (k' == a) = false := by simpa using h
        simp only [List.lookup_cons, this, ih]

theorem mem_of_lookup {es : List (String × α)} {k : String} {v : α} (h : es.lookup k = some v) :
    (k, v) ∈ es := by
  rw [List.lookup_eq_some_iff] at h
  obtain ⟨l₁, l₂, rfl, -⟩ := h
  simp

theorem find?_insert (l : KeyedList α) (k k' : String) (v : α) :
    (l.insert k v).find? k' = if k' = k then some v else l.find? k' :=
  lookup_put k k' v l.entries

theorem keys_insert (l : KeyedList α) (k : String) (v : α) :
    (l.insert k v).keys = if k ∈ l.keys then l.keys else l.keys ++ [k] :=
  map_fst_put k v l.entries

@[simp] theorem keys_empty : (empty : KeyedList α).keys = [] := rfl

@[simp] theorem find?_empty (k : String) : (empty : KeyedList α).find? k = none := rfl

@[simp] theorem insertAll_nil (l : KeyedList α) : l.insertAll [] = l := rfl

@[simp] theorem insertAll_cons (l : KeyedList α) (e : String × α) (es : List (String × α)) :
    l.insertAll (e :: es) = (l.insert e.1 e.2).insertAll es := rfl

end KeyedList

end Stencil
