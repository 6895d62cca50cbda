import Stencil.Json.Reader
import Stencil.Proofs.Sorted
/-!
# JSON data part by part

What holds of an array when it holds of its items, and of an object when it holds of the data under its
keys, holds of all data.  The parts of data are reached through its arrays and objects; its depth counts
those on the way.  Readers give data with the keys of every object sorted, and text that is read or
written has them in an order of its own: `sorted` takes the one to the other.

    Inside part (.array items) ↔ part = .array items ∨ ∃ item ∈ items, Inside part item
    (Json.array items).depth ≤ d + 1 ↔ ∀ item ∈ items, item.depth ≤ d
    Inside part j.sorted → ∃ raw, Inside raw j ∧ raw.sorted = part              (`exists_of_inside_sorted`)
-/

namespace Stencil.Json

/-! ## Algorithm -/

mutual

/-- How deep arrays and objects are nested in each other. -/
def depth : Json → Nat
  | .array items => depthOfItems items + 1
  | .object members => depthOfMembers members + 1
  | _ => 0

/-- The deepest nesting among the items. -/
def depthOfItems : List Json → Nat
  | [] => 0
  | j :: js => max (depth j) (depthOfItems js)

/-- The deepest nesting among the members. -/
def depthOfMembers : List (String × Json) → Nat
  | [] => 0
  | (_, j) :: members => max (depth j) (depthOfMembers members)

end

mutual

/-- The same data with the keys of every object sorted; of repeated keys the last counts. -/
def sorted : Json → Json
  | .array items => .array (sortedItems items)
  | .object members => sortedObject (sortedMembers members)
  | j => j

def sortedItems : List Json → List Json
  | [] => []
  | j :: js => sorted j :: sortedItems js

def sortedMembers : List (String × Json) → List (String × Json)
  | [] => []
  | (key, j) :: members => (key, sorted j) :: sortedMembers members

end

/-- `part` is the data or stands in it; the objects on the way there are such that `enters` holds. -/
inductive Within (enters : List (String × Json) → Prop) (part : Json) : Json → Prop where
  | here : Within enters part part
  | item {items : List Json} {item : Json} :
    item ∈ items → Within enters part item → Within enters part (.array items)
  | member {members : List (String × Json)} {member : String × Json} :
    enters members → member ∈ members → Within enters part member.2 →
    Within enters part (.object members)

/-- `part` is the data or stands anywhere in it. -/
def Inside (part j : Json) : Prop := Within (fun _ => True) part j

/-- Data as a reader gives it: every integer has 64 bits, signed or unsigned, and the keys of every
object increase. -/
structure WellFormed (j : Json) : Prop where
  integer : ∀ {n : Int}, Inside (.integer n) j → Int64.minValue.toInt ≤ n ∧ n ≤ maxSignificand
  keys : ∀ {members : List (String × Json)}, Inside (.object members) j →
    (members.map Prod.fst).Pairwise (· < ·)

/-! ## Induction -/

/-- What passes from the parts of an array or object to the whole holds of all data. -/
theorem inductionOnParts {motive : Json → Prop} (null : motive .null) (bool : ∀ b, motive (.bool b))
    (integer : ∀ n, motive (.integer n)) (float : ∀ x, motive (.float x))
    (string : ∀ s, motive (.string s))
    (array : ∀ items, (∀ item ∈ items, motive item) → motive (.array items))
    (object : ∀ members : List (String × Json), (∀ member ∈ members, motive member.2) →
      motive (.object members)) (j : Json) : motive j :=
  match j with
  | .null => null
  | .bool b => bool b
  | .integer n => integer n
  | .float x => float x
  | .string s => string s
  | .array items =>
    array items fun item _ => inductionOnParts null bool integer float string array object item
  | .object members =>
    object members fun member _ =>
      inductionOnParts null bool integer float string array object member.2
termination_by sizeOf j
decreasing_by
  · have := List.sizeOf_lt_of_mem ‹item ∈ items›
    simp only [Json.array.sizeOf_spec]
    omega
  · have hmember := List.sizeOf_lt_of_mem ‹member ∈ members›
    have hdata : sizeOf member = 1 + sizeOf member.1 + sizeOf member.2 := by
      rw [← Prod.mk.sizeOf_spec]
    simp only [Json.object.sizeOf_spec]
    omega

/-! ## Depth -/

section
variable {items : List Json} {members : List (String × Json)} {d : Nat}

theorem depthOfItems_le_iff : depthOfItems items ≤ d ↔ ∀ item ∈ items, item.depth ≤ d := by
  induction items with
  | nil => simp [depthOfItems]
  | cons j js ih => rw [depthOfItems, Nat.max_le, ih, List.forall_mem_cons]

theorem depthOfMembers_le_iff : depthOfMembers members ≤ d ↔ ∀ member ∈ members, member.2.depth ≤ d := by
  induction members with
  | nil => simp [depthOfMembers]
  | cons member members ih => rw [depthOfMembers, Nat.max_le, ih, List.forall_mem_cons]

theorem depth_array_le_iff : (Json.array items).depth ≤ d + 1 ↔ ∀ item ∈ items, item.depth ≤ d := by
  rw [depth, Nat.add_le_add_iff_right, depthOfItems_le_iff]

theorem depth_object_le_iff :
    (Json.object members).depth ≤ d + 1 ↔ ∀ member ∈ members, member.2.depth ≤ d := by
  rw [depth, Nat.add_le_add_iff_right, depthOfMembers_le_iff]

end

/-! ## Parts -/

section
variable {enters : List (String × Json) → Prop} {part : Json}

theorem within_array_iff {items : List Json} : Within enters part (.array items) ↔
    part = .array items ∨ ∃ item ∈ items, Within enters part item := by
  constructor
  · intro h
    cases h with
    | here => exact .inl rfl
    | item hmem h => exact .inr ⟨_, hmem, h⟩
  · rintro (rfl | ⟨item, hmem, h⟩)
    · exact .here
    · exact .item hmem h

theorem within_object_iff {members : List (String × Json)} : Within enters part (.object members) ↔
    part = .object members ∨ enters members ∧ ∃ member ∈ members, Within enters part member.2 := by
  constructor
  · intro h
    cases h with
    | here => exact .inl rfl
    | member henters hmem h => exact .inr ⟨henters, _, hmem, h⟩
  · rintro (rfl | ⟨henters, member, hmem, h⟩)
    · exact .here
    · exact .member henters hmem h

theorem inside_array_iff {items : List Json} : Inside part (.array items) ↔
    part = .array items ∨ ∃ item ∈ items, Inside part item :=
  within_array_iff

theorem inside_object_iff {members : List (String × Json)} : Inside part (.object members) ↔
    part = .object members ∨ ∃ member ∈ members, Inside part member.2 := by
  rw [Inside, within_object_iff, true_and]
  rfl

theorem Inside.item {items : List Json} {item : Json} (hmem : item ∈ items) (h : Inside part item) :
    Inside part (.array items) :=
  Within.item hmem h

theorem Inside.member {members : List (String × Json)} {member : String × Json}
    (hmem : member ∈ members) (h : Inside part member.2) : Inside part (.object members) :=
  Within.member trivial hmem h

end

theorem WellFormed.of_item {items : List Json} {item : Json} (h : (Json.array items).WellFormed)
    (hmem : item ∈ items) : item.WellFormed :=
  ⟨fun hin => h.integer (.item hmem hin), fun hin => h.keys (.item hmem hin)⟩

theorem WellFormed.of_member {members : List (String × Json)} {member : String × Json}
    (h : (Json.object members).WellFormed) (hmem : member ∈ members) : member.2.WellFormed :=
  ⟨fun hin => h.integer (.member hmem hin), fun hin => h.keys (.member hmem hin)⟩

theorem WellFormed.nodup_keys {members : List (String × Json)} (h : (Json.object members).WellFormed) :
    (members.map Prod.fst).Nodup :=
  Sorted.nodup_of_pairwise (h.keys .here)

/-! ## Sorting -/

theorem sortedItems_eq_map (items : List Json) : sortedItems items = items.map sorted := by
  induction items with
  | nil => rfl
  | cons j js ih => rw [sortedItems, ih, List.map_cons]

theorem sortedMembers_eq_map (members : List (String × Json)) :
    sortedMembers members = members.map fun member => (member.1, member.2.sorted) := by
  induction members with
  | nil => rfl
  | cons member members ih => rw [sortedMembers, ih, List.map_cons]

theorem map_fst_sortedMembers (members : List (String × Json)) :
    (sortedMembers members).map Prod.fst = members.map Prod.fst := by
  rw [sortedMembers_eq_map, List.map_map]
  rfl

theorem sorted_array (items : List Json) : (Json.array items).sorted = .array (items.map sorted) := by
  rw [sorted, sortedItems_eq_map]

theorem sorted_object (members : List (String × Json)) :
    (Json.object members).sorted = .object (Sorted.ofList (sortedMembers members)) := by
  rw [sorted, sortedObject]

theorem lookup_reverse_sortedMembers (members : List (String × Json)) (key : String) :
    (sortedMembers members).reverse.lookup key = (members.reverse.lookup key).map sorted := by
  rw [sortedMembers_eq_map, ← List.map_reverse]
  induction members.reverse with
  | nil => rfl
  | cons member members ih =>
    rw [List.map_cons, KeyedList.lookup_cons_eq, KeyedList.lookup_cons_eq, ih]
    split <;> rfl

/-- What stands under a key of the sorted object is the data that stands last under this key. -/
theorem lookup_sortedMembers (members : List (String × Json)) (key : String) :
    (Sorted.ofList (sortedMembers members)).lookup key = (members.reverse.lookup key).map sorted := by
  rw [Sorted.lookup_ofList, lookup_reverse_sortedMembers]

theorem mem_of_mem_sortedMembers {members : List (String × Json)} {member : String × Json}
    (h : member ∈ Sorted.ofList (sortedMembers members)) :
    ∃ raw ∈ members, raw.1 = member.1 ∧ raw.2.sorted = member.2 := by
  have hlookup := KeyedList.lookup_of_mem (Sorted.nodup_ofList _) h
  rw [lookup_sortedMembers, Option.map_eq_some_iff] at hlookup
  obtain ⟨data, hdata, hsorted⟩ := hlookup
  exact ⟨_, List.mem_reverse.1 (KeyedList.mem_of_lookup hdata), rfl, hsorted⟩

/-- The parts of sorted data are the parts of the data, sorted. -/
theorem exists_of_inside_sorted {part j : Json} (h : Inside part j.sorted) :
    ∃ raw, Inside raw j ∧ raw.sorted = part := by
  induction j using inductionOnParts with
  | array items ih =>
    rw [sorted_array, inside_array_iff] at h
    rcases h with rfl | ⟨item, hmem, h⟩
    · exact ⟨_, .here, sorted_array items⟩
    · obtain ⟨raw, hraw, rfl⟩ := List.mem_map.1 hmem
      obtain ⟨part', hpart, hsorted⟩ := ih raw hraw h
      exact ⟨part', .item hraw hpart, hsorted⟩
  | object members ih =>
    rw [sorted_object, inside_object_iff] at h
    rcases h with rfl | ⟨member, hmem, h⟩
    · exact ⟨_, .here, sorted_object members⟩
    · obtain ⟨raw, hraw, -, hdata⟩ := mem_of_mem_sortedMembers hmem
      rw [← hdata] at h
      obtain ⟨part', hpart, hsorted⟩ := ih raw hraw h
      exact ⟨part', .member hraw hpart, hsorted⟩
  | _ =>
    cases h with
    | here => exact ⟨_, .here, rfl⟩

/-- Sorted data has the keys of every object in order. -/
theorem pairwise_of_inside_sorted {members : List (String × Json)} {j : Json}
    (h : Inside (.object members) j.sorted) : (members.map Prod.fst).Pairwise (· < ·) := by
  obtain ⟨raw, -, hraw⟩ := exists_of_inside_sorted h
  cases raw with
  | object rawMembers =>
    rw [sorted_object, object.injEq] at hraw
    rw [← hraw]
    exact Sorted.pairwise_ofList _
  | array items =>
    rw [sorted_array] at hraw
    cases hraw
  | _ => cases hraw

end Stencil.Json
