import Stencil.Bindings.Reader
import Stencil.Proofs.Json.Written
import Stencil.Proofs.Value.Mirrored
/-!
# The order of names in bindings

The bindings of a JSON text have their names in the order in which the text has them first.  Below that the
order of the text is lost: every map in a binding, inside maps and sequences, has the names of its object in
increasing order, whatever their order in the text.

    read text = .ok b → b.keys = (members.map Prod.fst).eraseDups
    Beside (.object part) (.map entries) j v → ofJson j.sorted = .ok v → KeysSorted part entries
    KeysSorted part entries → (entries.map Prod.fst = (part.map Prod.fst).eraseDups ↔
      (part.map Prod.fst).eraseDups.Pairwise (· < ·))
-/

namespace Stencil

namespace Value

open Json

/-! ## Objects and the maps they are read as -/

/-- The value `w` is `v` or stands in it, inside sequences and maps. -/
inductive Nested (w : Value) : Value → Prop where
  | here : Nested w w
  | item {vs : List Value} {v : Value} : v ∈ vs → Nested w v → Nested w (.seq vs)
  | entry {entries : List (String × Value)} {e : String × Value} : e ∈ entries → Nested w e.2 →
    Nested w (.map entries)

/-- The part of the data stands where `w` stands in the value: under the same places of sequences and under
the same names, where the last data under a name counts. -/
inductive Beside (part : Json) (w : Value) : Json → Value → Prop where
  | here : Beside part w part w
  | item {items : List Json} {vs : List Value} {j : Json} {v : Value} : (j, v) ∈ items.zip vs →
    Beside part w j v → Beside part w (.array items) (.seq vs)
  | entry {members : List (String × Json)} {entries : List (String × Value)} {j : Json}
    {e : String × Value} : e ∈ entries → members.reverse.lookup e.1 = some j → Beside part w j e.2 →
    Beside part w (.object members) (.map entries)

/-- The map has the names of the object, each once and in increasing order. -/
structure KeysSorted (part : List (String × Json)) (entries : List (String × Value)) : Prop where
  increasing : (entries.map Prod.fst).Pairwise (· < ·)
  mem_iff : ∀ key, key ∈ entries.map Prod.fst ↔ key ∈ part.map Prod.fst

/-- The names are in the order in which the text has them first only if this order is increasing. -/
theorem KeysSorted.eq_eraseDups_iff {part : List (String × Json)} {entries : List (String × Value)}
    (h : KeysSorted part entries) : entries.map Prod.fst = (part.map Prod.fst).eraseDups ↔
      (part.map Prod.fst).eraseDups.Pairwise (· < ·) := by
  constructor
  · intro heq
    rw [← heq]
    exact h.increasing
  · intro hincreasing
    have hperm : (entries.map Prod.fst).Perm (part.map Prod.fst).eraseDups := by
      rw [List.perm_ext_iff_of_nodup (Sorted.nodup_of_pairwise h.increasing) (hincreasing.imp String.ne_of_lt)]
      intro key
      rw [h.mem_iff, List.mem_eraseDups]
    exact hperm.eq_of_pairwise (fun a c _ _ hlt hgt => absurd (String.lt_trans hlt hgt) (String.lt_irrefl a))
      h.increasing hincreasing

/-! ## Reading raw data -/

/-- What is read as a sequence is an array, read item by item. -/
theorem exists_array_of_ofJson {j : Json} {vs : List Value} (h : ofJson j.sorted = .ok (.seq vs)) :
    ∃ items, j = .array items ∧ items.length = vs.length ∧
      ∀ pair ∈ items.zip vs, ofJson pair.1.sorted = .ok pair.2 := by
  cases j with
  | array items =>
    rw [sorted_array, ofJson] at h
    split at h
    · next ws hws =>
      obtain rfl := Value.seq.inj (Except.ok.inj h)
      obtain ⟨hlen, hall⟩ := ofItems_eq_ok_iff.1 hws
      rw [List.length_map] at hlen
      exact ⟨items, rfl, hlen, fun pair hpair => hall _ (mem_zip_map_left sorted hpair)⟩
    · cases h
  | object members =>
    rw [sorted_object] at h
    rcases ofJson_object_eq_ok (Sorted.nodup_ofList _) h with ⟨_, b, _, _, hb⟩ | ⟨_, _, _, hmap⟩
    · cases hb
    · cases hmap
  | integer n =>
    change ofJson (.integer n) = _ at h
    rw [ofJson] at h
    split at h <;> cases h
  | _ => cases h

/-- What is read as a map is an object, and each entry is read from the last data under its name. -/
theorem exists_object_of_ofJson {j : Json} {entries : List (String × Value)}
    (h : ofJson j.sorted = .ok (.map entries)) : ∃ members, j = .object members ∧
      KeysSorted members entries ∧ ∀ e ∈ entries, ∃ data, members.reverse.lookup e.1 = some data ∧
        ofJson data.sorted = .ok e.2 := by
  cases j with
  | object members =>
    rw [sorted_object] at h
    rcases ofJson_object_eq_ok (Sorted.nodup_ofList _) h with ⟨_, b, _, _, hb⟩ | ⟨_, es, hes, hmap⟩
    · cases hb
    · obtain rfl := Value.map.inj hmap
      have hfst := (ofMembers_eq_ok_iff.1 hes).1
      refine ⟨members, rfl, ⟨?_, fun key => ?_⟩, fun e he => ?_⟩
      · rw [hfst]
        exact Sorted.pairwise_ofList _
      · rw [hfst, Sorted.mem_map_fst_ofList, map_fst_sortedMembers]
      · obtain ⟨member, hmem, hname, hvalue⟩ := exists_of_mem_ofMembers hes he
        have hlookup := KeyedList.lookup_of_mem (Sorted.nodup_ofList _) hmem
        rw [hname, lookup_sortedMembers, Option.map_eq_some_iff] at hlookup
        obtain ⟨data, hdata, hsorted⟩ := hlookup
        exact ⟨data, hdata, by rw [hsorted, hvalue]⟩
  | array items =>
    rw [sorted_array, ofJson] at h
    split at h <;> cases h
  | integer n =>
    change ofJson (.integer n) = _ at h
    rw [ofJson] at h
    split at h <;> cases h
  | _ => cases h

section
variable {j : Json} {v : Value}

theorem keysSorted_of_beside {part : List (String × Json)} {entries : List (String × Value)}
    (h : Beside (.object part) (.map entries) j v) (hread : ofJson j.sorted = .ok v) :
    KeysSorted part entries := by
  induction h with
  | here =>
    obtain ⟨members, hmembers, hsorted, -⟩ := exists_object_of_ofJson hread
    obtain rfl := Json.object.inj hmembers
    exact hsorted
  | item hpair _ ih =>
    obtain ⟨items, hitems, -, hall⟩ := exists_array_of_ofJson hread
    obtain rfl := Json.array.inj hitems
    exact ih (hall _ hpair)
  | entry hmem hlookup _ ih =>
    obtain ⟨members, hmembers, -, hall⟩ := exists_object_of_ofJson hread
    obtain rfl := Json.object.inj hmembers
    obtain ⟨data, hdata, hvalue⟩ := hall _ hmem
    obtain rfl := Option.some.inj (hdata.symm.trans hlookup)
    exact ih hvalue

/-- Every map in the value is read from an object of the text. -/
theorem exists_beside_of_nested {entries : List (String × Value)} (h : Nested (.map entries) v)
    (hread : ofJson j.sorted = .ok v) : ∃ part, Beside (.object part) (.map entries) j v := by
  induction h generalizing j with
  | here =>
    obtain ⟨members, rfl, -⟩ := exists_object_of_ofJson hread
    exact ⟨members, .here⟩
  | item hmem _ ih =>
    obtain ⟨items, rfl, hlen, hall⟩ := exists_array_of_ofJson hread
    obtain ⟨item, hpair⟩ := exists_mem_zip hlen.symm hmem
    have hzip := mem_zip_swap hpair
    obtain ⟨part, hpart⟩ := ih (hall _ hzip)
    exact ⟨part, .item hzip hpart⟩
  | entry hmem _ ih =>
    obtain ⟨members, rfl, -, hall⟩ := exists_object_of_ofJson hread
    obtain ⟨data, hdata, hvalue⟩ := hall _ hmem
    obtain ⟨part, hpart⟩ := ih hvalue
    exact ⟨part, .entry hmem hdata hpart⟩

end

end Value

namespace Bindings

open Json Value

/-- An object's text gives the bindings of its members. -/
theorem read_eq_ofMembers {text : String} {members : List (String × Json)}
    (htext : Spells (.object members) text.toList) (hdepth : (Json.object members).depth ≤ maxDepth) :
    Bindings.read text = Bindings.ofMembers (sortedMembers members) := by
  rw [Bindings.read, membersOf?, readObject?_eq_some_iff.2 ⟨members, htext, hdepth, rfl⟩]

/-- Bindings are read entry by entry from the data, in the order of its names. -/
theorem ofMembers_eq_ok {members : List (String × Json)} {b : Bindings}
    (h : Bindings.ofMembers members = .ok b) :
    Value.ofMembers (KeyedList.ofList members).entries = .ok b.entries := by
  rw [Bindings.ofMembers] at h
  split at h
  · next entries hentries =>
    obtain rfl := Except.ok.inj h
    have hdistinct : (entries.map Prod.fst).Nodup := by
      rw [(ofMembers_eq_ok_iff.1 hentries).1]
      exact (KeyedList.ofList members).nodup
    rw [KeyedList.entries_ofList hdistinct, hentries]
  · cases h

/-- The bindings of a JSON text have their names in the order in which the text has them first.  Each map in
a binding is read from an object of the text and has the names of this object in increasing order: in the
order in which the text has them first only if they are increasing there already. -/
theorem read_keyOrder (text : String) (members : List (String × Json)) (b : Bindings)
    (htext : Spells (.object members) text.toList) (hdepth : (Json.object members).depth ≤ maxDepth)
    (hread : Bindings.read text = .ok b) :
    b.keys = (members.map Prod.fst).eraseDups ∧
      ∀ e ∈ b.entries, ∃ j, members.reverse.lookup e.1 = some j ∧
        (∀ entries, Nested (.map entries) e.2 → ∃ part, Beside (.object part) (.map entries) j e.2) ∧
        ∀ part entries, Beside (.object part) (.map entries) j e.2 → KeysSorted part entries ∧
          (entries.map Prod.fst = (part.map Prod.fst).eraseDups ↔
            (part.map Prod.fst).eraseDups.Pairwise (· < ·)) := by
  rw [read_eq_ofMembers htext hdepth] at hread
  have hentries := ofMembers_eq_ok hread
  constructor
  · rw [← map_fst_sortedMembers, ← KeyedList.keys_ofList]
    exact (ofMembers_eq_ok_iff.1 hentries).1
  · intro e he
    obtain ⟨member, hmem, hname, hvalue⟩ := exists_of_mem_ofMembers hentries he
    have hlookup := KeyedList.lookup_of_mem (KeyedList.ofList (sortedMembers members)).nodup hmem
    change KeyedList.find? _ _ = _ at hlookup
    rw [KeyedList.find?_ofList, lookup_reverse_sortedMembers, hname, Option.map_eq_some_iff] at hlookup
    obtain ⟨j, hj, hsorted⟩ := hlookup
    rw [← hsorted] at hvalue
    refine ⟨j, hj, fun entries hnested => exists_beside_of_nested hnested hvalue,
      fun part entries hbeside => ?_⟩
    have hkeys := keysSorted_of_beside hbeside hvalue
    exact ⟨hkeys, hkeys.eq_eraseDups_iff⟩

theorem read_keyOrder_nested :
    Spells (.object [("m", .object [("b", .integer 1), ("a", .integer 2)])])
        "\x7b\"m\":\x7b\"b\":1,\"a\":2\x7d\x7d".toList ∧
      ∃ b entries, Bindings.read "\x7b\"m\":\x7b\"b\":1,\"a\":2\x7d\x7d" = .ok b ∧
        b.entries = [("m", .map entries)] ∧ b.keys = ["m"] ∧
        KeysSorted [("b", .integer 1), ("a", .integer 2)] entries ∧ entries.map Prod.fst ≠ ["b", "a"] := by
  have hone : (Json.integer 1).Exact := .integer (by decide) (by decide)
  have htwo : (Json.integer 2).Exact := .integer (by decide) (by decide)
  have hexact : (Json.object [("m", .object [("b", .integer 1), ("a", .integer 2)])]).Exact :=
    .object (List.forall_mem_singleton.2
      (.object (List.forall_mem_cons.2 ⟨hone, List.forall_mem_singleton.2 htwo⟩)))
  have htext : Spells (.object [("m", .object [("b", .integer 1), ("a", .integer 2)])])
      "\x7b\"m\":\x7b\"b\":1,\"a\":2\x7d\x7d".toList :=
    .of_bare (spells_writeCompact hexact)
  have hread : Bindings.read "\x7b\"m\":\x7b\"b\":1,\"a\":2\x7d\x7d" =
      .ok (KeyedList.ofList [("m", .map [("a", .int 2), ("b", .int 1)])]) :=
    read_eq_ofMembers htext (by decide)
  obtain ⟨hkeys, hnested⟩ := read_keyOrder _ _ _ htext (by decide) hread
  obtain ⟨j, hj, -, hmaps⟩ := hnested ("m", .map [("a", .int 2), ("b", .int 1)]) List.mem_cons_self
  obtain rfl := Option.some.inj hj
  obtain ⟨hsorted, horder⟩ := hmaps _ _ .here
  exact ⟨htext, _, _, hread, rfl, hkeys, hsorted, fun heq => absurd (horder.1 heq) (by decide)⟩

end Bindings

end Stencil
