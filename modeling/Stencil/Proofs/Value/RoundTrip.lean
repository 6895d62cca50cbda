import Stencil.Proofs.Json.Written
import Stencil.Proofs.Value.Equality
import Stencil.Proofs.Value.Mirrored
/-!
# Values written and read back

A value of null, booleans, integers, texts, sequences and maps is written as JSON data and read back from it
as an equal value.  The maps of what is read have their keys sorted, and so it is equal to the value but not
the same.  The data tells such values apart up to equality, and it is what the compact text is read as, as
long as the value is nested no deeper than the reader goes.

    Plain v → ∃ w, ofJson v.data = .ok w ∧ w == v                     (`exists_ofJson_data`)
    Plain v → v.toJson.depth ≤ Json.maxDepth → Json.read? v.toJson.compact = some v.data
    Plain v → Plain w → v.data = w.data → v == w                      (`beq_of_data_eq`)
-/

namespace Stencil.Value

open Json

/-- Values of null, booleans, integers, texts, sequences and maps; no map is one that `$range` alone would
make a range. -/
inductive Plain : Value → Prop where
  | null : Plain .null
  | bool (b : Bool) : Plain (.bool b)
  | int (n : Int64) : Plain (.int n)
  | str (s : String) : Plain (.str s)
  | seq {items : List Value} : (∀ v ∈ items, Plain v) → Plain (.seq items)
  | map {entries : List (String × Value)} : (entries.map Prod.fst).Nodup →
    entries.map Prod.fst ≠ [rangeKey] → (∀ e ∈ entries, Plain e.2) → Plain (.map entries)

/-- The value as JSON data whose keys are sorted, as data is held. -/
def data (v : Value) : Json := v.toJson.sorted

/-! ## Data part by part -/

theorem itemsOf_eq_map (items : List Value) : itemsOf items = items.map toJson := by
  induction items with
  | nil => rfl
  | cons v items ih => rw [itemsOf, ih, List.map_cons]

theorem membersOf_eq_map (entries : List (String × Value)) :
    membersOf entries = entries.map fun e => (e.1, e.2.toJson) := by
  induction entries with
  | nil => rfl
  | cons e entries ih => rw [membersOf, ih, List.map_cons]

@[simp]
theorem data_null : Value.null.data = .null := rfl

@[simp]
theorem data_bool (b : Bool) : (Value.bool b).data = .bool b := rfl

@[simp]
theorem data_int (n : Int64) : (Value.int n).data = .integer n.toInt := rfl

@[simp]
theorem data_str (s : String) : (Value.str s).data = .string s := rfl

@[simp]
theorem data_seq (items : List Value) : (Value.seq items).data = .array (items.map data) := by
  rw [data, toJson, itemsOf_eq_map, sorted_array, List.map_map]
  rfl

/-- The entries of a map as members, in its order. -/
def dataEntries (entries : List (String × Value)) : List (String × Json) :=
  entries.map fun e => (e.1, e.2.data)

theorem map_fst_dataEntries (entries : List (String × Value)) :
    (dataEntries entries).map Prod.fst = entries.map Prod.fst := by
  rw [dataEntries, List.map_map]
  rfl

@[simp]
theorem data_map (entries : List (String × Value)) :
    (Value.map entries).data = .object (Sorted.ofList (dataEntries entries)) := by
  rw [data, toJson, membersOf_eq_map, sorted_object, sortedMembers_eq_map, List.map_map]
  rfl

section
variable {entries : List (String × Value)} (h : (entries.map Prod.fst).Nodup)
include h

theorem perm_dataEntries : (Sorted.ofList (dataEntries entries)).Perm (dataEntries entries) :=
  Sorted.perm_ofList (by rwa [map_fst_dataEntries])

/-- The members of the data are the entries of the map. -/
theorem mem_ofList_dataEntries {member : String × Json} :
    member ∈ Sorted.ofList (dataEntries entries) ↔ ∃ e ∈ entries, (e.1, e.2.data) = member := by
  rw [(perm_dataEntries h).mem_iff, dataEntries, List.mem_map]

theorem length_ofList_dataEntries : (Sorted.ofList (dataEntries entries)).length = entries.length := by
  rw [(perm_dataEntries h).length_eq, dataEntries, List.length_map]

theorem map_fst_ofList_dataEntries_ne (hkeys : entries.map Prod.fst ≠ [rangeKey]) :
    (Sorted.ofList (dataEntries entries)).map Prod.fst ≠ [rangeKey] := by
  intro hsorted
  have hperm := (perm_dataEntries h).map Prod.fst
  rw [hsorted, map_fst_dataEntries] at hperm
  exact hkeys (List.perm_singleton.1 hperm.symm)

end

/-! ## Reading back -/

theorem exists_ofItems {items : List Json} (h : ∀ item ∈ items, ∃ v, ofJson item = .ok v) :
    ∃ vs, ofItems items = .ok vs := by
  cases hread : ofItems items with
  | ok vs => exact ⟨vs, rfl⟩
  | error e =>
    obtain ⟨item, hmem, herror⟩ := exists_of_ofItems_eq_error hread
    obtain ⟨v, hv⟩ := h item hmem
    rw [hv] at herror
    cases herror

theorem exists_ofMembers {members : List (String × Json)}
    (h : ∀ member ∈ members, ∃ v, ofJson member.2 = .ok v) : ∃ entries, ofMembers members = .ok entries := by
  cases hread : ofMembers members with
  | ok entries => exact ⟨entries, rfl⟩
  | error e =>
    obtain ⟨member, hmem, herror⟩ := exists_of_ofMembers_eq_error hread
    obtain ⟨v, hv⟩ := h member hmem
    rw [hv] at herror
    cases herror

theorem exists_ofJson_data {v : Value} (h : Plain v) : ∃ w, ofJson v.data = .ok w ∧ (w == v) = true := by
  induction h with
  | null => exact ⟨.null, rfl, rfl⟩
  | bool b => exact ⟨.bool b, rfl, beq_self_eq_true b⟩
  | int n =>
    refine ⟨.int n, ?_, beq_self_eq_true n⟩
    show ofJson (.integer n.toInt) = _
    rw [ofJson, Decimal.narrow?_eq_some_iff.2 rfl]
  | str s => exact ⟨.str s, rfl, beq_self_eq_true s⟩
  | @seq items _ ih =>
    rw [data_seq]
    obtain ⟨vs, hvs⟩ : ∃ vs, ofItems (items.map data) = .ok vs := exists_ofItems fun item hmem => by
      obtain ⟨v, hv, rfl⟩ := List.mem_map.1 hmem
      obtain ⟨w, hw, -⟩ := ih v hv
      exact ⟨w, hw⟩
    obtain ⟨hlen, hall⟩ := ofItems_eq_ok_iff.1 hvs
    rw [List.length_map] at hlen
    refine ⟨.seq vs, by rw [ofJson, hvs], beq_seq_iff.2 ⟨hlen.symm, fun pair hpair => ?_⟩⟩
    have hswap : (pair.2, pair.1) ∈ items.zip vs := mem_zip_swap hpair
    have hread := hall _ (mem_zip_map_left data hswap)
    obtain ⟨w, hw, heq⟩ := ih pair.2 (List.of_mem_zip hswap).1
    obtain rfl := Except.ok.inj (hw.symm.trans hread)
    exact heq
  | @map entries hnodup hkeys _ ih =>
    rw [data_map]
    obtain ⟨es, hes⟩ : ∃ es, ofMembers (Sorted.ofList (dataEntries entries)) = .ok es :=
      exists_ofMembers fun member hmem => by
        obtain ⟨e, he, rfl⟩ := (mem_ofList_dataEntries hnodup).1 hmem
        obtain ⟨w, hw, -⟩ := ih e he
        exact ⟨w, hw⟩
    -- the entries come back in the order of the sorted names, which equality of maps does not see
    have hfst := (ofMembers_eq_ok_iff.1 hes).1
    have hdistinct : (es.map Prod.fst).Nodup := by
      rw [hfst]
      exact Sorted.nodup_ofList _
    refine ⟨.map es, ?_, beq_map_iff.2 ⟨?_, fun read hread => ?_⟩⟩
    · rw [ofJson_object (map_fst_ofList_dataEntries_ne hnodup hkeys), hes]
      show Except.ok (Value.map (KeyedList.ofList es).entries) = _
      rw [KeyedList.entries_ofList hdistinct]
    · rw [← length_ofList_dataEntries hnodup, ← List.length_map (f := Prod.fst), hfst, List.length_map]
    · obtain ⟨member, hmem, hname, hvalue⟩ := exists_of_mem_ofMembers hes hread
      obtain ⟨e, he, rfl⟩ := (mem_ofList_dataEntries hnodup).1 hmem
      obtain ⟨w, hw, heq⟩ := ih e he
      obtain rfl := Except.ok.inj (hw.symm.trans hvalue)
      exact ⟨e.2, hname ▸ KeyedList.lookup_of_mem hnodup he, heq⟩

/-! ## Data tells values apart -/

theorem beq_of_data_eq {v w : Value} (hv : Plain v) (hw : Plain w) (h : v.data = w.data) :
    (v == w) = true := by
  induction hv generalizing w with
  | null =>
    cases hw <;> simp at h
    rfl
  | bool b =>
    cases hw <;> simp at h
    subst h
    exact beq_self_eq_true b
  | int n =>
    cases hw <;> simp at h
    obtain rfl := Int64.toInt_inj.1 h
    exact beq_self_eq_true n
  | str s =>
    cases hw <;> simp at h
    subst h
    exact beq_self_eq_true s
  | @seq items _ ih =>
    cases hw <;> simp at h
    case seq others hothers =>
      refine beq_seq_iff.2 ⟨length_eq_of_map_eq h, fun pair hpair => ?_⟩
      obtain ⟨hleft, hright⟩ := List.of_mem_zip hpair
      exact ih pair.1 hleft (hothers pair.2 hright) (eq_of_mem_zip h hpair)
  | @map entries hnodup _ _ ih =>
    cases hw <;> simp at h
    case map others hnodup' _ hothers =>
      refine beq_map_iff.2 ⟨?_, fun e he => ?_⟩
      · rw [← length_ofList_dataEntries hnodup, h, length_ofList_dataEntries hnodup']
      · have hmem := (mem_ofList_dataEntries hnodup).2 ⟨e, he, rfl⟩
        rw [h] at hmem
        obtain ⟨e', he', hdata⟩ := (mem_ofList_dataEntries hnodup').1 hmem
        obtain ⟨hname, hvalue⟩ := Prod.mk.inj hdata
        exact ⟨e'.2, hname ▸ KeyedList.lookup_of_mem hnodup' he', ih e he (hothers e' he') hvalue.symm⟩

/-! ## Through text -/

theorem Plain.exact_toJson {v : Value} (hv : Plain v) : v.toJson.Exact := by
  induction hv with
  | null => exact .null
  | bool b => exact .bool b
  | int n =>
    have hmax : Int64.maxValue.toInt ≤ maxSignificand := by decide
    exact .integer n.minValue_le_toInt (Int.le_trans n.toInt_le hmax)
  | str s => exact .string s
  | @seq items _ ih =>
    rw [toJson, itemsOf_eq_map]
    exact .array (List.forall_mem_map.2 ih)
  | @map entries _ _ _ ih =>
    rw [toJson, membersOf_eq_map]
    exact .object (List.forall_mem_map.2 ih)

/-- A value is read back, as an equal one, from the data that it is written as, and this data from its
compact text if the value is nested no deeper than the reader goes.  Values of the same data are equal. -/
theorem ofJson_data_roundTrip (v : Value) (hv : Plain v) :
    (∃ w, ofJson v.data = .ok w ∧ (w == v) = true) ∧
      (v.toJson.depth ≤ maxDepth → Json.read? v.toJson.compact = some v.data) ∧
      ∀ u, Plain u → u.data = v.data → (u == v) = true :=
  ⟨exists_ofJson_data hv, read?_compact hv.exact_toJson, fun _ hu h => beq_of_data_eq hu hv h⟩

theorem ofJson_data_roundTrip_map :
    Plain (.map [("b", .seq [.int (-1), .null]), ("a", .str "\n")]) ∧
      Json.read? (Value.map [("b", .seq [.int (-1), .null]), ("a", .str "\n")]).toJson.compact =
        some (.object [("a", .string "\n"), ("b", .array [.integer (-1), .null])]) ∧
      ∃ w, ofJson (.object [("a", .string "\n"), ("b", .array [.integer (-1), .null])]) = .ok w ∧
        (w == .map [("b", .seq [.int (-1), .null]), ("a", .str "\n")]) = true := by
  have hv : Plain (.map [("b", .seq [.int (-1), .null]), ("a", .str "\n")]) := by
    refine .map (by decide) (by decide) fun e he => ?_
    simp only [List.mem_cons, List.not_mem_nil, or_false] at he
    rcases he with rfl | rfl
    · refine .seq fun v hmem => ?_
      simp only [List.mem_cons, List.not_mem_nil, or_false] at hmem
      rcases hmem with rfl | rfl
      · exact .int (-1)
      · exact .null
    · exact .str "\n"
  have hdata : (Value.map [("b", .seq [.int (-1), .null]), ("a", .str "\n")]).data =
      .object [("a", .string "\n"), ("b", .array [.integer (-1), .null])] := by
    rfl
  obtain ⟨hread, htext, -⟩ := ofJson_data_roundTrip _ hv
  rw [hdata] at hread htext
  exact ⟨hv, htext (by decide), hread⟩

end Stencil.Value
