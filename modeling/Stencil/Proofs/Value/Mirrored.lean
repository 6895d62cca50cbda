import Stencil.Proofs.Decimal.Numeral
import Stencil.Proofs.Json.Parts
import Stencil.Proofs.Value.Equality
import Stencil.Value.Json
/-!
# Values that mirror JSON data

A value that JSON data is read as has its shape at every depth: items and members stay in their order,
integers keep their value, and of the objects only those whose one key is `$range` become something else,
the range that they stand for.  Data is refused for a part of it: such an object without bounds, or an
integer outside of such objects that is too large.

    ofJson j = .ok v → Mirrors j v                              (`mirrors_of_ofJson`)
    ofJson j = .error e → Refuses j e                           (`refuses_of_ofJson`)
    Mirrors j v → Inside (.object [(rangeKey, data)]) j → ∃ b, BoundsData data b
-/

namespace Stencil.Value

open Json

/-- Data that stands for the bounds of a range: a range text, or two integers of 64 bits. -/
inductive BoundsData : Json → Bounds → Prop where
  | text {text : String} {b : Bounds} : Bounds.read? text = some b → BoundsData (.string text) b
  | pair (b : Bounds) : BoundsData (.array [.integer b.first.toInt, .integer b.last.toInt]) b

/-- The part stands in the data, and not in an object that stands for a range. -/
def OutsideRanges (part j : Json) : Prop :=
  Within (fun members => members.map Prod.fst ≠ [rangeKey]) part j

/-- The value has the shape of the data, with ranges for the objects that stand for one. -/
inductive Mirrors : Json → Value → Prop where
  | null : Mirrors .null .null
  | bool (b : Bool) : Mirrors (.bool b) (.bool b)
  | integer (n : Int64) : Mirrors (.integer n.toInt) (.int n)
  | float (x : Binary64) : Mirrors (.float x) (.float x)
  | string (s : String) : Mirrors (.string s) (.str s)
  | array {items : List Json} {vs : List Value} : items.length = vs.length →
    (∀ pair ∈ items.zip vs, Mirrors pair.1 pair.2) → Mirrors (.array items) (.seq vs)
  | range {data : Json} {b : Bounds} : BoundsData data b →
    Mirrors (.object [(rangeKey, data)]) (.range b.first b.last)
  | object {members : List (String × Json)} {entries : List (String × Value)} :
    members.map Prod.fst ≠ [rangeKey] → entries.map Prod.fst = members.map Prod.fst →
    (∀ pair ∈ members.zip entries, Mirrors pair.1.2 pair.2.2) → Mirrors (.object members) (.map entries)

/-- The part of the data for which it is refused. -/
inductive Refuses (j : Json) : Error → Prop where
  | range {data : Json} : Inside (.object [(rangeKey, data)]) j → (∀ b, ¬ BoundsData data b) →
    Refuses j (.config (.badRange data))
  | integer {n : Int} : OutsideRanges (.integer n) j → maxInteger < n →
    Refuses j (.config (.integerTooLarge n))

/-! ## Bounds -/

theorem boundOf?_eq_some_iff {data : Json} {n : Int64} :
    boundOf? data = some n ↔ data = .integer n.toInt := by
  cases data <;> simp [boundOf?, Decimal.narrow?_eq_some_iff]

theorem boundsOf?_eq_some_iff {data : Json} {b : Bounds} : boundsOf? data = some b ↔ BoundsData data b := by
  constructor
  · intro h
    unfold boundsOf? at h
    split at h
    · exact .text h
    · next first last =>
      split at h
      · next m n hm hn =>
        obtain rfl := Option.some.inj h
        rw [boundOf?_eq_some_iff.1 hm, boundOf?_eq_some_iff.1 hn]
        exact .pair ⟨m, n⟩
      · cases h
    · cases h
  · intro h
    cases h with
    | text h => exact h
    | pair b =>
      have hfirst : boundOf? (.integer b.first.toInt) = some b.first := boundOf?_eq_some_iff.2 rfl
      have hlast : boundOf? (.integer b.last.toInt) = some b.last := boundOf?_eq_some_iff.2 rfl
      rw [boundsOf?, hfirst, hlast]

theorem rangeOf_eq_ok_iff {data : Json} {v : Value} :
    rangeOf data = .ok v ↔ ∃ b, BoundsData data b ∧ v = .range b.first b.last := by
  rw [rangeOf]
  cases hbounds : boundsOf? data with
  | some b =>
    have hdata := boundsOf?_eq_some_iff.1 hbounds
    constructor
    · intro h
      exact ⟨b, hdata, (Except.ok.inj h).symm⟩
    · rintro ⟨b', hdata', rfl⟩
      obtain rfl := Option.some.inj (hbounds.symm.trans (boundsOf?_eq_some_iff.2 hdata'))
      rfl
  | none =>
    refine iff_of_false (by simp) ?_
    rintro ⟨b, hdata, -⟩
    rw [boundsOf?_eq_some_iff.2 hdata] at hbounds
    cases hbounds

theorem of_rangeOf_eq_error {data : Json} {e : Error} (h : rangeOf data = .error e) :
    e = .config (.badRange data) ∧ ∀ b, ¬ BoundsData data b := by
  rw [rangeOf] at h
  cases hbounds : boundsOf? data with
  | some b =>
    rw [hbounds] at h
    cases h
  | none =>
    rw [hbounds] at h
    refine ⟨(Except.error.inj h).symm, fun b hdata => ?_⟩
    rw [boundsOf?_eq_some_iff.2 hdata] at hbounds
    cases hbounds

/-- Data that stands for bounds has no object in it. -/
theorem BoundsData.not_inside_object {data : Json} {b : Bounds} (h : BoundsData data b)
    {members : List (String × Json)} : ¬ Inside (.object members) data := by
  intro hin
  cases h with
  | text => cases hin
  | pair =>
    rcases inside_array_iff.1 hin with heq | ⟨item, hmem, hin⟩
    · cases heq
    · simp only [List.mem_cons, List.not_mem_nil, or_false] at hmem
      rcases hmem with rfl | rfl <;> cases hin

/-! ## Items and members -/

theorem ofItems_eq_ok_iff {items : List Json} {vs : List Value} : ofItems items = .ok vs ↔
    items.length = vs.length ∧ ∀ pair ∈ items.zip vs, ofJson pair.1 = .ok pair.2 := by
  induction items generalizing vs with
  | nil =>
    cases vs <;> simp [ofItems]
  | cons j js ih =>
    rw [ofItems]
    cases hj : ofJson j with
    | error e =>
      refine iff_of_false (by simp) ?_
      rintro ⟨hlen, hall⟩
      cases vs with
      | nil => cases hlen
      | cons v vs =>
        have hv := hall (j, v) List.mem_cons_self
        rw [hj] at hv
        cases hv
    | ok w =>
      cases vs with
      | nil => cases hjs : ofItems js <;> simp
      | cons v vs =>
        have hrest := @ih vs
        rw [List.zip_cons_cons, List.forall_mem_cons, hj, List.length_cons, List.length_cons,
          Nat.add_right_cancel_iff, Except.ok.injEq, and_left_comm, ← hrest]
        cases ofItems js <;> simp

theorem ofMembers_eq_ok_iff {members : List (String × Json)} {entries : List (String × Value)} :
    ofMembers members = .ok entries ↔ entries.map Prod.fst = members.map Prod.fst ∧
      ∀ pair ∈ members.zip entries, ofJson pair.1.2 = .ok pair.2.2 := by
  induction members generalizing entries with
  | nil =>
    cases entries <;> simp [ofMembers]
  | cons member members ih =>
    obtain ⟨key, j⟩ := member
    rw [ofMembers]
    cases hj : ofJson j with
    | error e =>
      refine iff_of_false (by simp) ?_
      rintro ⟨hkeys, hall⟩
      cases entries with
      | nil => cases hkeys
      | cons entry entries =>
        have hv := hall ((key, j), entry) List.mem_cons_self
        rw [hj] at hv
        cases hv
    | ok w =>
      cases entries with
      | nil => cases hmembers : ofMembers members <;> simp
      | cons entry entries =>
        obtain ⟨name, v⟩ := entry
        have hrest := @ih entries
        rw [List.zip_cons_cons, List.forall_mem_cons, hj, List.map_cons, List.map_cons,
          List.cons.injEq, Except.ok.injEq, and_assoc, and_left_comm (b := w = v), ← hrest]
        cases ofMembers members <;> simp [and_assoc, eq_comm]

/-- Each entry is read from a member with its name. -/
theorem exists_of_mem_ofMembers {members : List (String × Json)} {entries : List (String × Value)}
    (h : ofMembers members = .ok entries) {e : String × Value} (he : e ∈ entries) :
    ∃ member ∈ members, member.1 = e.1 ∧ ofJson member.2 = .ok e.2 := by
  obtain ⟨hfst, hall⟩ := ofMembers_eq_ok_iff.1 h
  obtain ⟨member, hpair⟩ := exists_mem_zip (length_eq_of_map_eq hfst) he
  have hread := mem_zip_swap hpair
  exact ⟨member, (List.of_mem_zip hread).1, (eq_of_mem_zip hfst hpair).symm, hall _ hread⟩

theorem exists_of_ofItems_eq_error {items : List Json} {e : Error} (h : ofItems items = .error e) :
    ∃ item ∈ items, ofJson item = .error e := by
  induction items with
  | nil => cases h
  | cons j js ih =>
    rw [ofItems] at h
    cases hj : ofJson j with
    | error e' =>
      rw [hj] at h
      obtain rfl := Except.error.inj h
      exact ⟨j, List.mem_cons_self, hj⟩
    | ok v =>
      rw [hj] at h
      cases hjs : ofItems js with
      | ok vs =>
        rw [hjs] at h
        cases h
      | error e' =>
        rw [hjs] at h
        obtain rfl := Except.error.inj h
        obtain ⟨item, hmem, hitem⟩ := ih hjs
        exact ⟨item, List.mem_cons_of_mem _ hmem, hitem⟩

theorem exists_of_ofMembers_eq_error {members : List (String × Json)} {e : Error}
    (h : ofMembers members = .error e) : ∃ member ∈ members, ofJson member.2 = .error e := by
  induction members with
  | nil => cases h
  | cons member members ih =>
    rw [ofMembers] at h
    cases hj : ofJson member.2 with
    | error e' =>
      rw [hj] at h
      obtain rfl := Except.error.inj h
      exact ⟨member, List.mem_cons_self, hj⟩
    | ok v =>
      rw [hj] at h
      cases hrest : ofMembers members with
      | ok entries =>
        rw [hrest] at h
        cases h
      | error e' =>
        rw [hrest] at h
        obtain rfl := Except.error.inj h
        obtain ⟨other, hmem, hother⟩ := ih hrest
        exact ⟨other, List.mem_cons_of_mem _ hmem, hother⟩

/-! ## Objects -/

theorem eq_singleton_of_map_fst {members : List (String × Json)} {key : String}
    (h : members.map Prod.fst = [key]) : ∃ data, members = [(key, data)] := by
  obtain ⟨member, rfl, rfl⟩ := List.map_eq_singleton_iff.1 h
  exact ⟨member.2, rfl⟩

theorem ofJson_range (data : Json) : ofJson (.object [(rangeKey, data)]) = rangeOf data := by
  rw [ofJson, if_pos rfl]

/-- An object that does not stand for a range is read member by member. -/
theorem ofJson_object {members : List (String × Json)} (h : members.map Prod.fst ≠ [rangeKey]) :
    ofJson (.object members) = match ofMembers members with
      | .ok entries => .ok (.map (KeyedList.ofList entries).entries)
      | .error e => .error e := by
  match members with
  | [] => rfl
  | [(key, data)] =>
    have hkey : key ≠ rangeKey := fun heq => h (by rw [heq]; rfl)
    rw [ofJson, if_neg hkey, ofMembers]
    cases ofJson data <;> rfl
  | first :: second :: rest => rfl

/-- An object with distinct names is read as a range, or as a map with the entries in its order. -/
theorem ofJson_object_eq_ok {members : List (String × Json)} {v : Value}
    (hnodup : (members.map Prod.fst).Nodup) (h : ofJson (.object members) = .ok v) :
    (∃ data b, members = [(rangeKey, data)] ∧ BoundsData data b ∧ v = .range b.first b.last) ∨
      members.map Prod.fst ≠ [rangeKey] ∧ ∃ entries, ofMembers members = .ok entries ∧ v = .map entries := by
  by_cases hkeys : members.map Prod.fst = [rangeKey]
  · obtain ⟨data, rfl⟩ := eq_singleton_of_map_fst hkeys
    rw [ofJson_range] at h
    obtain ⟨b, hdata, rfl⟩ := rangeOf_eq_ok_iff.1 h
    exact .inl ⟨data, b, rfl, hdata, rfl⟩
  · rw [ofJson_object hkeys] at h
    split at h
    · next entries hentries =>
      obtain rfl := Except.ok.inj h
      have hdistinct : (entries.map Prod.fst).Nodup := by
        rw [(ofMembers_eq_ok_iff.1 hentries).1]
        exact hnodup
      -- the names are distinct, so putting the entries into a map changes nothing
      exact .inr ⟨hkeys, entries, hentries, by rw [KeyedList.entries_ofList hdistinct]⟩
    · cases h

/-! ## Data that is refused -/

section
variable {j : Json} {e : Error}

theorem Refuses.item {items : List Json} (hmem : j ∈ items) (h : Refuses j e) :
    Refuses (.array items) e := by
  cases h with
  | range hin hnot => exact .range (.item hmem hin) hnot
  | integer hout hlt => exact .integer (.item hmem hout) hlt

theorem Refuses.member {members : List (String × Json)} {member : String × Json}
    (hkeys : members.map Prod.fst ≠ [rangeKey]) (hmem : member ∈ members) (h : Refuses member.2 e) :
    Refuses (.object members) e := by
  cases h with
  | range hin hnot => exact .range (.member hmem hin) hnot
  | integer hout hlt => exact .integer (.member hkeys hmem hout) hlt

theorem refuses_of_ofJson (hj : j.WellFormed) (h : ofJson j = .error e) : Refuses j e := by
  induction j using inductionOnParts with
  | integer n =>
    rw [ofJson] at h
    split at h
    · cases h
    · next hnarrow =>
      obtain rfl := Except.error.inj h
      refine .integer .here ?_
      have hlow := (hj.integer .here).1
      rw [Decimal.narrow?] at hnarrow
      by_cases hhigh : n ≤ Int64.maxValue.toInt
      · rw [if_pos ⟨hlow, hhigh⟩] at hnarrow
        cases hnarrow
      · exact Int.not_le.1 hhigh
  | array items ih =>
    rw [ofJson] at h
    split at h
    · cases h
    · next e' herror =>
      obtain rfl := Except.error.inj h
      obtain ⟨item, hmem, hitem⟩ := exists_of_ofItems_eq_error herror
      exact (ih item hmem (hj.of_item hmem) hitem).item hmem
  | object members ih =>
    by_cases hkeys : members.map Prod.fst = [rangeKey]
    · obtain ⟨data, rfl⟩ := eq_singleton_of_map_fst hkeys
      rw [ofJson_range] at h
      obtain ⟨rfl, hnot⟩ := of_rangeOf_eq_error h
      exact .range .here hnot
    · rw [ofJson_object hkeys] at h
      split at h
      · cases h
      · next e' herror =>
        obtain rfl := Except.error.inj h
        obtain ⟨member, hmem, hmember⟩ := exists_of_ofMembers_eq_error herror
        exact (ih member hmem (hj.of_member hmem) hmember).member hkeys hmem
  | _ => cases h

end

/-! ## Data that is read -/

section
variable {j : Json} {v : Value}

theorem mirrors_of_ofJson (hj : j.WellFormed) (h : ofJson j = .ok v) : Mirrors j v := by
  induction j using inductionOnParts generalizing v with
  | null =>
    obtain rfl := Except.ok.inj h
    exact .null
  | bool b =>
    obtain rfl := Except.ok.inj h
    exact .bool b
  | float x =>
    obtain rfl := Except.ok.inj h
    exact .float x
  | string s =>
    obtain rfl := Except.ok.inj h
    exact .string s
  | integer n =>
    rw [ofJson] at h
    split at h
    · next n' hnarrow =>
      obtain rfl := Except.ok.inj h
      obtain rfl := Decimal.narrow?_eq_some_iff.1 hnarrow
      exact .integer n'
    · cases h
  | array items ih =>
    rw [ofJson] at h
    split at h
    · next vs hvs =>
      obtain rfl := Except.ok.inj h
      obtain ⟨hlen, hall⟩ := ofItems_eq_ok_iff.1 hvs
      refine .array hlen fun pair hpair => ?_
      have hmem := (List.of_mem_zip hpair).1
      exact ih pair.1 hmem (hj.of_item hmem) (hall pair hpair)
    · cases h
  | object members ih =>
    rcases ofJson_object_eq_ok hj.nodup_keys h with
      ⟨data, b, rfl, hdata, rfl⟩ | ⟨hkeys, entries, hentries, rfl⟩
    · exact .range hdata
    · obtain ⟨hfst, hall⟩ := ofMembers_eq_ok_iff.1 hentries
      refine .object hkeys hfst fun pair hpair => ?_
      have hmem := (List.of_mem_zip hpair).1
      exact ih pair.1 hmem (hj.of_member hmem) (hall pair hpair)

theorem Mirrors.exists_boundsData (h : Mirrors j v) {data : Json}
    (hin : Inside (.object [(rangeKey, data)]) j) : ∃ b, BoundsData data b := by
  induction h with
  | array hlen _ ih =>
    rcases inside_array_iff.1 hin with heq | ⟨item, hmem, hin⟩
    · cases heq
    · obtain ⟨w, hpair⟩ := exists_mem_zip hlen hmem
      exact ih _ hpair hin
  | range hdata =>
    rcases inside_object_iff.1 hin with heq | ⟨member, hmem, hin⟩
    · cases heq
      exact ⟨_, hdata⟩
    · obtain rfl := List.mem_singleton.1 hmem
      exact absurd hin hdata.not_inside_object
  | object hkeys hfst _ ih =>
    rcases inside_object_iff.1 hin with heq | ⟨member, hmem, hin⟩
    · cases heq
      exact absurd rfl hkeys
    · obtain ⟨entry, hpair⟩ := exists_mem_zip (length_eq_of_map_eq hfst.symm) hmem
      exact ih _ hpair hin
  | _ => cases hin

theorem Mirrors.integer_le (h : Mirrors j v) {n : Int} (hout : OutsideRanges (.integer n) j) :
    n ≤ maxInteger := by
  induction h with
  | integer m =>
    cases hout
    exact m.toInt_le
  | array hlen _ ih =>
    rcases within_array_iff.1 hout with heq | ⟨item, hmem, hout⟩
    · cases heq
    · obtain ⟨w, hpair⟩ := exists_mem_zip hlen hmem
      exact ih _ hpair hout
  | range hdata =>
    rcases within_object_iff.1 hout with heq | ⟨hkeys, -⟩
    · cases heq
    · exact absurd rfl hkeys
  | object hkeys hfst _ ih =>
    rcases within_object_iff.1 hout with heq | ⟨-, member, hmem, hout⟩
    · cases heq
    · obtain ⟨entry, hpair⟩ := exists_mem_zip (length_eq_of_map_eq hfst.symm) hmem
      exact ih _ hpair hout
  | _ => cases hout

end

/-- Data is read exactly if every object in it whose only key is `$range` has bounds and no integer
outside of these objects is larger than those a variable can have.  What it is read as mirrors it at
every depth, and data that is not read is refused for such a part. -/
theorem ofJson_lossless (j : Json) (hj : j.WellFormed) :
    ((∃ v, ofJson j = .ok v) ↔
      (∀ data, Inside (.object [(rangeKey, data)]) j → ∃ b, BoundsData data b) ∧
        ∀ n, OutsideRanges (.integer n) j → n ≤ maxInteger) ∧
      (∀ v, ofJson j = .ok v → Mirrors j v) ∧ ∀ e, ofJson j = .error e → Refuses j e := by
  refine ⟨⟨?_, ?_⟩, fun v => mirrors_of_ofJson hj, fun e => refuses_of_ofJson hj⟩
  · rintro ⟨v, h⟩
    have hmirrors := mirrors_of_ofJson hj h
    exact ⟨fun data hin => hmirrors.exists_boundsData hin, fun n hout => hmirrors.integer_le hout⟩
  · rintro ⟨hbounds, hintegers⟩
    cases h : ofJson j with
    | ok v => exact ⟨v, rfl⟩
    | error e =>
      exfalso
      cases refuses_of_ofJson hj h with
      | range hin hnot =>
        obtain ⟨b, hdata⟩ := hbounds _ hin
        exact hnot b hdata
      | integer hout hlt => exact absurd (hintegers _ hout) (Int.not_le.2 hlt)

theorem ofJson_lossless_series :
    (Json.object [("i", .array [.object [("$range", .string "1..=3")], .integer (-7)])]).WellFormed ∧
      Mirrors (.object [("i", .array [.object [("$range", .string "1..=3")], .integer (-7)])])
        (.map [("i", .seq [.range 1 3, .int (-7)])]) := by
  have hj : (Json.object
      [("i", .array [.object [("$range", .string "1..=3")], .integer (-7)])]).WellFormed := by
    constructor
    · intro n h
      simp only [inside_object_iff, inside_array_iff, List.mem_cons,
        List.not_mem_nil, or_false, exists_eq_left, exists_eq_or_imp, reduceCtorEq, false_or] at h
      rcases h with h | h <;> cases h
      decide
    · intro members h
      simp only [inside_object_iff, inside_array_iff, List.mem_cons,
        List.not_mem_nil, or_false, exists_eq_left, exists_eq_or_imp, reduceCtorEq, false_or] at h
      rcases h with h | (h | h) | h <;> cases h <;> simp
  exact ⟨hj, (ofJson_lossless _ hj).2.1 _ rfl⟩

end Stencil.Value
