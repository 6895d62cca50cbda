import Mathlib.Data.List.Perm.Subperm
import Stencil.Proofs.Bindings.KeyOrder
import Stencil.Proofs.Value.Equality
/-!
# Equality of values as an equivalence

Equality is symmetric and transitive, and a value equals itself unless a NaN stands in it.  Maps are compared
in one direction, each entry of the left one with what the right one has under its name.  That the right one
has no other names is a matter of counting: the names on the left are distinct, they are all on the right, and
there are as many of them.

    (a == b) = true ↔ Same a b                                                       (`beq_iff_same`)
    a.Distinct → Same a b → Same b a                                                 (`Same.symm`)
    Same a b → Same b c → Same a c                                                   (`Same.trans`)
    a.Distinct → (Same a a ↔ ∀ x, Nested (.float x) a → x.isNaN = false)             (`same_self_iff`)
    Reordered a a' → Reordered b b' → (a == b) = (a' == b')                          (`beq_congr_reordered`)
-/

namespace Stencil

/-! ## Numbers -/

namespace Binary64

theorem eq_iff {x y : Binary64} :
    x.eq y = true ↔ x.isNaN = false ∧ y.isNaN = false ∧ x.key = y.key := by
  unfold eq
  simp [and_assoc]

theorem eq_symm {x y : Binary64} (h : x.eq y = true) : y.eq x = true := by
  obtain ⟨hx, hy, hkey⟩ := eq_iff.1 h
  exact eq_iff.2 ⟨hy, hx, hkey.symm⟩

theorem eq_trans {x y z : Binary64} (hxy : x.eq y = true) (hyz : y.eq z = true) : x.eq z = true := by
  obtain ⟨hx, -, hkey⟩ := eq_iff.1 hxy
  obtain ⟨-, hz, hkey'⟩ := eq_iff.1 hyz
  exact eq_iff.2 ⟨hx, hz, hkey.trans hkey'⟩

theorem eq_self_iff {x : Binary64} : x.eq x = true ↔ x.isNaN = false := by
  rw [eq_iff]
  simp

end Binary64

namespace Value

/-! ## Algorithm -/

/-- Every map in the value has each of its names once. -/
def Distinct (v : Value) : Prop :=
  ∀ entries, Nested (.map entries) v → (entries.map Prod.fst).Nodup

/-- The values are equal, kind by kind. -/
inductive Same : Value → Value → Prop where
  | null : Same .null .null
  | bool (b : Bool) : Same (.bool b) (.bool b)
  | int (n : Int64) : Same (.int n) (.int n)
  | float {x y : Binary64} : x.eq y = true → Same (.float x) (.float y)
  | str (s : String) : Same (.str s) (.str s)
  | range (first last : Int64) : Same (.range first last) (.range first last)
  | object {identity : Nat} {text text' : Option String} {description description' : String}
    {invoke invoke' : String → Option Value} :
    Same (.object identity text description invoke) (.object identity text' description' invoke')
  | seq {as bs : List Value} : as.length = bs.length → (∀ pair ∈ as.zip bs, Same pair.1 pair.2) →
    Same (.seq as) (.seq bs)
  | map {as bs : List (String × Value)} : as.length = bs.length →
    (∀ e ∈ as, e.1 ∈ bs.map Prod.fst) → (∀ e ∈ as, ∀ b, bs.lookup e.1 = some b → Same e.2 b) →
    Same (.map as) (.map bs)

/-- The values differ in the order of the entries of their maps, at any depth, and in nothing else. -/
inductive Reordered : Value → Value → Prop where
  | refl (v : Value) : Reordered v v
  | seq {as bs : List Value} : as.length = bs.length →
    (∀ pair ∈ as.zip bs, Reordered pair.1 pair.2) → Reordered (.seq as) (.seq bs)
  | map {as bs : List (String × Value)} : (as.map Prod.fst).Perm (bs.map Prod.fst) →
    (∀ a ∈ as, ∀ b ∈ bs, a.1 = b.1 → Reordered a.2 b.2) → Reordered (.map as) (.map bs)

/-- The values that a sequence or a map is made of. -/
def parts : Value → List Value
  | .seq items => items
  | .map entries => entries.map Prod.snd
  | _ => []

/-! ## Induction -/

theorem sizeOf_lt_of_mem_parts {v part : Value} (h : part ∈ v.parts) : sizeOf part < sizeOf v := by
  cases v with
  | seq items =>
    have hitem : sizeOf part < sizeOf items := List.sizeOf_lt_of_mem h
    simp only [Value.seq.sizeOf_spec]
    omega
  | map entries =>
    obtain ⟨e, he, rfl⟩ := List.mem_map.1 h
    have hentry := List.sizeOf_lt_of_mem he
    have hvalue : sizeOf e = 1 + sizeOf e.1 + sizeOf e.2 := by
      rw [← Prod.mk.sizeOf_spec]
    simp only [Value.map.sizeOf_spec]
    omega
  | _ => cases h

/-- What passes from the parts of a value to the whole holds of all values. -/
theorem inductionOnParts {motive : Value → Prop}
    (whole : ∀ v, (∀ part ∈ v.parts, motive part) → motive v) (v : Value) : motive v :=
  whole v fun part _ => inductionOnParts whole part
termination_by sizeOf v
decreasing_by exact sizeOf_lt_of_mem_parts ‹part ∈ v.parts›

/-! ## Distinct names -/

theorem distinct_seq_iff {items : List Value} :
    (Value.seq items).Distinct ↔ ∀ v ∈ items, v.Distinct := by
  constructor
  · intro h v hmem entries hnested
    exact h entries (.item hmem hnested)
  · intro h entries hnested
    cases hnested with
    | item hmem hnested => exact h _ hmem entries hnested

theorem distinct_map_iff {entries : List (String × Value)} :
    (Value.map entries).Distinct ↔ (entries.map Prod.fst).Nodup ∧ ∀ e ∈ entries, e.2.Distinct := by
  constructor
  · intro h
    exact ⟨h entries .here, fun e hmem es hnested => h es (.entry hmem hnested)⟩
  · rintro ⟨hnames, hvalues⟩ es hnested
    cases hnested with
    | here => exact hnames
    | entry hmem hnested => exact hvalues _ hmem es hnested

theorem distinct_of_parts_eq_nil {v : Value} (h : v.parts = []) : v.Distinct := by
  intro entries hnested
  cases hnested with
  | here =>
    obtain rfl : entries = [] := List.map_eq_nil_iff.1 h
    exact List.nodup_nil
  | item hmem _ =>
    obtain rfl := h
    cases hmem
  | entry hmem _ =>
    obtain rfl := List.map_eq_nil_iff.1 h
    cases hmem

/-- What is read from data with sorted keys has distinct names. -/
theorem distinct_of_ofJson {j : Json} {v : Value} (h : ofJson j.sorted = .ok v) : v.Distinct := by
  intro entries hnested
  obtain ⟨part, hbeside⟩ := exists_beside_of_nested hnested h
  exact Sorted.nodup_of_pairwise (keysSorted_of_beside hbeside h).increasing

/-! ## Equal kind by kind -/

theorem same_of_beq {a b : Value} (h : (a == b) = true) : Same a b := by
  induction a using inductionOnParts generalizing b with
  | whole a ih =>
    cases a with
    | null =>
      cases b with
      | null => exact .null
      | _ => cases h
    | bool x =>
      cases b with
      | bool y =>
        obtain rfl : x = y := eq_of_beq h
        exact .bool x
      | _ => cases h
    | int n =>
      cases b with
      | int m =>
        obtain rfl : n = m := eq_of_beq h
        exact .int n
      | _ => cases h
    | float x =>
      cases b with
      | float y => exact .float h
      | _ => cases h
    | str s =>
      cases b with
      | str t =>
        obtain rfl : s = t := eq_of_beq h
        exact .str s
      | _ => cases h
    | range first last =>
      cases b with
      | range first' last' =>
        change (first == first' && last == last') = true at h
        rw [Bool.and_eq_true, beq_iff_eq, beq_iff_eq] at h
        obtain ⟨rfl, rfl⟩ := h
        exact .range first last
      | _ => cases h
    | object identity text description invoke =>
      cases b with
      | object identity' text' description' invoke' =>
        obtain rfl : identity = identity' := eq_of_beq h
        exact .object
      | _ => cases h
    | seq as =>
      cases b with
      | seq bs =>
        obtain ⟨hlen, hall⟩ := beq_seq_iff.1 h
        exact .seq hlen fun pair hpair => ih _ (List.of_mem_zip hpair).1 (hall pair hpair)
      | _ => cases h
    | map as =>
      cases b with
      | map bs =>
        obtain ⟨hlen, hall⟩ := beq_map_iff.1 h
        refine .map hlen ?_ ?_
        · intro e he
          obtain ⟨b, hb, -⟩ := hall e he
          exact List.mem_map.2 ⟨(e.1, b), KeyedList.mem_of_lookup hb, rfl⟩
        · intro e he b hb
          obtain ⟨b', hb', heq⟩ := hall e he
          obtain rfl := Option.some.inj (hb'.symm.trans hb)
          exact ih _ (List.mem_map_of_mem he) heq
      | _ => cases h

theorem Same.beq {a b : Value} (h : Same a b) : (a == b) = true := by
  induction h with
  | null => rfl
  | bool x => exact beq_self_eq_true x
  | int n => exact beq_self_eq_true n
  | float heq => exact heq
  | str s => exact beq_self_eq_true s
  | range first last =>
    show (first == first && last == last) = true
    rw [beq_self_eq_true, beq_self_eq_true, Bool.and_true]
  | @object identity => exact beq_self_eq_true identity
  | seq hlen _ ih => exact beq_seq_iff.2 ⟨hlen, ih⟩
  | map hlen hnames _ ih =>
    refine beq_map_iff.2 ⟨hlen, ?_⟩
    intro e he
    obtain ⟨b, hb, -⟩ := KeyedList.exists_lookup (hnames e he)
    exact ⟨b, hb, ih e he b hb⟩

theorem beq_iff_same {a b : Value} : (a == b) = true ↔ Same a b := ⟨same_of_beq, Same.beq⟩

/-! ## The laws -/

/-- Maps of one length that have all of the names on the left have the same names. -/
theorem perm_names {as bs : List (String × Value)} (hdistinct : (as.map Prod.fst).Nodup)
    (hlen : as.length = bs.length) (hnames : ∀ e ∈ as, e.1 ∈ bs.map Prod.fst) :
    (as.map Prod.fst).Perm (bs.map Prod.fst) := by
  have hsubset : as.map Prod.fst ⊆ bs.map Prod.fst := by
    intro name hname
    obtain ⟨e, he, rfl⟩ := List.mem_map.1 hname
    exact hnames e he
  apply (List.subperm_of_subset hdistinct hsubset).perm_of_length_le
  rw [List.length_map, List.length_map, hlen]

theorem Same.symm {a b : Value} (ha : a.Distinct) (h : Same a b) : Same b a := by
  induction h with
  | null => exact .null
  | bool x => exact .bool x
  | int n => exact .int n
  | float heq => exact .float (Binary64.eq_symm heq)
  | str s => exact .str s
  | range first last => exact .range first last
  | object => exact .object
  | @seq as bs hlen _ ih =>
    refine .seq hlen.symm ?_
    intro pair hpair
    have hswap := mem_zip_swap hpair
    exact ih _ hswap (distinct_seq_iff.1 ha _ (List.of_mem_zip hswap).1)
  | @map as bs hlen hnames _ ih =>
    obtain ⟨hdistinct, hvalues⟩ := distinct_map_iff.1 ha
    have hperm := perm_names hdistinct hlen hnames
    refine .map hlen.symm ?_ ?_
    · intro e he
      exact hperm.mem_iff.2 (List.mem_map_of_mem he)
    · intro e he a hlookup
      -- the entry that is found on the left finds this entry on the right
      have hmem : (e.1, a) ∈ as := KeyedList.mem_of_lookup hlookup
      have hback : bs.lookup e.1 = some e.2 := KeyedList.lookup_of_mem (hperm.nodup_iff.1 hdistinct) he
      exact ih _ hmem _ hback (hvalues _ hmem)

theorem Same.trans {a b c : Value} (hab : Same a b) (hbc : Same b c) : Same a c := by
  induction hab generalizing c with
  | null => exact hbc
  | bool x => exact hbc
  | int n => exact hbc
  | float hxy =>
    cases hbc with
    | float hyz => exact .float (Binary64.eq_trans hxy hyz)
  | str s => exact hbc
  | range first last => exact hbc
  | object =>
    cases hbc with
    | object => exact .object
  | @seq as bs hlen _ ih =>
    cases hbc with
    | @seq _ cs hlen' hall' =>
      refine .seq (hlen.trans hlen') ?_
      intro pair hpair
      obtain ⟨b, hleft, hright⟩ := exists_between hlen hpair
      exact ih _ hleft (hall' _ hright)
  | @map as bs hlen hnames _ ih =>
    cases hbc with
    | @map _ cs hlen' hnames' hall' =>
      refine .map (hlen.trans hlen') ?_ ?_
      · intro e he
        obtain ⟨b, -, hmem⟩ := KeyedList.exists_lookup (hnames e he)
        exact hnames' (e.1, b) hmem
      · intro e he c hc
        obtain ⟨b, hb, hmem⟩ := KeyedList.exists_lookup (hnames e he)
        exact ih e he b hb (hall' _ hmem c hc)

theorem isNaN_of_same_self {a : Value} (ha : a.Distinct) {x : Binary64} (hx : Nested (.float x) a)
    (h : Same a a) : x.isNaN = false := by
  induction hx with
  | here =>
    cases h with
    | float heq => exact Binary64.eq_self_iff.1 heq
  | item hmem _ ih =>
    cases h with
    | seq _ hall => exact ih (distinct_seq_iff.1 ha _ hmem) (hall _ (mem_zip_self_iff.2 ⟨rfl, hmem⟩))
  | entry hmem _ ih =>
    obtain ⟨hdistinct, hvalues⟩ := distinct_map_iff.1 ha
    cases h with
    | map _ _ hall =>
      exact ih (hvalues _ hmem) (hall _ hmem _ (KeyedList.lookup_of_mem hdistinct hmem))

theorem same_self {a : Value} (ha : a.Distinct)
    (h : ∀ x, Nested (.float x) a → x.isNaN = false) : Same a a := by
  induction a using inductionOnParts with
  | whole a ih =>
    cases a with
    | null => exact .null
    | bool x => exact .bool x
    | int n => exact .int n
    | float x => exact .float (Binary64.eq_self_iff.2 (h x .here))
    | str s => exact .str s
    | range first last => exact .range first last
    | object => exact .object
    | seq items =>
      refine .seq rfl ?_
      rintro ⟨v, w⟩ hpair
      obtain ⟨rfl, hmem⟩ := mem_zip_self_iff.1 hpair
      exact ih v hmem (distinct_seq_iff.1 ha v hmem) fun x hx => h x (.item hmem hx)
    | map entries =>
      obtain ⟨hdistinct, hvalues⟩ := distinct_map_iff.1 ha
      refine .map rfl (fun e he => List.mem_map_of_mem he) ?_
      intro e he v hv
      have hself : entries.lookup e.1 = some e.2 := KeyedList.lookup_of_mem hdistinct he
      obtain rfl := Option.some.inj (hself.symm.trans hv)
      exact ih _ (List.mem_map_of_mem he) (hvalues e he) fun x hx => h x (.entry he hx)

theorem same_self_iff {a : Value} (ha : a.Distinct) :
    Same a a ↔ ∀ x, Nested (.float x) a → x.isNaN = false := by
  constructor
  · intro h x hx
    exact isNaN_of_same_self ha hx h
  · exact same_self ha

/-! ## The order of entries -/

theorem Reordered.symm {a b : Value} (h : Reordered a b) : Reordered b a := by
  induction h with
  | refl v => exact .refl v
  | seq hlen _ ih => exact .seq hlen.symm fun pair hpair => ih _ (mem_zip_swap hpair)
  | map hperm _ ih => exact .map hperm.symm fun b hb a ha hname => ih a ha b hb hname.symm

/-- A map whose entries are put into another order. -/
theorem reordered_of_perm {as bs : List (String × Value)} (hdistinct : (as.map Prod.fst).Nodup)
    (h : as.Perm bs) : Reordered (.map as) (.map bs) := by
  refine .map (h.map Prod.fst) ?_
  rintro ⟨name, a⟩ ha ⟨name', b⟩ hb rfl
  have hleft : as.lookup name = some a := KeyedList.lookup_of_mem hdistinct ha
  have hright : as.lookup name = some b := KeyedList.lookup_of_mem hdistinct (h.mem_iff.2 hb)
  obtain rfl := Option.some.inj (hleft.symm.trans hright)
  exact .refl a

theorem Same.reordered_left {a a' b : Value} (h : Reordered a a') (hab : Same a b) : Same a' b := by
  induction h generalizing b with
  | refl => exact hab
  | seq hlen _ ih =>
    cases hab with
    | seq hlen' hall =>
      refine .seq (hlen.symm.trans hlen') ?_
      intro pair hpair
      obtain ⟨a, hleft, hright⟩ := exists_between hlen.symm hpair
      exact ih _ (mem_zip_swap hleft) (hall _ hright)
  | @map as as' hperm _ ih =>
    cases hab with
    | @map _ bs hlen hnames hall =>
      have hsize : as.length = as'.length := by simpa using hperm.length_eq
      -- every entry has its name from an entry before the reordering
      have hfrom : ∀ e ∈ as', ∃ a ∈ as, a.1 = e.1 := by
        intro e he
        exact List.mem_map.1 (hperm.mem_iff.2 (List.mem_map_of_mem he))
      refine .map (hsize.symm.trans hlen) ?_ ?_
      · intro e he
        obtain ⟨a, ha, hname⟩ := hfrom e he
        rw [← hname]
        exact hnames a ha
      · intro e he b hb
        obtain ⟨a, ha, hname⟩ := hfrom e he
        rw [← hname] at hb
        exact ih a ha e he hname (hall a ha b hb)

theorem Same.reordered_right {a b b' : Value} (h : Reordered b b') (hab : Same a b) : Same a b' := by
  induction h generalizing a with
  | refl => exact hab
  | seq hlen _ ih =>
    cases hab with
    | seq hlen' hall =>
      refine .seq (hlen'.trans hlen) ?_
      intro pair hpair
      obtain ⟨b, hleft, hright⟩ := exists_between hlen' hpair
      exact ih _ hright (hall _ hleft)
  | @map bs bs' hperm _ ih =>
    cases hab with
    | @map as _ hlen hnames hall =>
      have hsize : bs.length = bs'.length := by simpa using hperm.length_eq
      refine .map (hlen.trans hsize) ?_ ?_
      · intro e he
        exact hperm.mem_iff.1 (hnames e he)
      · intro e he b' hb'
        obtain ⟨b, hb, hmem⟩ := KeyedList.exists_lookup (hnames e he)
        exact ih _ hmem _ (KeyedList.mem_of_lookup hb') rfl (hall e he b hb)

theorem beq_congr_reordered {a a' b b' : Value} (ha : Reordered a a') (hb : Reordered b b') :
    (a == b) = (a' == b') := by
  rw [Bool.eq_iff_iff, beq_iff_same, beq_iff_same]
  constructor
  · intro h
    exact (h.reordered_left ha).reordered_right hb
  · intro h
    exact (h.reordered_left ha.symm).reordered_right hb.symm

/-- Equality of values is symmetric and transitive, holds of a value and itself exactly when no NaN stands in
the value, and does not look at the order of entries in maps at any depth. -/
theorem beq_equivalence :
    (∀ a b : Value, a.Distinct → (a == b) = true → (b == a) = true) ∧
    (∀ a b c : Value, (a == b) = true → (b == c) = true → (a == c) = true) ∧
    (∀ a : Value, a.Distinct →
      ((a == a) = true ↔ ∀ x, Nested (.float x) a → x.isNaN = false)) ∧
    ∀ a a' b b' : Value, Reordered a a' → Reordered b b' → (a == b) = (a' == b') := by
  refine ⟨?_, ?_, ?_, ?_⟩
  · intro a b ha h
    exact ((same_of_beq h).symm ha).beq
  · intro a b c hab hbc
    exact ((same_of_beq hab).trans (same_of_beq hbc)).beq
  · intro a ha
    rw [beq_iff_same]
    exact same_self_iff ha
  · intro a a' b b' ha hb
    exact beq_congr_reordered ha hb

/-- The addressee of a letter. -/
def addressee : Value := .map [("to", .map [("name", .str "Ada"), ("rate", .float .zero)])]

/-- The same addressee, the rate before the name. -/
def addressee' : Value := .map [("to", .map [("rate", .float .zero), ("name", .str "Ada")])]

theorem beq_equivalence_addressee :
    (addressee == addressee') = true ∧ (addressee' == addressee) = true ∧
      (addressee' == addressee') = true ∧
      (Value.seq [addressee, .float .nan] == .seq [addressee, .float .nan]) = false := by
  obtain ⟨hsymm, htrans, hself, hreordered⟩ := beq_equivalence
  have hnames : ([("name", .str "Ada"), ("rate", .float .zero)].map
      (Prod.fst : String × Value → String)).Nodup := by decide
  have hdistinct : addressee.Distinct := by
    refine distinct_map_iff.2 ⟨by decide, List.forall_mem_singleton.2 (distinct_map_iff.2 ⟨hnames, ?_⟩)⟩
    rw [List.forall_mem_cons, List.forall_mem_singleton]
    exact ⟨distinct_of_parts_eq_nil rfl, distinct_of_parts_eq_nil rfl⟩
  have hmixed : Reordered addressee addressee' := by
    refine .map (.refl _) ?_
    rw [List.forall_mem_singleton, List.forall_mem_singleton]
    intro _
    exact reordered_of_perm hnames (.swap _ _ _)
  have hequal : (addressee == addressee') = true := by
    rw [← hreordered addressee addressee addressee addressee' (.refl _) hmixed]
    decide +kernel
  have hback := hsymm addressee addressee' hdistinct hequal
  refine ⟨hequal, hback, htrans _ _ _ hback hequal, ?_⟩
  rw [← Bool.not_eq_true, hself]
  · intro h
    have hnan := h .nan (.item (List.mem_cons_of_mem _ List.mem_cons_self) .here)
    revert hnan
    decide
  · rw [distinct_seq_iff, List.forall_mem_cons, List.forall_mem_singleton]
    exact ⟨hdistinct, distinct_of_parts_eq_nil rfl⟩

end Value

end Stencil
