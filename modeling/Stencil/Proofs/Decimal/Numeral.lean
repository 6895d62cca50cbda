import Mathlib.Algebra.Ring.Nat
import Stencil.Decimal.Integer
import Stencil.Text.Blank
/-!
# Numerals

Reading an integer takes exactly the texts made of an optional sign and at least one digit whose number
fits into 64 bits, and reads back what is written, padded or not.  Texts of digits of one length are in
the order of their numbers.

    readInt64? cs = some n ↔ Numeral cs n.toInt                       (`readInt64?_eq_some_iff`)
    Numeral (writePadded width n) n                                   (`numeral_writePadded`)
    a.length = b.length → value of a < value of b → a < b             (`lt_of_ofDigitChars_lt`)
-/

namespace Stencil.Decimal

/-- At least one digit; the number that the digits stand for in base ten. -/
structure Digits (ds : List Char) (n : Nat) : Prop where
  ne_nil : ds ≠ []
  digit : ∀ c ∈ ds, isDigit c = true
  value : Nat.ofDigitChars 10 ds 0 = n

/-- The text of an integer: digits behind a sign, or without one. -/
inductive Numeral : List Char → Int → Prop where
  | bare {ds : List Char} {n : Nat} : Digits ds n → Numeral ds n
  | plus {ds : List Char} {n : Nat} : Digits ds n → Numeral ('+' :: ds) n
  | minus {ds : List Char} {n : Nat} : Digits ds n → Numeral ('-' :: ds) (-n)

/-! ## Reading -/

theorem readNat?_eq_some_iff {cs : List Char} {n : Nat} : readNat? cs = some n ↔ Digits cs n := by
  rw [readNat?]
  by_cases hnil : cs = []
  · subst hnil
    refine iff_of_false (by simp) ?_
    intro h
    exact h.ne_nil rfl
  · by_cases hall : cs.all isDigit = true
    · rw [if_neg (by simp [hnil, hall]), Option.some.injEq]
      constructor
      · intro h
        exact ⟨hnil, List.all_eq_true.1 hall, h⟩
      · intro h
        exact h.value
    · rw [if_pos (by simp [hall])]
      refine iff_of_false (by simp) ?_
      intro h
      exact hall (List.all_eq_true.2 h.digit)

theorem Digits.not_sign {c : Char} {ds : List Char} {n : Nat} (h : Digits (c :: ds) n) :
    c ≠ '+' ∧ c ≠ '-' := by
  have hc := h.digit c List.mem_cons_self
  constructor
  · rintro rfl
    exact absurd hc (by decide)
  · rintro rfl
    exact absurd hc (by decide)

theorem readInt?_of_bare {cs : List Char} (hplus : cs.head? ≠ some '+') (hminus : cs.head? ≠ some '-') :
    readInt? cs = (readNat? cs).map Int.ofNat := by
  unfold readInt?
  split
  · exact absurd rfl hplus
  · exact absurd rfl hminus
  · rfl

theorem readInt?_eq_some_iff {cs : List Char} {n : Int} : readInt? cs = some n ↔ Numeral cs n := by
  constructor
  · intro h
    unfold readInt? at h
    split at h
    · next ds =>
      obtain ⟨m, hm, rfl⟩ := Option.map_eq_some_iff.1 h
      exact .plus (readNat?_eq_some_iff.1 hm)
    · next ds =>
      obtain ⟨i, hi, rfl⟩ := Option.map_eq_some_iff.1 h
      obtain ⟨m, hm, hcast⟩ := Option.bind_eq_some_iff.1 hi
      obtain rfl := Option.some.inj hcast
      exact .minus (readNat?_eq_some_iff.1 hm)
    · obtain ⟨m, hm, rfl⟩ := Option.map_eq_some_iff.1 h
      exact .bare (readNat?_eq_some_iff.1 hm)
  · intro h
    cases h with
    | @bare _ m hds =>
      have hread := readNat?_eq_some_iff.2 hds
      cases cs with
      | nil => exact absurd rfl hds.ne_nil
      | cons c ds =>
        obtain ⟨hplus, hminus⟩ := hds.not_sign
        rw [readInt?_of_bare (by simp [hplus]) (by simp [hminus]), hread]
        rfl
    | plus hds =>
      rw [readInt?, readNat?_eq_some_iff.2 hds]
      rfl
    | minus hds =>
      rw [readInt?, readNat?_eq_some_iff.2 hds]
      rfl

theorem narrow?_eq_some_iff {i : Int} {n : Int64} : narrow? i = some n ↔ i = n.toInt := by
  rw [narrow?]
  constructor
  · intro h
    split at h
    · next hfits =>
      have hlow : -2 ^ 63 ≤ i := hfits.1
      have hhigh : i < 2 ^ 63 := by
        have hmax : Int64.maxValue.toInt = 2 ^ 63 - 1 := Int64.toInt_maxValue
        omega
      rw [← Option.some.inj h, Int64.toInt_ofInt_of_le hlow hhigh]
    · cases h
  · rintro rfl
    rw [if_pos ⟨n.minValue_le_toInt, n.toInt_le⟩, Int64.ofInt_toInt]

/-- Read as a 64-bit integer are the numerals of its number. -/
theorem readInt64?_eq_some_iff {cs : List Char} {n : Int64} :
    readInt64? cs = some n ↔ Numeral cs n.toInt := by
  rw [readInt64?, Option.bind_eq_some_iff]
  simp only [narrow?_eq_some_iff, readInt?_eq_some_iff, exists_eq_right]

/-! ## Characters -/

theorem toNat_of_isDigit {c : Char} (h : isDigit c = true) : 48 ≤ c.toNat ∧ c.toNat ≤ 57 := by
  simp only [isDigit, Bool.and_eq_true, decide_eq_true_eq, Char.le_def, UInt32.le_iff_toNat_le] at h
  exact h

theorem not_blank_of_isDigit {c : Char} (h : isDigit c = true) : Text.isBlank c = false := by
  have hrange := toNat_of_isDigit h
  rw [Text.isBlank]
  simp
  omega

theorem Numeral.ne_nil {cs : List Char} {n : Int} (h : Numeral cs n) : cs ≠ [] := by
  cases h with
  | bare hds => exact hds.ne_nil
  | plus hds => simp
  | minus hds => simp

/-- Every character of a numeral is a digit or a sign. -/
theorem Numeral.char {cs : List Char} {n : Int} (h : Numeral cs n) :
    ∀ c ∈ cs, c = '+' ∨ c = '-' ∨ isDigit c = true := by
  intro c hc
  cases h with
  | bare hds => exact .inr (.inr (hds.digit c hc))
  | plus hds =>
    rcases List.mem_cons.1 hc with rfl | hc
    · exact .inl rfl
    · exact .inr (.inr (hds.digit c hc))
  | minus hds =>
    rcases List.mem_cons.1 hc with rfl | hc
    · exact .inr (.inl rfl)
    · exact .inr (.inr (hds.digit c hc))

theorem Numeral.not_blank {cs : List Char} {n : Int} (h : Numeral cs n) :
    ∀ c ∈ cs, Text.isBlank c = false := by
  intro c hc
  rcases h.char c hc with rfl | rfl | hdigit
  · decide
  · decide
  · exact not_blank_of_isDigit hdigit

theorem isDigit_of_mem_toDigits {n : Nat} {c : Char} (h : c ∈ Nat.toDigits 10 n) : isDigit c = true :=
  (isDigit_iff c).2 (Nat.isDigit_of_mem_toDigits (by decide) (by decide) h)

/-! ## Writing -/

/-- Zeros in front of the digits of a number do not count. -/
theorem digits_zeros_append (k n : Nat) : Digits (List.replicate k '0' ++ Nat.toDigits 10 n) n := by
  refine ⟨?_, ?_, ?_⟩
  · simp
  · intro c hc
    rcases List.mem_append.1 hc with hc | hc
    · rw [List.eq_of_mem_replicate hc]
      decide
    · exact isDigit_of_mem_toDigits hc
  · rw [Nat.ofDigitChars_append, Nat.ofDigitChars_replicate_zero, Nat.mul_zero,
      Nat.ofDigitChars_ten_toDigits]

/-- A padded integer is its sign, if it is negative, and digits. -/
theorem exists_digits_writePadded (width : Nat) (n : Int) :
    ∃ ds, Digits ds n.natAbs ∧ writePadded width n = (if n < 0 then ['-'] else []) ++ ds := by
  rw [writePadded]
  by_cases hneg : n < 0
  · refine ⟨_, digits_zeros_append (width - ((Nat.toDigits 10 n.natAbs).length + 1)) n.natAbs, ?_⟩
    rw [if_pos hneg, if_pos hneg, List.singleton_append]
  · refine ⟨_, digits_zeros_append (width - (Nat.toDigits 10 n.natAbs).length) n.natAbs, ?_⟩
    rw [if_neg hneg, if_neg hneg, List.nil_append]

theorem numeral_writePadded (width : Nat) (n : Int) : Numeral (writePadded width n) n := by
  obtain ⟨ds, hds, hwrite⟩ := exists_digits_writePadded width n
  rw [hwrite]
  by_cases hneg : n < 0
  · have hminus := Numeral.minus hds
    rw [if_pos hneg]
    rwa [Int.ofNat_natAbs_of_nonpos (Int.le_of_lt hneg), Int.neg_neg] at hminus
  · have hbare := Numeral.bare hds
    rw [if_neg hneg]
    rwa [Int.natAbs_of_nonneg (Int.not_lt.1 hneg)] at hbare

/-- Without padding the integer is written as it is. -/
theorem writePadded_zero (n : Int) : writePadded 0 n = writeInt n := by
  rw [writePadded, writeInt]
  simp

theorem numeral_writeInt (n : Int) : Numeral (writeInt n) n := by
  rw [← writePadded_zero]
  exact numeral_writePadded 0 n

theorem length_writePadded (width : Nat) (n : Int) :
    (writePadded width n).length = max width (writeInt n).length := by
  rw [writePadded, writeInt]
  by_cases hneg : n < 0
  · rw [if_pos hneg, if_pos hneg]
    simp only [List.length_cons, List.length_append, List.length_replicate]
    omega
  · rw [if_neg hneg, if_neg hneg]
    simp only [List.length_append, List.length_replicate]
    omega

/-! ## Order -/

theorem ofDigitChars_cons_eq (c : Char) (ds : List Char) :
    Nat.ofDigitChars 10 (c :: ds) 0 = (c.toNat - 48) * 10 ^ ds.length + Nat.ofDigitChars 10 ds 0 := by
  rw [Nat.ofDigitChars_cons, Nat.ofDigitChars_eq_ofDigitChars_zero]
  show _ * (10 * 0 + (c.toNat - 48)) + _ = _
  rw [Nat.mul_zero, Nat.zero_add, Nat.mul_comm]

theorem ofDigitChars_lt {ds : List Char} (h : ∀ c ∈ ds, isDigit c = true) :
    Nat.ofDigitChars 10 ds 0 < 10 ^ ds.length := by
  induction ds with
  | nil => simp
  | cons c ds ih =>
    have hc := toNat_of_isDigit (h c List.mem_cons_self)
    have hds := ih fun d hd => h d (List.mem_cons_of_mem c hd)
    have hlead : (c.toNat - 48) * 10 ^ ds.length ≤ 9 * 10 ^ ds.length :=
      Nat.mul_le_mul_right _ (by omega)
    rw [ofDigitChars_cons_eq, List.length_cons, Nat.pow_succ]
    omega

/-- Of two texts of digits with one length the one with the smaller number comes first. -/
theorem lt_of_ofDigitChars_lt {a b : List Char} (ha : ∀ c ∈ a, isDigit c = true)
    (hb : ∀ c ∈ b, isDigit c = true) (hlen : a.length = b.length)
    (h : Nat.ofDigitChars 10 a 0 < Nat.ofDigitChars 10 b 0) : a < b := by
  induction a generalizing b with
  | nil =>
    cases b with
    | nil => exact absurd h (Nat.lt_irrefl _)
    | cons d b => cases hlen
  | cons c a ih =>
    cases b with
    | nil => cases hlen
    | cons d b =>
      obtain ⟨hc, ha'⟩ := List.forall_mem_cons.1 ha
      obtain ⟨hd, hb'⟩ := List.forall_mem_cons.1 hb
      have hlen' : a.length = b.length := Nat.succ.inj hlen
      have hrest := ofDigitChars_lt hb'
      rw [ofDigitChars_cons_eq, ofDigitChars_cons_eq, hlen'] at h
      rw [List.cons_lt_cons_iff]
      rcases Nat.lt_trichotomy c.toNat d.toNat with hlt | heq | hgt
      · exact .inl hlt
      · obtain rfl := Char.toNat_inj.1 heq
        exact .inr ⟨rfl, ih ha' hb' hlen' (by omega)⟩
      · -- a larger digit in front outweighs all that follows
        exfalso
        have hlow := toNat_of_isDigit hd
        have hlead : (d.toNat - 48 + 1) * 10 ^ b.length ≤ (c.toNat - 48) * 10 ^ b.length :=
          Nat.mul_le_mul_right _ (by omega)
        rw [Nat.succ_mul] at hlead
        omega

end Stencil.Decimal
