import Stencil.Json.Writer
import Stencil.Proofs.Json.Reading
/-!
# Compact text is JSON text

Compact text spells the data that it is written for, and so the reader gives this data back, with its keys
sorted.  This is for data without floats, whose integers have 64 bits, signed or unsigned: a float is
written with as many digits as it takes, which is not followed here.

    Exact j → SpellsBare j (writeCompact j)                           (`spells_writeCompact`)
    Exact j → j.depth ≤ maxDepth → read? j.compact = some j.sorted    (`read?_compact`)
-/

namespace Stencil.Json

open Decimal (isDigit)

/-- Data whose numbers are integers that the reader takes as they are. -/
inductive Exact : Json → Prop where
  | null : Exact .null
  | bool (b : Bool) : Exact (.bool b)
  | integer {n : Int} : Int64.minValue.toInt ≤ n → n ≤ maxSignificand → Exact (.integer n)
  | string (s : String) : Exact (.string s)
  | array {items : List Json} : (∀ item ∈ items, Exact item) → Exact (.array items)
  | object {members : List (String × Json)} : (∀ member ∈ members, Exact member.2) →
    Exact (.object members)

/-! ## Strings -/

theorem unitText_control : ∀ n < 0x20,
    Text.readHex? 4 ['0', '0', hexDigit (n / 16), hexDigit n] = some n := by
  decide

theorem stringText_escapeChar (c : Char) {s cs : List Char} (h : StringText s cs) :
    StringText (c :: s) (escapeChar c ++ cs) := by
  have hcode (n : Nat) (hn : c.toNat = n) : c = Char.ofNat n := by rw [← hn, Char.ofNat_toNat]
  unfold escapeChar
  split_ifs with hquote hbackslash hline hreturn htab hback hform hcontrol
  · exact .escape (.short (by rw [hquote]; decide)) h
  · exact .escape (.short (by rw [hbackslash]; decide)) h
  · exact .escape (.short (by rw [hline]; decide)) h
  · exact .escape (.short (by rw [hreturn]; decide)) h
  · exact .escape (.short (by rw [htab]; decide)) h
  · exact .escape (.short (by rw [hcode _ hback]; decide)) h
  · exact .escape (.short (by rw [hcode _ hform]; decide)) h
  · have hunit : EscapeText (Char.ofNat c.toNat)
        ('u' :: ['0', '0', hexDigit (c.toNat / 16), hexDigit c.toNat]) :=
      .unit ⟨rfl, unitText_control _ hcontrol⟩ (by omega)
    rw [Char.ofNat_toNat] at hunit
    exact .escape hunit h
  · exact .char hquote hbackslash (Nat.not_lt.1 hcontrol) h

theorem stringText_flatMap (s : List Char) : StringText s (s.flatMap escapeChar) := by
  induction s with
  | nil => exact .nil
  | cons c s ih => exact stringText_escapeChar c ih

/-! ## Integers -/

theorem head_toDigits {n : Nat} (h : 0 < n) : (Nat.toDigits 10 n).head? ≠ some '0' := by
  induction n using Nat.strongRecOn with
  | ind n ih =>
    by_cases hsmall : n < 10
    · rw [Nat.toDigits_of_lt_base hsmall]
      have hdigit : ∀ m < 10, 0 < m → [m.digitChar].head? ≠ some '0' := by decide
      exact hdigit n hsmall h
    · have hquotient : 0 < n / 10 := by omega
      rw [Nat.toDigits_of_base_le (by decide) (by omega),
        List.head?_append_of_ne_nil _ Nat.toDigits_ne_nil]
      exact ih (n / 10) (by omega) hquotient

theorem wholePart_toDigits (n : Nat) : WholePart (Nat.toDigits 10 n) := by
  refine ⟨Nat.toDigits_ne_nil, fun c hc => Decimal.isDigit_of_mem_toDigits hc, fun hhead => ?_⟩
  rcases Nat.eq_zero_or_pos n with rfl | hpos
  · decide
  · exact absurd hhead (head_toDigits hpos)

/-- All digits of a number of 64 bits are taken. -/
theorem takeSignificand_of_le {ds : List Char} {significand : Nat} (taken : Nat)
    (h : Nat.ofDigitChars 10 ds significand ≤ maxSignificand) :
    takeSignificand significand taken ds = (Nat.ofDigitChars 10 ds significand, taken + ds.length, []) := by
  induction ds generalizing significand taken with
  | nil => rfl
  | cons c ds ih =>
    have hdigit : significand * 10 + (c.toNat - 48) = 10 * significand + (c.toNat - '0'.toNat) := by
      rw [Nat.mul_comm]
      rfl
    rw [Nat.ofDigitChars_cons, ← hdigit] at h ⊢
    have hnext : significand * 10 + (c.toNat - 48) ≤ maxSignificand := by
      refine Nat.le_trans ?_ h
      rw [Nat.ofDigitChars_eq_ofDigitChars_zero]
      exact Nat.le_trans (Nat.le_mul_of_pos_left _ (Nat.pow_pos (by decide))) (Nat.le_add_right _ _)
    rw [takeSignificand, if_neg (Nat.not_lt.2 hnext), ih _ h, List.length_cons, Nat.add_assoc,
      Nat.add_comm 1]

theorem numberOf_toDigits {n : Nat} (h : n ≤ maxSignificand) (negative : Bool)
    (hnegative : negative = true → 0 < n ∧ n ≤ Binary64.signBit) :
    numberOf negative (Nat.toDigits 10 n) none none =
      some (.integer (if negative then -(n : Int) else n)) := by
  have htake := takeSignificand_of_le 0 (Nat.ofDigitChars_ten_toDigits.trans_le h)
  rw [Nat.ofDigitChars_ten_toDigits] at htake
  rw [numberOf, htake]
  cases negative with
  | false => rfl
  | true =>
    obtain ⟨hpos, hbit⟩ := hnegative rfl
    have hcond : ¬ (n = 0 || Binary64.signBit < n : Bool) = true := by
      simp only [Bool.or_eq_true, decide_eq_true_eq]
      omega
    simp only [Option.isNone_none, List.isEmpty_nil, Bool.and_self, if_true, Bool.not_true,
      Bool.false_eq_true, if_false, if_neg hcond]

theorem numberText_writeInt {n : Int} (hmin : Int64.minValue.toInt ≤ n) (hmax : n ≤ maxSignificand) :
    NumberText (.integer n) (Decimal.writeInt n) := by
  have hbit : Int64.minValue.toInt = -(Binary64.signBit : Int) := by decide
  have hsign : Binary64.signBit ≤ maxSignificand := by decide
  have hnumber := numberOf_toDigits (n := n.natAbs) (by omega) (decide (n < 0)) (by
    simp only [decide_eq_true_eq]
    omega)
  have htext := NumberText.intro (wholePart_toDigits n.natAbs) .none .none hnumber
  by_cases hneg : n < 0
  · have hvalue : -(n.natAbs : Int) = n := by omega
    rw [Decimal.writeInt, if_pos hneg]
    simp only [hneg, decide_true, if_true, hvalue, List.append_nil] at htext
    exact htext
  · have hvalue : (n.natAbs : Int) = n := by omega
    rw [Decimal.writeInt, if_neg hneg]
    simp only [hneg, decide_false, Bool.false_eq_true, if_false, hvalue, List.append_nil] at htext
    exact htext

/-! ## Items and members -/

theorem spellsItems_writeCompactItems {items : List Json}
    (h : ∀ item ∈ items, SpellsBare item (writeCompact item)) :
    SpellsItems items (writeCompactItems items) := by
  induction items with
  | nil => exact .none spaces_nil
  | cons j items ih =>
    rw [List.forall_mem_cons] at h
    cases items with
    | nil => exact .last (.of_bare h.1)
    | cons k items => exact .more (.of_bare h.1) (List.cons_ne_nil k items) (ih h.2)

theorem spellsMember_quote (key : String) {j : Json} (h : SpellsBare j (writeCompact j)) :
    SpellsMember (key, j) (quote key ++ ':' :: writeCompact j) := by
  have hmember := SpellsMember.intro spaces_nil (stringText_flatMap key.toList) spaces_nil (.of_bare h)
  simpa [quote] using hmember

theorem spellsMembers_writeCompactMembers {members : List (String × Json)}
    (h : ∀ member ∈ members, SpellsBare member.2 (writeCompact member.2)) :
    SpellsMembers members (writeCompactMembers members) := by
  induction members with
  | nil => exact .none spaces_nil
  | cons member members ih =>
    rw [List.forall_mem_cons] at h
    cases members with
    | nil => exact .last (spellsMember_quote _ h.1)
    | cons next members =>
      have hmore := SpellsMembers.more (spellsMember_quote member.1 h.1)
        (List.cons_ne_nil next members) (ih h.2)
      rw [List.append_assoc, List.cons_append] at hmore
      exact hmore

/-- Compact text is text of the data it is written for. -/
theorem spells_writeCompact {j : Json} (h : j.Exact) : SpellsBare j (writeCompact j) := by
  induction h with
  | null => exact .null
  | bool b => exact .bool b
  | integer hmin hmax => exact .integer (numberText_writeInt hmin hmax)
  | string s => exact .string (stringText_flatMap s.toList)
  | array _ ih => exact .array (spellsItems_writeCompactItems ih)
  | object _ ih => exact .object (spellsMembers_writeCompactMembers ih)

theorem read?_compact {j : Json} (h : j.Exact) (hdepth : j.depth ≤ maxDepth) :
    read? j.compact = some j.sorted := by
  refine read?_eq_some_iff.2 ⟨j, ?_, hdepth, rfl⟩
  rw [compact, String.toList_ofList]
  exact .of_bare (spells_writeCompact h)

end Stencil.Json
