import Stencil.Proofs.Decimal.Numeral
import Stencil.Proofs.Placeholder.Outcome
import Stencil.Proofs.Text.Trimmed
/-!
# Zero padding

The text of an integer under a width is a minus sign, if it is negative, and digits, as many as fill the
width.  It reads back as the integer, so that at one width different integers have different texts; and
integers that are not negative and fit into the width are in the order of their texts.

    v.asInteger? = some n → p.renderValue (some v) = .ok (some (paddedText p.zeros n))
    Padded width n (paddedText width n)                                 (`padded_paddedText`)
    0 ≤ m < n, both within the width → paddedText width m < paddedText width n    (`paddedText_lt`)
-/

namespace Stencil.Placeholder

open Decimal

/-- The integer in base ten, filled up with zeros. -/
def paddedText (width : Nat) (n : Int64) : String := String.ofList (writePadded width n.toInt)

/-- A text for an integer under a width. -/
structure Padded (width : Nat) (n : Int64) (text : String) : Prop where
  /-- The text is read as the integer. -/
  reads : (Value.str text).asInteger? = some n
  /-- The width, or more if the plain integer takes more. -/
  length : text.length = max width (writeInt n.toInt).length
  /-- A sign of a negative integer, then nothing but digits. -/
  shape : ∃ ds, Digits ds n.toInt.natAbs ∧
    text.toList = (if n.toInt < 0 then ['-'] else []) ++ ds

/-! ## Lemmas -/

theorem toList_paddedText (width : Nat) (n : Int64) :
    (paddedText width n).toList = writePadded width n.toInt := by
  rw [paddedText, String.toList_ofList]

theorem padded_paddedText (width : Nat) (n : Int64) : Padded width n (paddedText width n) := by
  have hnumeral := numeral_writePadded width n.toInt
  constructor
  · show readInt64? (Text.trim (paddedText width n).toList) = some n
    rw [toList_paddedText, Text.trim_of_not_blank hnumeral.not_blank]
    exact readInt64?_eq_some_iff.2 hnumeral
  · rw [← String.length_toList, toList_paddedText, length_writePadded]
  · rw [toList_paddedText]
    exact exists_digits_writePadded width n.toInt

theorem Padded.injective {width : Nat} {m n : Int64} {text : String} (hm : Padded width m text)
    (hn : Padded width n text) : m = n := by
  have h := hm.reads
  rw [hn.reads] at h
  exact (Option.some.inj h).symm

/-- Texts of one length, both without a sign: the digits decide. -/
theorem paddedText_lt {width : Nat} {m n : Int64} (hm : 0 ≤ m.toInt) (hlt : m.toInt < n.toInt)
    (hmfits : (writeInt m.toInt).length ≤ width) (hnfits : (writeInt n.toInt).length ≤ width) :
    paddedText width m < paddedText width n := by
  obtain ⟨as, has, hmtext⟩ := (padded_paddedText width m).shape
  obtain ⟨bs, hbs, hntext⟩ := (padded_paddedText width n).shape
  rw [if_neg (by omega), List.nil_append] at hmtext hntext
  have hlength : as.length = bs.length := by
    rw [← hmtext, ← hntext, toList_paddedText, toList_paddedText, length_writePadded,
      length_writePadded, max_eq_left hmfits, max_eq_left hnfits]
  have hvalue : Nat.ofDigitChars 10 as 0 < Nat.ofDigitChars 10 bs 0 := by
    rw [has.value, hbs.value]
    omega
  have hbefore : as < bs := lt_of_ofDigitChars_lt has.digit hbs.digit hlength hvalue
  show (paddedText width m).toList < (paddedText width n).toList
  rw [hmtext, hntext]
  exact hbefore

theorem renderValue_padded {p : Placeholder} (haccessor : p.accessor = none) (hwidth : 0 < p.zeros)
    {v : Value} {n : Int64} (hv : v.asInteger? = some n) :
    p.renderValue (some v) = .ok (some (paddedText p.zeros n)) := by
  have hnull : v ≠ .null := by
    rintro rfl
    cases hv
  exact renderValue_eq_iff.2 (.text hnull (.whole haccessor) hnull (.padded hwidth hv))

/-! ## Top theorem -/

/-- A placeholder without accessor and with a width writes every value that is an integer, or writes
one, as a padded text: it reads back as the same integer, has the length of the width unless the plain
integer is longer, and consists of digits behind a sign that only a negative integer has.  Two values
with the same text are the same integer, and of two integers that are not negative and fit into the
width the smaller one has the smaller text. -/
theorem padding_lossless_sorted {p : Placeholder} (haccessor : p.accessor = none)
    (hwidth : 0 < p.zeros) :
    (∀ (v : Value) (n : Int64), v.asInteger? = some n →
      ∃ text, p.renderValue (some v) = .ok (some text) ∧ Padded p.zeros n text) ∧
    (∀ (v v' : Value) (m n : Int64), v.asInteger? = some m → v'.asInteger? = some n →
      p.renderValue (some v) = p.renderValue (some v') → m = n) ∧
    ∀ (v v' : Value) (m n : Int64), v.asInteger? = some m → v'.asInteger? = some n →
      0 ≤ m.toInt → m.toInt < n.toInt →
      (writeInt m.toInt).length ≤ p.zeros → (writeInt n.toInt).length ≤ p.zeros →
      ∃ text text', p.renderValue (some v) = .ok (some text) ∧
        p.renderValue (some v') = .ok (some text') ∧ text < text' := by
  refine ⟨?_, ?_, ?_⟩
  · intro v n hv
    exact ⟨_, renderValue_padded haccessor hwidth hv, padded_paddedText p.zeros n⟩
  · intro v v' m n hv hv' hsame
    rw [renderValue_padded haccessor hwidth hv, renderValue_padded haccessor hwidth hv',
      Except.ok.injEq, Option.some.injEq] at hsame
    have hpadded := padded_paddedText p.zeros n
    rw [← hsame] at hpadded
    exact (padded_paddedText p.zeros m).injective hpadded
  · intro v v' m n hv hv' hm hlt hmfits hnfits
    exact ⟨_, _, renderValue_padded haccessor hwidth hv, renderValue_padded haccessor hwidth hv',
      paddedText_lt hm hlt hmfits hnfits⟩

/-- The least integer is longer than the width; a text with a sign and an integer are in order. -/
theorem padding_lossless_sorted_count :
    let p : Placeholder := ⟨"count", 4, none⟩
    p.accessor = none ∧ 0 < p.zeros ∧
      (∃ text, p.renderValue (some (.int Int64.minValue)) = .ok (some text) ∧
        Padded 4 Int64.minValue text) ∧
      ∃ text text', p.renderValue (some (.str " +7 ")) = .ok (some text) ∧
        p.renderValue (some (.int 42)) = .ok (some text') ∧ text < text' := by
  have hread : (Value.str " +7 ").asInteger? = some 7 := by decide
  have hcount := padding_lossless_sorted (p := ⟨"count", 4, none⟩) rfl (by decide)
  refine ⟨rfl, by decide, ?_, ?_⟩
  · exact hcount.1 (.int Int64.minValue) Int64.minValue rfl
  · exact hcount.2.2 (.str " +7 ") (.int 42) 7 42 hread rfl (by decide) (by decide) (by decide)
      (by decide)

end Stencil.Placeholder
