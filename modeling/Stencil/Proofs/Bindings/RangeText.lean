import Stencil.Proofs.Decimal.Numeral
import Stencil.Proofs.Text.Separated
import Stencil.Proofs.Text.Trimmed
import Stencil.Value.Json
/-!
# Which texts are ranges

A range text is two numerals around two points, with one equals sign right behind the points or
without it, and blanks around both numerals.  Exactly these texts are read, and the text that a range
is written as is one of them.

    RangeText cs b → readChars? cs = some b                     (`RangeText.readChars?`)
    readChars? cs = some b → RangeText cs b                     (`rangeText_of_readChars?`)
    RangeText (Value.rangeText first last).toList ⟨first, last⟩ (`rangeText_written`)
-/

namespace Stencil

namespace Bounds

open Decimal Text

/-- A text that stands for a range of integers. -/
inductive RangeText : List Char → Bounds → Prop where
  | intro {w₁ first w₂ equals w₃ last w₄ : List Char} {b : Bounds} :
    Blanks w₁ → Numeral first b.first.toInt → Blanks w₂ → (equals = [] ∨ equals = ['=']) →
    Blanks w₃ → Numeral last b.last.toInt → Blanks w₄ →
    RangeText (w₁ ++ first ++ w₂ ++ ['.', '.'] ++ equals ++ w₃ ++ last ++ w₄) b

/-! ## Texts that are read -/

theorem exists_equals (cs : List Char) :
    ∃ equals, (equals = [] ∨ equals = ['=']) ∧ cs = equals ++ dropEquals cs := by
  unfold dropEquals
  split
  · next cs => exact ⟨['='], .inr rfl, rfl⟩
  · exact ⟨[], .inl rfl, rfl⟩

theorem readChars?_eq_some {cs : List Char} {b : Bounds} (h : readChars? cs = some b) :
    ∃ front back, splitAtFirst ['.', '.'] (trim cs) = some (front, back) ∧
      readInt64? (trim front) = some b.first ∧
      readInt64? (trim (dropEquals back)) = some b.last := by
  rw [Bounds.readChars?] at h
  split at h
  · cases h
  · next front back hsplit =>
    split at h
    · next first last hfirst hlast =>
      obtain rfl := Option.some.inj h
      exact ⟨front, back, hsplit, hfirst, hlast⟩
    · cases h

theorem rangeText_of_readChars? {cs : List Char} {b : Bounds} (h : readChars? cs = some b) :
    RangeText cs b := by
  obtain ⟨front, back, hsplit, hfirst, hlast⟩ := readChars?_eq_some h
  obtain ⟨w₁, w₄, hw₁, hw₄, hcs⟩ := exists_blanks_trim cs
  obtain ⟨v₁, w₂, hv₁, hw₂, hfront⟩ := exists_blanks_trim front
  obtain ⟨equals, hequals, hback⟩ := exists_equals back
  obtain ⟨w₃, v₄, hw₃, hv₄, hdrop⟩ := exists_blanks_trim (dropEquals back)
  -- the blanks at the ends are those of the whole text and those of its two halves
  have hwhole : cs = (w₁ ++ v₁) ++ trim front ++ w₂ ++ ['.', '.'] ++ equals ++ w₃ ++
      trim (dropEquals back) ++ (v₄ ++ w₄) :=
    calc cs = w₁ ++ (front ++ ['.', '.'] ++ back) ++ w₄ := by
          rw [← eq_append_of_splitAtFirst hsplit]
          exact hcs
      _ = w₁ ++ ((v₁ ++ trim front ++ w₂) ++ ['.', '.'] ++
            (equals ++ (w₃ ++ trim (dropEquals back) ++ v₄))) ++ w₄ := by
          rw [← hfront, ← hdrop, ← hback]
      _ = _ := by simp only [List.append_assoc]
  rw [hwhole]
  exact .intro (hv₁.append_left hw₁) (readInt64?_eq_some_iff.1 hfirst) hw₂ hequals hw₃
    (readInt64?_eq_some_iff.1 hlast) (hw₄.append_left hv₄)

/-! ## Reading them -/

theorem dropEquals_append {equals rest : List Char} (h : equals = [] ∨ equals = ['='])
    (hrest : rest.head? ≠ some '=') : dropEquals (equals ++ rest) = rest := by
  rcases h with rfl | rfl
  · rw [List.nil_append]
    unfold dropEquals
    split
    · exact absurd rfl hrest
    · rfl
  · rfl

theorem not_mem_blanks {w : List Char} (hw : Blanks w) {c : Char} (hc : isBlank c = false) : c ∉ w := by
  intro hmem
  rw [hw c hmem] at hc
  cases hc

theorem not_mem_numeral {cs : List Char} {n : Int} (h : Numeral cs n) {c : Char} (hplus : c ≠ '+')
    (hminus : c ≠ '-') (hdigit : isDigit c = false) : c ∉ cs := by
  intro hmem
  rcases h.char c hmem with hc | hc | hc
  · exact hplus hc
  · exact hminus hc
  · rw [hdigit] at hc
    cases hc

section

variable {w₁ first w₂ equals w₃ last w₄ : List Char} {m n : Int}

theorem trim_numeral (hw₁ : Blanks w₁) (hw₂ : Blanks w₂) (h : Numeral first m) :
    trim (w₁ ++ first ++ w₂) = first :=
  trim_blanks_append hw₁ hw₂ (tight_of_not_blank h.not_blank)

/-- The blanks at the ends go, those at the points stay. -/
theorem trim_around (hw₁ : Blanks w₁) (hfirst : Numeral first m) (hlast : Numeral last n)
    (hw₄ : Blanks w₄) (mid : List Char) :
    trim (w₁ ++ first ++ mid ++ last ++ w₄) = first ++ mid ++ last := by
  have htight := (tight_of_not_blank hfirst.not_blank).append (tight_of_not_blank hlast.not_blank)
    hfirst.ne_nil hlast.ne_nil mid
  rw [← trim_blanks_append hw₁ hw₄ htight]
  simp only [List.append_assoc]

/-- The first two points are those behind the first numeral. -/
theorem splitAtFirst_points (hfirst : Numeral first m) (hw₂ : Blanks w₂) (rest : List Char) :
    splitAtFirst ['.', '.'] (first ++ w₂ ++ ['.', '.'] ++ rest) = some (first ++ w₂, rest) := by
  refine splitAtFirst_append ?_ rest
  rw [List.mem_append, not_or]
  exact ⟨not_mem_numeral hfirst (by decide) (by decide) (by decide), not_mem_blanks hw₂ (by decide)⟩

/-- Behind the points one equals sign goes. -/
theorem dropEquals_around (hequals : equals = [] ∨ equals = ['=']) (hw₃ : Blanks w₃)
    (hlast : Numeral last n) : dropEquals (equals ++ (w₃ ++ last)) = w₃ ++ last := by
  refine dropEquals_append hequals ?_
  intro hhead
  rcases List.mem_append.1 (List.mem_of_mem_head? hhead) with hmem | hmem
  · exact not_mem_blanks hw₃ (by decide) hmem
  · exact not_mem_numeral hlast (by decide) (by decide) (by decide) hmem

end

theorem readChars?_of_split {cs front back : List Char} {b : Bounds}
    (hsplit : splitAtFirst ['.', '.'] (trim cs) = some (front, back))
    (hfirst : readInt64? (trim front) = some b.first)
    (hlast : readInt64? (trim (dropEquals back)) = some b.last) : readChars? cs = some b := by
  rw [Bounds.readChars?, hsplit]
  simp only [hfirst, hlast]

theorem RangeText.readChars? {cs : List Char} {b : Bounds} (h : RangeText cs b) :
    Bounds.readChars? cs = some b := by
  cases h with
  | @intro w₁ first w₂ equals w₃ last w₄ _ hw₁ hfirst hw₂ hequals hw₃ hlast hw₄ =>
    have hnone : Blanks [] := by simp [Blanks]
    have hfront : trim (first ++ w₂) = first := trim_numeral hnone hw₂ hfirst
    have hback : trim (w₃ ++ last) = last := by
      have h := trim_numeral hw₃ hnone hlast
      rwa [List.append_nil] at h
    have hsplit : splitAtFirst ['.', '.']
        (trim (w₁ ++ first ++ w₂ ++ ['.', '.'] ++ equals ++ w₃ ++ last ++ w₄)) =
        some (first ++ w₂, equals ++ (w₃ ++ last)) := by
      have htrim := trim_around hw₁ hfirst hlast hw₄ (w₂ ++ ['.', '.'] ++ (equals ++ w₃))
      have hpoints := splitAtFirst_points hfirst hw₂ (equals ++ (w₃ ++ last))
      simp only [List.append_assoc] at htrim hpoints ⊢
      rw [htrim, hpoints]
    refine readChars?_of_split hsplit ?_ ?_
    · rw [hfront]
      exact readInt64?_eq_some_iff.2 hfirst
    · rw [dropEquals_around hequals hw₃ hlast, hback]
      exact readInt64?_eq_some_iff.2 hlast

/-! ## Written ranges -/

theorem rangeText_written (first last : Int64) :
    RangeText (Value.rangeText first last).toList ⟨first, last⟩ := by
  have hnone : Blanks [] := by simp [Blanks]
  have h := RangeText.intro (b := ⟨first, last⟩) hnone (numeral_writeInt first.toInt) hnone
    (.inl rfl) hnone (numeral_writeInt last.toInt) hnone
  rw [Value.rangeText, String.toList_ofList]
  simpa using h

/-- The texts that are read as a range are the range texts, each as the range it stands for; the text
that a range is written as is read back as this range, by itself and as data under `$range`. -/
theorem read?_exact :
    (∀ (text : String) (b : Bounds), Bounds.read? text = some b ↔ RangeText text.toList b) ∧
      ∀ first last : Int64, ∃ text : String,
        (Value.range first last).toJson = .string text ∧
        Bounds.read? text = some ⟨first, last⟩ ∧
        Value.ofJson (.object [(rangeKey, .string text)]) = .ok (.range first last) := by
  have hread : ∀ (text : String) (b : Bounds), Bounds.read? text = some b ↔ RangeText text.toList b := by
    intro text b
    constructor
    · intro h
      exact rangeText_of_readChars? h
    · intro h
      exact h.readChars?
  refine ⟨hread, ?_⟩
  intro first last
  have hback := (hread _ _).2 (rangeText_written first last)
  refine ⟨Value.rangeText first last, by rw [Value.toJson], hback, ?_⟩
  rw [Value.ofJson, if_pos rfl, Value.rangeOf, Value.boundsOf?, hback]
  rfl

-- blanks stand anywhere around the numerals, but not in front of the equals sign
example : Bounds.read? " +7 ..= -3\t" = some ⟨7, -3⟩ ∧ Bounds.read? "1.. =2" = none := by decide

end Bounds

end Stencil
