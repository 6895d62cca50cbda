import Mathlib.Data.List.TakeWhile
import Stencil.Json.Reader
import Stencil.Proofs.Decimal.Numeral
/-!
# Numbers in JSON text

A number is a minus sign or none, the digits of its whole part with no zero in front of others, and
perhaps a fraction and an exponent.  Exactly these texts are read, as far as what follows does not go on
with the number; an integer among them fits into 64 bits.

    NumberText j cs → Stops rest → readNumber (cs ++ rest) = some (j, rest)        (`readNumber_append`)
    readNumber cs = some (j, rest) → ∃ a, NumberText j a ∧ cs = a ++ rest          (`of_readNumber`)
    NumberText j cs → cs.count '.' ≤ 1                                             (`NumberText.count_point`)
-/

namespace Stencil.Json

open Decimal

/-! ## Grammar -/

/-- The digits of the whole part: zero only stands alone. -/
structure WholePart (ds : List Char) : Prop where
  ne_nil : ds ≠ []
  digit : ∀ c ∈ ds, isDigit c = true
  leading : ds.head? = some '0' → ds.length ≤ 1

inductive FractionText : Option (List Char) → List Char → Prop where
  | none : FractionText none []
  | some {ds : List Char} : ds ≠ [] → (∀ c ∈ ds, isDigit c = true) → FractionText (some ds) ('.' :: ds)

inductive ExponentText : Option Int → List Char → Prop where
  | none : ExponentText none []
  | some {e : Char} {cs : List Char} {n : Int} : e = 'e' ∨ e = 'E' → Numeral cs n →
    ExponentText (some n) (e :: cs)

/-- The text of a number and its data. -/
inductive NumberText : Json → List Char → Prop where
  | intro {negative : Bool} {whole fs es : List Char} {fraction : Option (List Char)}
    {exponent : Option Int} {j : Json} : WholePart whole → FractionText fraction fs →
    ExponentText exponent es → numberOf negative whole fraction exponent = some j →
    NumberText j ((if negative then ['-'] else []) ++ whole ++ (fs ++ es))

/-- No character comes next that could belong to a number. -/
def Stops (rest : List Char) : Prop :=
  ∀ c, rest.head? = some c → isDigit c = false ∧ c ≠ '.' ∧ c ≠ 'e' ∧ c ≠ 'E'

theorem stops_nil : Stops [] := by
  intro c h
  cases h

theorem stops_cons {c : Char} {cs : List Char} (hdigit : isDigit c = false) (hpoint : c ≠ '.')
    (he : c ≠ 'e') (hE : c ≠ 'E') : Stops (c :: cs) := by
  intro d h
  obtain rfl := Option.some.inj h
  exact ⟨hdigit, hpoint, he, hE⟩

/-! ## After the sign -/

/-- A number from after its sign. -/
def readUnsigned (negative : Bool) (cs : List Char) : Option (Json × List Char) :=
  let whole := cs.takeWhile isDigit
  if whole.isEmpty then none
  else if whole.head? = some '0' && 1 < whole.length then none
  else
    (readFraction (cs.dropWhile isDigit)).bind fun (fraction, cs) =>
      (readExponent cs).bind fun (exponent, cs) =>
        (numberOf negative whole fraction exponent).bind fun number => some (number, cs)

theorem readNumber_minus (cs : List Char) : readNumber ('-' :: cs) = readUnsigned true cs := rfl

theorem readNumber_of_head {cs : List Char} (h : cs.head? ≠ some '-') :
    readNumber cs = readUnsigned false cs := by
  rw [readNumber]
  · rfl
  · rintro cs rfl
    exact h rfl

/-- The digits of an exponent, from after its sign. -/
def readPower (negative : Bool) (cs : List Char) : Option (Option Int × List Char) :=
  let digits := cs.takeWhile isDigit
  if digits.isEmpty then none
  else
    let n : Int := Nat.ofDigitChars 10 digits 0
    some (some (if negative then -n else n), cs.dropWhile isDigit)

section
variable {e : Char} {cs : List Char}

theorem readExponent_plus (he : e = 'e' ∨ e = 'E') :
    readExponent (e :: '+' :: cs) = readPower false cs := by
  rw [readExponent, if_pos (by simpa using he)]
  rfl

theorem readExponent_minus (he : e = 'e' ∨ e = 'E') :
    readExponent (e :: '-' :: cs) = readPower true cs := by
  rw [readExponent, if_pos (by simpa using he)]
  rfl

theorem readExponent_of_head (he : e = 'e' ∨ e = 'E') (hplus : cs.head? ≠ some '+')
    (hminus : cs.head? ≠ some '-') : readExponent (e :: cs) = readPower false cs := by
  rw [readExponent]
  · rw [if_pos (by simpa using he)]
    rfl
  · rintro cs rfl
    exact hplus rfl
  · rintro cs rfl
    exact hminus rfl

/-- Without an `e` in front there is no exponent. -/
theorem readExponent_of_ne (he : ∀ c, cs.head? = some c → c ≠ 'e' ∧ c ≠ 'E') :
    readExponent cs = some (none, cs) := by
  cases cs with
  | nil => rfl
  | cons c cs =>
    obtain ⟨he, hE⟩ := he c rfl
    rw [readExponent.eq_def]
    exact if_neg (by simp [he, hE])

end

/-! ## Digits -/

theorem span_digits {ds more : List Char} (hds : ∀ c ∈ ds, isDigit c = true)
    (hmore : ∀ c, more.head? = some c → isDigit c = false) :
    (ds ++ more).takeWhile isDigit = ds ∧ (ds ++ more).dropWhile isDigit = more := by
  have hdrop : more.dropWhile isDigit = more := Text.dropWhile_eq_self hmore
  have htake : more.takeWhile isDigit = [] := by
    have happend := List.takeWhile_append_dropWhile (p := isDigit) (l := more)
    rwa [hdrop, List.append_left_eq_self] at happend
  rw [List.takeWhile_append_of_pos hds, List.dropWhile_append_of_pos hds, hdrop, htake, List.append_nil]
  exact ⟨rfl, rfl⟩

/-! ## Reading what is spelled -/

theorem readPower_append {ds rest : List Char} {n : Nat} (hds : Digits ds n) (hrest : Stops rest)
    (negative : Bool) :
    readPower negative (ds ++ rest) = some (some (if negative then -(n : Int) else n), rest) := by
  obtain ⟨htake, hdrop⟩ := span_digits hds.digit fun c hc => (hrest c hc).1
  rw [readPower, htake, hdrop, if_neg (by simpa using hds.ne_nil), hds.value]

theorem readExponent_append {exponent : Option Int} {es rest : List Char}
    (h : ExponentText exponent es) (hrest : Stops rest) :
    readExponent (es ++ rest) = some (exponent, rest) := by
  cases h with
  | none => exact readExponent_of_ne fun c hc => (hrest c hc).2.2
  | some he hn =>
    cases hn with
    | bare hds =>
      have hpower := readPower_append hds hrest false
      obtain ⟨d, ds, rfl⟩ := List.exists_cons_of_ne_nil hds.ne_nil
      obtain ⟨hplus, hminus⟩ := hds.not_sign
      exact (readExponent_of_head he (by simpa using hplus) (by simpa using hminus)).trans hpower
    | plus hds => exact (readExponent_plus he).trans (readPower_append hds hrest false)
    | minus hds => exact (readExponent_minus he).trans (readPower_append hds hrest true)

theorem readFraction_append {fraction : Option (List Char)} {fs more : List Char}
    (h : FractionText fraction fs) (hdigit : ∀ c, more.head? = some c → isDigit c = false)
    (hpoint : more.head? ≠ some '.') : readFraction (fs ++ more) = some (fraction, more) := by
  cases h with
  | none =>
    rw [List.nil_append]
    unfold readFraction
    split
    · exact absurd rfl hpoint
    · rfl
  | @some ds hne hds =>
    obtain ⟨htake, hdrop⟩ := span_digits hds hdigit
    rw [List.cons_append, readFraction, htake, hdrop, if_neg (by simpa using hne)]

/-- What an exponent or the rest starts with does not belong to the digits before it. -/
theorem head_exponent {exponent : Option Int} {es rest : List Char} (h : ExponentText exponent es)
    (hrest : Stops rest) {c : Char} (hc : (es ++ rest).head? = some c) : isDigit c = false ∧ c ≠ '.' := by
  cases h with
  | none => exact ⟨(hrest c hc).1, (hrest c hc).2.1⟩
  | some he =>
    obtain rfl := Option.some.inj hc
    rcases he with rfl | rfl <;> decide

theorem head_fraction {fraction : Option (List Char)} {fs more : List Char} (h : FractionText fraction fs)
    (hmore : ∀ c, more.head? = some c → isDigit c = false) {c : Char}
    (hc : (fs ++ more).head? = some c) : isDigit c = false := by
  cases h with
  | none => exact hmore c hc
  | some =>
    obtain rfl := Option.some.inj hc
    decide

theorem WholePart.exists_head {whole : List Char} (h : WholePart whole) :
    ∃ d ds, whole = d :: ds ∧ isDigit d = true := by
  obtain ⟨d, ds, rfl⟩ := List.exists_cons_of_ne_nil h.ne_nil
  exact ⟨d, ds, rfl, h.digit d List.mem_cons_self⟩

theorem WholePart.accepted {whole : List Char} (h : WholePart whole) :
    ¬ (whole.head? = some '0' && 1 < whole.length : Bool) = true := by
  intro hcond
  simp only [Bool.and_eq_true, decide_eq_true_eq] at hcond
  exact absurd (h.leading hcond.1) (Nat.not_le.2 hcond.2)

theorem readNumber_append {j : Json} {cs rest : List Char} (h : NumberText j cs) (hrest : Stops rest) :
    readNumber (cs ++ rest) = some (j, rest) := by
  cases h with
  | @intro negative whole fs es fraction exponent _ hwhole hfraction hexponent hnumber =>
    have hexponent' := fun c (hc : (es ++ rest).head? = some c) => head_exponent hexponent hrest hc
    obtain ⟨htake, hdrop⟩ := span_digits hwhole.digit fun c (hc : (fs ++ (es ++ rest)).head? = some c) =>
      head_fraction hfraction (fun c hc => (hexponent' c hc).1) hc
    have hfractionRead := readFraction_append hfraction (fun c hc => (hexponent' c hc).1)
      fun hc => (hexponent' _ hc).2 rfl
    have hexponentRead := readExponent_append hexponent hrest
    have hnil : whole.isEmpty = false := List.isEmpty_eq_false_iff.2 hwhole.ne_nil
    have hread : readUnsigned negative (whole ++ (fs ++ (es ++ rest))) = some (j, rest) := by
      rw [readUnsigned, htake, hdrop, hnil, if_neg Bool.false_ne_true, if_neg hwhole.accepted,
        hfractionRead]
      show (readExponent (es ++ rest)).bind _ = _
      rw [hexponentRead]
      show (numberOf negative whole fraction exponent).bind _ = _
      rw [hnumber]
      rfl
    simp only [List.append_assoc]
    cases negative with
    | true => exact (readNumber_minus _).trans hread
    | false =>
      refine (readNumber_of_head ?_).trans hread
      intro hhead
      obtain ⟨d, ds, rfl, hd⟩ := hwhole.exists_head
      obtain rfl := Option.some.inj hhead
      exact absurd hd (by decide)

/-! ## What is read is spelled -/

theorem of_readPower {negative : Bool} {cs rest : List Char} {exponent : Option Int}
    (h : readPower negative cs = some (exponent, rest)) :
    ∃ ds n, Digits ds n ∧ cs = ds ++ rest ∧ exponent = some (if negative then -(n : Int) else n) := by
  rw [readPower] at h
  split at h
  · cases h
  · next hnil =>
    obtain ⟨rfl, rfl⟩ := Prod.mk.inj (Option.some.inj h)
    refine ⟨cs.takeWhile isDigit, _, ⟨by simpa using hnil, ?_, rfl⟩, ?_, rfl⟩
    · exact fun c hc => List.mem_takeWhile_imp hc
    · exact List.takeWhile_append_dropWhile.symm

theorem of_readExponent {cs rest : List Char} {exponent : Option Int}
    (h : readExponent cs = some (exponent, rest)) :
    ∃ es, ExponentText exponent es ∧ cs = es ++ rest := by
  by_cases he : ∃ e cs', cs = e :: cs' ∧ (e = 'e' ∨ e = 'E')
  · obtain ⟨e, cs', rfl, he⟩ := he
    by_cases hplus : cs'.head? = some '+'
    · obtain ⟨cs', rfl⟩ := List.head?_eq_some_iff.1 hplus
      rw [readExponent_plus he] at h
      obtain ⟨ds, n, hds, rfl, rfl⟩ := of_readPower h
      exact ⟨_, .some he (.plus hds), rfl⟩
    · by_cases hminus : cs'.head? = some '-'
      · obtain ⟨cs', rfl⟩ := List.head?_eq_some_iff.1 hminus
        rw [readExponent_minus he] at h
        obtain ⟨ds, n, hds, rfl, rfl⟩ := of_readPower h
        exact ⟨_, .some he (.minus hds), rfl⟩
      · rw [readExponent_of_head he hplus hminus] at h
        obtain ⟨ds, n, hds, rfl, rfl⟩ := of_readPower h
        exact ⟨_, .some he (.bare hds), rfl⟩
  · rw [readExponent_of_ne] at h
    · obtain ⟨rfl, rfl⟩ := Prod.mk.inj (Option.some.inj h)
      exact ⟨[], .none, rfl⟩
    · intro c hc
      obtain ⟨cs', rfl⟩ := List.head?_eq_some_iff.1 hc
      exact not_or.1 fun hor => he ⟨c, cs', rfl, hor⟩

theorem of_readFraction {cs rest : List Char} {fraction : Option (List Char)}
    (h : readFraction cs = some (fraction, rest)) :
    ∃ fs, FractionText fraction fs ∧ cs = fs ++ rest := by
  unfold readFraction at h
  split at h
  · next cs =>
    dsimp only at h
    split at h
    · cases h
    · next hnil =>
      obtain ⟨rfl, rfl⟩ := Prod.mk.inj (Option.some.inj h)
      refine ⟨_, .some (by simpa using hnil) fun c hc => List.mem_takeWhile_imp hc, ?_⟩
      rw [List.cons_append, List.takeWhile_append_dropWhile]
  · obtain ⟨rfl, rfl⟩ := Prod.mk.inj (Option.some.inj h)
    exact ⟨[], .none, rfl⟩

theorem of_readUnsigned {negative : Bool} {cs rest : List Char} {j : Json}
    (h : readUnsigned negative cs = some (j, rest)) :
    ∃ a, NumberText j ((if negative then ['-'] else []) ++ a) ∧ cs = a ++ rest := by
  rw [readUnsigned] at h
  split at h
  · cases h
  · next hnil =>
    split at h
    · cases h
    · next hleading =>
      obtain ⟨⟨fraction, afterFraction⟩, hfraction, h⟩ := Option.bind_eq_some_iff.1 h
      obtain ⟨⟨exponent, afterExponent⟩, hexponent, h⟩ := Option.bind_eq_some_iff.1 h
      obtain ⟨number, hnumber, h⟩ := Option.bind_eq_some_iff.1 h
      obtain ⟨rfl, rfl⟩ := Prod.mk.inj (Option.some.inj h)
      obtain ⟨fs, hfs, hafter⟩ := of_readFraction hfraction
      obtain ⟨es, hes, rfl⟩ := of_readExponent hexponent
      have hwhole : WholePart (cs.takeWhile isDigit) := by
        refine ⟨by simpa using hnil, fun c hc => List.mem_takeWhile_imp hc, fun hhead => ?_⟩
        simp only [hhead, decide_true, Bool.true_and, decide_eq_true_eq] at hleading
        exact Nat.not_lt.1 hleading
      refine ⟨cs.takeWhile isDigit ++ (fs ++ es), ?_, ?_⟩
      · rw [← List.append_assoc]
        exact .intro hwhole hfs hes hnumber
      · rw [List.append_assoc, List.append_assoc, ← hafter, List.takeWhile_append_dropWhile]

theorem of_readNumber {cs rest : List Char} {j : Json} (h : readNumber cs = some (j, rest)) :
    ∃ a, NumberText j a ∧ cs = a ++ rest := by
  by_cases hminus : cs.head? = some '-'
  · obtain ⟨cs, rfl⟩ := List.head?_eq_some_iff.1 hminus
    rw [readNumber_minus] at h
    obtain ⟨a, ha, rfl⟩ := of_readUnsigned h
    exact ⟨'-' :: a, ha, rfl⟩
  · rw [readNumber_of_head hminus] at h
    exact of_readUnsigned h

/-! ## Data of numbers -/

theorem takeSignificand_le {significand taken : Nat} {ds : List Char}
    (h : significand ≤ maxSignificand) : (takeSignificand significand taken ds).1 ≤ maxSignificand := by
  induction ds generalizing significand taken with
  | nil => exact h
  | cons c ds ih =>
    rw [takeSignificand]
    split
    · exact h
    · next hfits => exact ih (Nat.not_lt.1 hfits)

/-- A number is a float, or an integer of 64 bits. -/
theorem NumberText.cases {j : Json} {cs : List Char} (h : NumberText j cs) :
    (∃ n, j = .integer n ∧ Int64.minValue.toInt ≤ n ∧ n ≤ maxSignificand) ∨ ∃ x, j = .float x := by
  have hmin : Int64.minValue.toInt = -(Binary64.signBit : Int) := by decide
  cases h with
  | @intro negative whole fs es fraction exponent _ hwhole hfraction hexponent hnumber =>
    have hle : (takeSignificand 0 0 whole).1 ≤ maxSignificand := takeSignificand_le (Nat.zero_le _)
    rw [numberOf] at hnumber
    generalize takeSignificand 0 0 whole = parts at hle hnumber
    obtain ⟨significand, taken, left⟩ := parts
    simp only at hle hnumber
    split at hnumber
    · split at hnumber
      · obtain rfl := Option.some.inj hnumber
        exact .inl ⟨significand, rfl, by rw [hmin]; omega, Int.ofNat_le.2 hle⟩
      · split at hnumber
        · exact .inr ⟨_, (Option.some.inj hnumber).symm⟩
        · next hsmall =>
          obtain rfl := Option.some.inj hnumber
          simp only [Bool.or_eq_true, decide_eq_true_eq, not_or] at hsmall
          exact .inl ⟨_, rfl, by rw [hmin]; omega, by omega⟩
    · obtain ⟨x, -, hx⟩ := Option.map_eq_some_iff.1 hnumber
      exact .inr ⟨_, hx.symm⟩

/-! ## Characters -/

theorem NumberText.exists_head {j : Json} {cs : List Char} (h : NumberText j cs) :
    ∃ c rest, cs = c :: rest ∧ (c = '-' ∨ isDigit c = true) := by
  cases h with
  | @intro negative whole fs es _ _ _ hwhole =>
    cases negative with
    | true => exact ⟨'-', whole ++ (fs ++ es), rfl, .inl rfl⟩
    | false =>
      obtain ⟨d, ds, rfl, hd⟩ := hwhole.exists_head
      exact ⟨d, ds ++ (fs ++ es), rfl, .inr hd⟩

theorem point_not_mem_digits {ds : List Char} (h : ∀ c ∈ ds, isDigit c = true) : '.' ∉ ds :=
  fun hmem => absurd (h '.' hmem) (by decide)

theorem FractionText.count_point {fraction : Option (List Char)} {fs : List Char}
    (h : FractionText fraction fs) : fs.count '.' ≤ 1 := by
  cases h with
  | none => exact Nat.zero_le _
  | some _ hds => rw [List.count_cons_self, List.count_eq_zero.2 (point_not_mem_digits hds)]

theorem ExponentText.point_not_mem {exponent : Option Int} {es : List Char}
    (h : ExponentText exponent es) : '.' ∉ es := by
  cases h with
  | none => exact List.not_mem_nil
  | some he hn =>
    rw [List.mem_cons, not_or]
    refine ⟨by rcases he with rfl | rfl <;> decide, fun hmem => ?_⟩
    rcases hn.char '.' hmem with hc | hc | hc <;> revert hc <;> decide

/-- A number has one decimal point at most. -/
theorem NumberText.count_point {j : Json} {cs : List Char} (h : NumberText j cs) : cs.count '.' ≤ 1 := by
  cases h with
  | @intro negative whole fs es _ _ _ hwhole hfraction hexponent =>
    have hsign : List.count '.' (if negative then ['-'] else []) = 0 := by cases negative <;> decide
    rw [List.count_append, List.count_append, List.count_append, hsign,
      List.count_eq_zero.2 (point_not_mem_digits hwhole.digit),
      List.count_eq_zero.2 hexponent.point_not_mem]
    have := hfraction.count_point
    omega

end Stencil.Json
