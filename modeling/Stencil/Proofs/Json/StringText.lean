import Stencil.Json.Reader
/-!
# Strings in JSON text

A string is spelled character by character, each as it is or by an escape: a letter of its own for eight
of them, or one or two units of four hexadecimal digits.  Exactly these texts are read up to the quote
that ends the string.

    StringText s body → readStringBody fuel (body ++ '"' :: rest) = some (s, rest)   given enough fuel
    readStringBody fuel cs = some (s, rest) → ∃ body, StringText s body ∧ cs = body ++ '"' :: rest
-/

namespace Stencil.Json

/-! ## Grammar -/

/-- The letters of escapes that stand for a character of their own. -/
def shortEscapes : List (Char × Char) :=
  [('"', '"'), ('\\', '\\'), ('/', '/'), ('b', '\x08'), ('f', '\x0c'), ('n', '\n'), ('r', '\r'),
    ('t', '\t')]

/-- Four hexadecimal digits. -/
structure UnitText (hs : List Char) (n : Nat) : Prop where
  length : hs.length = 4
  value : Text.readHex? 4 hs = some n

/-- The text of an escape from after the backslash. -/
inductive EscapeText : Char → List Char → Prop where
  | short {letter c : Char} : (letter, c) ∈ shortEscapes → EscapeText c [letter]
  | unit {hs : List Char} {n : Nat} : UnitText hs n → ¬ (0xD800 ≤ n ∧ n ≤ 0xDFFF) →
    EscapeText (Char.ofNat n) ('u' :: hs)
  | surrogates {hs ls : List Char} {high low : Nat} : UnitText hs high → UnitText ls low →
    0xD800 ≤ high ∧ high ≤ 0xDBFF → 0xDC00 ≤ low ∧ low ≤ 0xDFFF →
    EscapeText (Char.ofNat (0x10000 + (high - 0xD800) * 0x400 + (low - 0xDC00)))
      ('u' :: (hs ++ '\\' :: 'u' :: ls))

/-- The characters of a string and their text between the quotes. -/
inductive StringText : List Char → List Char → Prop where
  | nil : StringText [] []
  | char {c : Char} {s cs : List Char} : c ≠ '"' → c ≠ '\\' → 0x20 ≤ c.toNat → StringText s cs →
    StringText (c :: s) (c :: cs)
  | escape {c : Char} {s e cs : List Char} : EscapeText c e → StringText s cs →
    StringText (c :: s) ('\\' :: (e ++ cs))

/-! ## Reading what is spelled -/

theorem readHex4_append {hs : List Char} {n : Nat} (h : UnitText hs n) (rest : List Char) :
    readHex4 (hs ++ rest) = some (n, rest) := by
  have htake : (hs ++ rest).take 4 = hs := by rw [← h.length, List.take_left]
  have hdrop : (hs ++ rest).drop 4 = rest := by rw [← h.length, List.drop_left]
  have hall : hs.take 4 = hs := by rw [← h.length, List.take_length]
  have hvalue := h.value
  rw [Text.readHex?, hall] at hvalue
  rw [readHex4, Text.readHex?, htake, hdrop, hvalue]
  rfl

theorem readEscape_append {c : Char} {e : List Char} (h : EscapeText c e) (rest : List Char) :
    readEscape (e ++ rest) = some (c, rest) := by
  cases h with
  | short h =>
    simp only [shortEscapes, List.mem_cons, Prod.mk.injEq, List.not_mem_nil, or_false] at h
    rcases h with ⟨rfl, rfl⟩ | ⟨rfl, rfl⟩ | ⟨rfl, rfl⟩ | ⟨rfl, rfl⟩ | ⟨rfl, rfl⟩ | ⟨rfl, rfl⟩ |
      ⟨rfl, rfl⟩ | ⟨rfl, rfl⟩ <;> rfl
  | @unit hs n hunit hn =>
    show (readHex4 (hs ++ rest)).bind _ = _
    rw [readHex4_append hunit]
    have hlow : (0xDC00 ≤ n && n ≤ 0xDFFF : Bool) = false := by
      simp only [Bool.and_eq_false_iff, decide_eq_false_iff_not]
      omega
    have hhigh : (0xD800 ≤ n && n ≤ 0xDBFF : Bool) = false := by
      simp only [Bool.and_eq_false_iff, decide_eq_false_iff_not]
      omega
    simp only [Option.bind_some, hlow, hhigh, Bool.false_eq_true, if_false]
    rfl
  | @surrogates hs ls high low hhs hls hhigh hlow =>
    have hsplit : hs ++ '\\' :: 'u' :: ls ++ rest = hs ++ '\\' :: 'u' :: (ls ++ rest) := by simp
    have hnot : (0xDC00 ≤ high && high ≤ 0xDFFF : Bool) = false := by
      simp only [Bool.and_eq_false_iff, decide_eq_false_iff_not]
      omega
    show (readHex4 (hs ++ '\\' :: 'u' :: ls ++ rest)).bind _ = _
    rw [hsplit, readHex4_append hhs]
    simp only [Option.bind_some, hnot, Bool.false_eq_true, if_false, hhigh.1, hhigh.2, decide_true,
      Bool.and_self, if_true]
    show (readHex4 (ls ++ rest)).bind _ = _
    rw [readHex4_append hls]
    simp only [Option.bind_some, hlow.1, hlow.2, decide_true, Bool.and_self, if_true]
    rfl

theorem readStringBody_append {s body : List Char} (h : StringText s body) {fuel : Nat}
    (hfuel : body.length < fuel) (rest : List Char) :
    readStringBody fuel (body ++ '"' :: rest) = some (s, rest) := by
  induction h generalizing fuel with
  | nil =>
    obtain ⟨fuel, rfl⟩ := Nat.exists_eq_add_one_of_ne_zero (Nat.ne_of_gt hfuel)
    rfl
  | @char c s cs hquote hbackslash hprinted _ ih =>
    obtain ⟨fuel, rfl⟩ := Nat.exists_eq_add_one_of_ne_zero (Nat.ne_of_gt (Nat.zero_lt_of_lt hfuel))
    rw [List.cons_append, readStringBody, if_neg hquote, if_neg hbackslash,
      if_neg (Nat.not_lt.2 hprinted), ih (Nat.lt_of_succ_lt_succ hfuel)]
    rfl
  | @escape c s e cs he _ ih =>
    obtain ⟨fuel, rfl⟩ := Nat.exists_eq_add_one_of_ne_zero (Nat.ne_of_gt (Nat.zero_lt_of_lt hfuel))
    have hshort : cs.length < fuel := by
      simp only [List.length_cons, List.length_append] at hfuel
      omega
    rw [List.cons_append, readStringBody, if_neg (by decide), if_pos rfl, List.append_assoc,
      readEscape_append he]
    show (readStringBody fuel (cs ++ '"' :: rest)).bind _ = _
    rw [ih hshort]
    rfl

theorem readString_append {s : String} {body : List Char} (h : StringText s.toList body)
    (rest : List Char) : readString (body ++ '"' :: rest) = some (s, rest) := by
  rw [readString, readStringBody_append h (by simp only [List.length_append, List.length_cons]; omega)]
  simp

/-! ## What is read is spelled -/

theorem of_readHex4 {cs rest : List Char} {n : Nat} (h : readHex4 cs = some (n, rest)) :
    ∃ hs, UnitText hs n ∧ cs = hs ++ rest := by
  obtain ⟨m, hm, hpair⟩ := Option.map_eq_some_iff.1 h
  obtain ⟨rfl, rfl⟩ := Prod.mk.inj hpair
  refine ⟨cs.take 4, ⟨?_, ?_⟩, (List.take_append_drop 4 cs).symm⟩
  · rw [Text.readHex?] at hm
    split at hm
    · cases hm
    · next hlen =>
      have hle := List.length_take_le 4 cs
      omega
  · rw [Text.readHex?, List.take_take]
    exact hm

theorem of_readUnicodeEscape {cs rest : List Char} {c : Char}
    (h : readUnicodeEscape cs = some (c, rest)) :
    ∃ e, EscapeText c ('u' :: e) ∧ cs = e ++ rest := by
  obtain ⟨⟨high, afterHigh⟩, hhigh, hchar⟩ := Option.bind_eq_some_iff.1 h
  obtain ⟨hs, hhs, rfl⟩ := of_readHex4 hhigh
  dsimp only at hchar
  split at hchar
  · cases hchar
  · next hnot =>
    simp only [Bool.and_eq_true, decide_eq_true_eq, not_and] at hnot
    split at hchar
    · next hsurrogate =>
      simp only [Bool.and_eq_true, decide_eq_true_eq] at hsurrogate
      split at hchar
      · next afterEscape =>
        obtain ⟨⟨low, afterLow⟩, hlow, hpair⟩ := Option.bind_eq_some_iff.1 hchar
        obtain ⟨ls, hls, rfl⟩ := of_readHex4 hlow
        dsimp only at hpair
        split at hpair
        · next hlowRange =>
          simp only [Bool.and_eq_true, decide_eq_true_eq] at hlowRange
          obtain ⟨rfl, rfl⟩ := Prod.mk.inj (Option.some.inj hpair)
          exact ⟨_, .surrogates hhs hls hsurrogate hlowRange, by simp⟩
        · cases hpair
      · cases hchar
    · next hsurrogate =>
      simp only [Bool.and_eq_true, decide_eq_true_eq, not_and] at hsurrogate
      obtain ⟨rfl, rfl⟩ := Prod.mk.inj (Option.some.inj hchar)
      exact ⟨hs, .unit hhs (by omega), rfl⟩

theorem of_readEscape {cs rest : List Char} {c : Char} (h : readEscape cs = some (c, rest)) :
    ∃ e, EscapeText c e ∧ cs = e ++ rest := by
  unfold readEscape at h
  split at h
  case h_9 =>
    obtain ⟨e, he, rfl⟩ := of_readUnicodeEscape h
    exact ⟨_, he, rfl⟩
  case h_10 => cases h
  all_goals
    obtain ⟨rfl, rfl⟩ := Prod.mk.inj (Option.some.inj h)
    exact ⟨_, .short (by decide), rfl⟩

theorem of_readStringBody {fuel : Nat} {cs s rest : List Char}
    (h : readStringBody fuel cs = some (s, rest)) :
    ∃ body, StringText s body ∧ cs = body ++ '"' :: rest := by
  induction fuel generalizing cs s with
  | zero => cases h
  | succ fuel ih =>
    cases cs with
    | nil => cases h
    | cons c cs =>
      rw [readStringBody] at h
      split at h
      · next hquote =>
        obtain ⟨rfl, rfl⟩ := Prod.mk.inj (Option.some.inj h)
        exact ⟨[], .nil, by rw [hquote]; rfl⟩
      · next hquote =>
        split at h
        · next hbackslash =>
          obtain ⟨⟨d, afterEscape⟩, hescape, h⟩ := Option.bind_eq_some_iff.1 h
          obtain ⟨⟨t, afterBody⟩, hbody, h⟩ := Option.bind_eq_some_iff.1 h
          obtain ⟨rfl, rfl⟩ := Prod.mk.inj (Option.some.inj h)
          obtain ⟨e, he, rfl⟩ := of_readEscape hescape
          obtain ⟨body, hspelled, rfl⟩ := ih hbody
          exact ⟨_, .escape he hspelled, by rw [hbackslash]; simp⟩
        · next hbackslash =>
          split at h
          · cases h
          · next hcontrol =>
            obtain ⟨⟨t, afterBody⟩, hbody, h⟩ := Option.bind_eq_some_iff.1 h
            obtain ⟨rfl, rfl⟩ := Prod.mk.inj (Option.some.inj h)
            obtain ⟨body, hspelled, rfl⟩ := ih hbody
            exact ⟨_, .char hquote hbackslash (Nat.not_lt.1 hcontrol) hspelled, rfl⟩

theorem of_readString {cs rest : List Char} {s : String} (h : readString cs = some (s, rest)) :
    ∃ body, StringText s.toList body ∧ cs = body ++ '"' :: rest := by
  obtain ⟨⟨t, afterBody⟩, hbody, hpair⟩ := Option.map_eq_some_iff.1 h
  obtain ⟨rfl, rfl⟩ := Prod.mk.inj hpair
  obtain ⟨body, hspelled, rfl⟩ := of_readStringBody hbody
  exact ⟨body, by rwa [String.toList_ofList], rfl⟩

end Stencil.Json
