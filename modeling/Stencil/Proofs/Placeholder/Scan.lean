import Stencil.Placeholder
import Stencil.Proofs.Text.Separated
/-!
# What the scanner finds

A placeholder is read exactly where the text goes on with its characters, and these form a word of
the grammar: zeros, a name and an accessor between two delimiters.  Nothing of a path is lost, and a
separator of paths is never inside a placeholder.

    at? cs = some p ↔ p.Proper ∧ p.chars <+: cs                     (`at?_eq_some_iff`)
    (pieces path).flatMap Piece.chars = path.toList                 (`flatMap_pieces`)
    scan (a ++ "/" ++ b) = scan a ++ scan b                         (`scan_append_separator`)
    s.toList <+: t.toList → scan s <+: scan t                       (`scan_prefix`)
-/

namespace Stencil.Placeholder

/-! ## The grammar -/

/-- A letter, then letters, digits and underscores. -/
def IsName (cs : List Char) : Prop :=
  ∃ c rest, cs = c :: rest ∧ isLetter c = true ∧ ∀ x ∈ rest, isNameChar x = true

/-- The name and the accessor are words of the grammar. -/
structure Proper (p : Placeholder) : Prop where
  name : IsName p.name.toList
  accessor : ∀ a, p.accessor = some a → IsName a.toList

/-- What stands between the two delimiters. -/
def body (p : Placeholder) : List Char :=
  List.replicate p.zeros '0' ++ p.name.toList ++ accessorChars p.accessor

theorem chars_eq (p : Placeholder) : p.chars = '%' :: (p.body ++ ['%']) := rfl

theorem chars_ne_nil (p : Placeholder) : p.chars ≠ [] := List.cons_ne_nil _ _

theorem chars_append_eq (p : Placeholder) (rest : List Char) :
    p.chars ++ rest = '%' :: (List.replicate p.zeros '0' ++
      (p.name.toList ++ (accessorChars p.accessor ++ '%' :: rest))) := by
  simp [chars_eq, body]

theorem IsName.isNameChar {cs : List Char} (h : IsName cs) {x : Char} (hx : x ∈ cs) :
    isNameChar x = true := by
  obtain ⟨c, rest, rfl, hc, hrest⟩ := h
  rcases List.mem_cons.1 hx with rfl | hx
  · simp [Placeholder.isNameChar, hc]
  · exact hrest x hx

/-- Zeros, the characters of names and the point are all that stands between delimiters. -/
theorem Proper.of_mem_body {p : Placeholder} (h : p.Proper) {x : Char} (hx : x ∈ p.body) :
    x = '0' ∨ isNameChar x = true ∨ x = '.' := by
  rw [body, List.mem_append, List.mem_append] at hx
  rcases hx with (hx | hx) | hx
  · exact .inl (List.eq_of_mem_replicate hx)
  · exact .inr (.inl (h.name.isNameChar hx))
  · cases ha : p.accessor with
    | none => simp [ha, accessorChars] at hx
    | some a =>
      rw [ha, accessorChars, List.mem_cons] at hx
      rcases hx with rfl | hx
      · exact .inr (.inr rfl)
      · exact .inr (.inl ((h.accessor a ha).isNameChar hx))

theorem Proper.delimiter_not_mem_body {p : Placeholder} (h : p.Proper) : '%' ∉ p.body := by
  intro hx
  have := h.of_mem_body hx
  revert this
  decide

theorem Proper.separator_not_mem_chars {p : Placeholder} (h : p.Proper) : '/' ∉ p.chars := by
  intro hx
  rw [chars_eq, List.mem_cons, List.mem_append] at hx
  rcases hx with hx | hx | hx
  · revert hx; decide
  · have := h.of_mem_body hx
    revert this
    decide
  · revert hx; decide

/-- A character with which a placeholder can go on behind its delimiter. -/
def goesOn (c : Char) : Bool := isLetter c || c == '0'

theorem Proper.body_eq_cons {p : Placeholder} (h : p.Proper) :
    ∃ c rest, p.body = c :: rest ∧ goesOn c = true := by
  obtain ⟨c, rest, hname, hc, -⟩ := h.name
  cases hzeros : p.zeros with
  | zero =>
    refine ⟨c, rest ++ accessorChars p.accessor, ?_, by rw [goesOn, hc, Bool.true_or]⟩
    rw [body, hzeros, hname]
    rfl
  | succ n =>
    refine ⟨'0', List.replicate n '0' ++ p.name.toList ++ accessorChars p.accessor, ?_, by decide⟩
    rw [body, hzeros]
    rfl

/-! ## Reading one placeholder -/

theorem takeWhile_append_stop {p : Char → Bool} {xs rest : List Char} (h : ∀ x ∈ xs, p x = true)
    (hstop : ∀ c, rest.head? = some c → p c = false) : (xs ++ rest).takeWhile p = xs := by
  rw [List.takeWhile_append_of_pos h]
  cases rest with
  | nil => simp
  | cons c rest => simp [hstop c rfl]

theorem dropWhile_append_stop {p : Char → Bool} {xs rest : List Char} (h : ∀ x ∈ xs, p x = true)
    (hstop : ∀ c, rest.head? = some c → p c = false) : (xs ++ rest).dropWhile p = rest := by
  rw [List.dropWhile_append_of_pos h]
  cases rest with
  | nil => simp
  | cons c rest => simp [hstop c rfl]

/-- A name is read up to the first character that cannot go on with it. -/
theorem readName?_append {name : String} {rest : List Char} (h : IsName name.toList)
    (hstop : ∀ c, rest.head? = some c → isNameChar c = false) :
    readName? (name.toList ++ rest) = some (name, rest) := by
  obtain ⟨c, cs, hcs, hc, hall⟩ := h
  rw [hcs, List.cons_append, readName?, if_pos hc, takeWhile_append_stop hall hstop,
    dropWhile_append_stop hall hstop, ← hcs, String.ofList_toList]

theorem of_readName?_eq_some {cs rest : List Char} {name : String}
    (h : readName? cs = some (name, rest)) : IsName name.toList ∧ cs = name.toList ++ rest := by
  cases cs with
  | nil => simp [readName?] at h
  | cons c cs =>
    rw [readName?] at h
    split at h
    · next hc =>
      simp only [Option.some.injEq, Prod.mk.injEq] at h
      obtain ⟨rfl, rfl⟩ := h
      refine ⟨⟨c, cs.takeWhile isNameChar, by simp, hc, fun x hx => ?_⟩, by simp⟩
      exact List.all_eq_true.1 (List.all_takeWhile (l := cs)) x hx
    · cases h

/-- A name is read up to the accessor or the delimiter behind it. -/
theorem readName?_append_accessor {name : String} (h : IsName name.toList) (accessor : Option String)
    (rest : List Char) : readName? (name.toList ++ (accessorChars accessor ++ '%' :: rest)) =
      some (name, accessorChars accessor ++ '%' :: rest) := by
  apply readName?_append h
  intro c hc
  cases accessor with
  | none =>
    obtain rfl : '%' = c := by simpa [accessorChars] using hc
    decide
  | some a =>
    obtain rfl : '.' = c := by simpa [accessorChars] using hc
    decide

/-- The zeros in front of a name are all read, and nothing of the name with them. -/
theorem IsName.takeWhile_zeros {cs : List Char} (h : IsName cs) (n : Nat) (rest : List Char) :
    (List.replicate n '0' ++ (cs ++ rest)).takeWhile (· == '0') = List.replicate n '0' ∧
      (List.replicate n '0' ++ (cs ++ rest)).dropWhile (· == '0') = cs ++ rest := by
  obtain ⟨c, tail, rfl, hc, -⟩ := h
  have hzeros : ∀ x ∈ List.replicate n '0', (x == '0') = true := by
    intro x hx
    simp [List.eq_of_mem_replicate hx]
  have hletter : ∀ x, (c :: tail ++ rest).head? = some x → (x == '0') = false := by
    intro x hx
    obtain rfl : c = x := by simpa using hx
    rw [beq_eq_false_iff_ne]
    rintro rfl
    revert hc
    decide
  exact ⟨takeWhile_append_stop hzeros hletter, dropWhile_append_stop hzeros hletter⟩

/-- The zeros at the start of a text, one by one. -/
theorem takeWhile_zeros (cs : List Char) :
    cs.takeWhile (· == '0') = List.replicate (cs.takeWhile (· == '0')).length '0' := by
  refine List.eq_replicate_of_mem fun x hx => ?_
  have := List.all_eq_true.1 (List.all_takeWhile (l := cs)) x hx
  simpa using this

/-- The characters of a placeholder after its delimiter and zeros are read back as it. -/
theorem readBody?_append {p : Placeholder} (h : p.Proper) (rest : List Char) :
    readBody? p.zeros (p.name.toList ++ (accessorChars p.accessor ++ '%' :: rest)) = some p := by
  have hread := readName?_append_accessor h.name p.accessor rest
  obtain ⟨name, zeros, accessor⟩ := p
  cases accessor with
  | none =>
    simp only [accessorChars, List.nil_append] at hread ⊢
    simp only [readBody?, hread]
  | some a =>
    have haccessor := readName?_append_accessor (h.accessor a rfl) none rest
    simp only [accessorChars, List.cons_append, List.nil_append] at hread haccessor ⊢
    simp only [readBody?, hread, haccessor]

theorem of_readBody?_eq_some {zeros : Nat} {cs : List Char} {p : Placeholder}
    (h : readBody? zeros cs = some p) : p.Proper ∧ p.zeros = zeros ∧
      ∃ rest, cs = p.name.toList ++ (accessorChars p.accessor ++ '%' :: rest) := by
  rw [readBody?] at h
  split at h
  · cases h
  · next name rest hname =>
    obtain rfl := Option.some.inj h
    obtain ⟨hn, hcs⟩ := of_readName?_eq_some hname
    exact ⟨⟨hn, by simp⟩, rfl, rest, by simpa [accessorChars] using hcs⟩
  · next name rest hname =>
    obtain ⟨hn, hcs⟩ := of_readName?_eq_some hname
    split at h
    · next accessor rest' haccessor =>
      obtain rfl := Option.some.inj h
      obtain ⟨ha, hrest⟩ := of_readName?_eq_some haccessor
      refine ⟨⟨hn, fun a e => ?_⟩, rfl, rest', by simp [accessorChars, hcs, hrest]⟩
      obtain rfl := Option.some.inj e
      exact ha
    · cases h
  · cases h

/-- The text goes on with exactly the characters of what is read. -/
theorem at?_eq_some_iff {cs : List Char} {p : Placeholder} :
    at? cs = some p ↔ p.Proper ∧ p.chars <+: cs := by
  constructor
  · intro h
    cases cs with
    | nil => simp [at?] at h
    | cons c cs =>
      by_cases hc : c = '%'
      · subst hc
        rw [at?] at h
        obtain ⟨hp, hzeros, rest, hrest⟩ := of_readBody?_eq_some h
        refine ⟨hp, rest, ?_⟩
        rw [chars_append_eq, ← hrest, hzeros, ← takeWhile_zeros, List.takeWhile_append_dropWhile]
      · rw [at?] at h
        · cases h
        · intro cs' e
          exact hc (List.cons.inj e).1
  · rintro ⟨hp, rest, rfl⟩
    obtain ⟨htake, hdrop⟩ := hp.name.takeWhile_zeros p.zeros (accessorChars p.accessor ++ '%' :: rest)
    rw [chars_append_eq, at?, htake, hdrop, List.length_replicate]
    exact readBody?_append hp rest

theorem Proper.at?_chars_append {p : Placeholder} (h : p.Proper) (rest : List Char) :
    at? (p.chars ++ rest) = some p :=
  at?_eq_some_iff.2 ⟨h, List.prefix_append _ _⟩

/-- No placeholder is the beginning of another one. -/
theorem Proper.eq_of_prefix {p q : Placeholder} (hp : p.Proper) (hq : q.Proper) {cs : List Char}
    (hpre : p.chars <+: q.chars ++ cs) : p = q := by
  have hread := at?_eq_some_iff.2 ⟨hp, hpre⟩
  rw [hq.at?_chars_append] at hread
  exact (Option.some.inj hread).symm

/-- What follows a separator does not change what is read before it. -/
theorem at?_append_separator (a b : List Char) : at? (a ++ '/' :: b) = at? a := by
  apply Option.ext
  intro p
  rw [at?_eq_some_iff, at?_eq_some_iff]
  refine and_congr_right fun hp => ?_
  rw [← List.isPrefixOf_iff_prefix, ← List.isPrefixOf_iff_prefix,
    Text.isPrefixOf_append_sep hp.separator_not_mem_chars]

/-! ## Reading a path -/

theorem piecesFrom_eq_drop (skip : Nat) (cs : List Char) :
    piecesFrom skip cs = piecesFrom 0 (cs.drop skip) := by
  induction cs generalizing skip with
  | nil => cases skip <;> simp [piecesFrom]
  | cons c cs ih =>
    cases skip with
    | zero => simp
    | succ skip => simp [piecesFrom, ih skip]

/-- Reading goes on behind a placeholder. -/
theorem piecesFrom_chars_append {p : Placeholder} (h : p.Proper) (rest : List Char) :
    piecesFrom 0 (p.chars ++ rest) = .hole p :: piecesFrom 0 rest := by
  have hread := h.at?_chars_append rest
  rw [chars_eq, List.cons_append] at hread ⊢
  simp only [piecesFrom, hread]
  rw [piecesFrom_eq_drop, chars_eq]
  simp

theorem piecesFrom_cons_plain {c : Char} {cs : List Char} (h : at? (c :: cs) = none) :
    piecesFrom 0 (c :: cs) = .plain c :: piecesFrom 0 cs := by
  simp only [piecesFrom, h]

/-- The text of a piece in its path. -/
def Piece.chars : Piece → List Char
  | .hole p => p.chars
  | .plain c => [c]

/-- A path is its pieces one after the other: nothing is lost in reading. -/
theorem flatMap_piecesFrom (cs : List Char) : (piecesFrom 0 cs).flatMap Piece.chars = cs := by
  -- on the length, since a placeholder takes several characters at once
  induction hn : cs.length using Nat.strongRecOn generalizing cs with
  | _ n ih =>
    cases cs with
    | nil => simp [piecesFrom]
    | cons c cs =>
      cases hread : at? (c :: cs) with
      | none =>
        rw [piecesFrom_cons_plain hread, List.flatMap_cons, ih cs.length (by simp at hn; omega) cs rfl]
        rfl
      | some p =>
        obtain ⟨hp, rest, hrest⟩ := at?_eq_some_iff.1 hread
        have hlen : rest.length < n := by
          rw [← hn, ← hrest, List.length_append, chars_eq, List.length_cons]
          omega
        rw [← hrest, piecesFrom_chars_append hp, List.flatMap_cons, ih rest.length hlen rest rfl]
        rfl

theorem flatMap_pieces (path : String) : (pieces path).flatMap Piece.chars = path.toList :=
  flatMap_piecesFrom path.toList

theorem proper_of_mem_piecesFrom {skip : Nat} {cs : List Char} {p : Placeholder}
    (h : .hole p ∈ piecesFrom skip cs) : p.Proper := by
  induction cs generalizing skip with
  | nil => cases skip <;> simp [piecesFrom] at h
  | cons c cs ih =>
    cases skip with
    | succ skip => exact ih h
    | zero =>
      rw [piecesFrom] at h
      split at h
      · next q hread =>
        rcases List.mem_cons.1 h with e | h
        · obtain rfl := Piece.hole.inj e
          exact (at?_eq_some_iff.1 hread).1
        · exact ih h
      · rcases List.mem_cons.1 h with e | h
        · cases e
        · exact ih h

theorem mem_scan_iff {path : String} {p : Placeholder} : p ∈ scan path ↔ .hole p ∈ pieces path := by
  rw [scan, List.mem_filterMap]
  constructor
  · rintro ⟨piece, hmem, hpiece⟩
    cases piece with
    | hole q =>
      obtain rfl := Option.some.inj hpiece
      exact hmem
    | plain c => cases hpiece
  · intro h
    exact ⟨.hole p, h, rfl⟩

theorem proper_of_mem_scan {path : String} {p : Placeholder} (h : p ∈ scan path) : p.Proper :=
  proper_of_mem_piecesFrom (mem_scan_iff.1 h)

/-- The pieces on the two sides of a separator are read by themselves. -/
theorem piecesFrom_append_separator (skip : Nat) (a b : List Char) (hskip : skip ≤ a.length) :
    piecesFrom skip (a ++ '/' :: b) = piecesFrom skip a ++ .plain '/' :: piecesFrom 0 b := by
  induction a generalizing skip with
  | nil =>
    obtain rfl : skip = 0 := by simpa using hskip
    have hread : at? ('/' :: b) = none := by
      rw [at?]
      intro cs e
      have := (List.cons.inj e).1
      revert this
      decide
    rw [List.nil_append, piecesFrom_cons_plain hread]
    rfl
  | cons c a ih =>
    cases skip with
    | succ skip => exact ih skip (by simpa using hskip)
    | zero =>
      have hread := at?_append_separator (c :: a) b
      rw [List.cons_append] at hread ⊢
      simp only [piecesFrom, hread]
      split
      · next p hp =>
        have hlen := (at?_eq_some_iff.1 hp).2.length_le
        rw [ih (p.chars.length - 1) (by rw [List.length_cons] at hlen; omega), List.cons_append]
      · rw [ih 0 (Nat.zero_le _), List.cons_append]

/-- The placeholders of a path are those before a separator, then those behind it. -/
theorem scan_append_separator (a b : String) : scan (a ++ "/" ++ b) = scan a ++ scan b := by
  have htext : (a ++ "/" ++ b).toList = a.toList ++ '/' :: b.toList := by simp
  rw [scan, pieces, htext, piecesFrom_append_separator 0 _ _ (Nat.zero_le _), List.filterMap_append]
  rfl

/-! ## Continued texts -/

/-- The placeholders of a text. -/
def holes (cs : List Char) : List Placeholder := (piecesFrom 0 cs).filterMap Piece.hole?

theorem holes_cons_none {c : Char} {cs : List Char} (h : at? (c :: cs) = none) :
    holes (c :: cs) = holes cs := by
  rw [holes, piecesFrom_cons_plain h]
  rfl

theorem holes_chars_append {p : Placeholder} (h : p.Proper) (rest : List Char) :
    holes (p.chars ++ rest) = p :: holes rest := by
  rw [holes, piecesFrom_chars_append h]
  rfl

theorem at?_eq_none_of_ne {c : Char} (h : c ≠ '%') (cs : List Char) : at? (c :: cs) = none := by
  rw [at?]
  intro cs' e
  exact h (List.cons.inj e).1

theorem holes_of_not_mem {cs : List Char} (h : '%' ∉ cs) : holes cs = [] := by
  induction cs with
  | nil => rfl
  | cons c cs ih =>
    rw [List.mem_cons, not_or] at h
    rw [holes_cons_none (at?_eq_none_of_ne (Ne.symm h.1) cs)]
    exact ih h.2

/-- A text that goes on keeps its placeholders, and has others only behind them. -/
theorem holes_prefix_append (a b : List Char) : holes a <+: holes (a ++ b) := by
  -- on the length, since a placeholder takes several characters at once
  induction hn : a.length using Nat.strongRecOn generalizing a with
  | _ n ih =>
    cases a with
    | nil => exact List.nil_prefix
    | cons c a =>
      cases hread : at? (c :: a) with
      | some p =>
        obtain ⟨hp, rest, hrest⟩ := at?_eq_some_iff.1 hread
        have hlen : rest.length < n := by
          rw [← hn, ← hrest, List.length_append, chars_eq, List.length_cons]
          omega
        rw [← hrest, List.append_assoc, holes_chars_append hp, holes_chars_append hp,
          List.prefix_cons_inj]
        exact ih rest.length hlen rest rfl
      | none =>
        rw [holes_cons_none hread]
        cases hread' : at? (c :: a ++ b) with
        | none =>
          rw [List.cons_append] at hread' ⊢
          rw [holes_cons_none hread']
          exact ih a.length (by rw [← hn, List.length_cons]; omega) a rfl
        | some p =>
          -- the placeholder reaches beyond `a`, which is a part of its body then
          obtain ⟨hp, hprefix⟩ := at?_eq_some_iff.1 hread'
          have hshort : ¬ p.chars <+: c :: a := fun h => by
            rw [at?_eq_some_iff.2 ⟨hp, h⟩] at hread
            cases hread
          have hinside : c :: a <+: p.chars :=
            (List.prefix_or_prefix_of_prefix hprefix (List.prefix_append _ b)).resolve_left hshort
          have hbody : a <+: p.body := by
            rw [chars_eq, List.cons_prefix_cons] at hinside
            rcases List.prefix_concat_iff.1 hinside.2 with rfl | hbody
            · have hwhole : c :: (p.body ++ ['%']) = p.chars := by rw [chars_eq, hinside.1]
              exact absurd (hwhole ▸ List.prefix_refl p.chars) hshort
            · exact hbody
          have hfree : '%' ∉ a := fun hmem => hp.delimiter_not_mem_body (hbody.subset hmem)
          rw [holes_of_not_mem hfree]
          exact List.nil_prefix

theorem scan_prefix {s t : String} (h : s.toList <+: t.toList) : scan s <+: scan t := by
  obtain ⟨rest, hrest⟩ := h
  have hprefix := holes_prefix_append s.toList rest
  rw [hrest] at hprefix
  exact hprefix

end Stencil.Placeholder
