import Stencil.Text.Search
/-!
# Separated texts

Splitting at a separator and replacing a mark go together as long as the mark does not hold the
separator: each piece can be looked at by itself.

    splitOnChar sep (a ++ sep :: b) = splitOnChar sep a ++ splitOnChar sep b
    replaceAll mark fresh (a ++ sep :: b) = replaceAll mark fresh a ++ sep :: replaceAll mark fresh b
-/

namespace Stencil.Text

/-! ## Splitting -/

theorem splitOnChar_cons_ne {sep c : Char} (h : c ≠ sep) (cs : List Char) :
    ∃ piece pieces, splitOnChar sep cs = piece :: pieces ∧
      splitOnChar sep (c :: cs) = (c :: piece) :: pieces := by
  cases hs : splitOnChar sep cs with
  | nil => exact absurd hs (splitOnChar_ne_nil sep cs)
  | cons piece pieces => exact ⟨piece, pieces, rfl, by simp [splitOnChar, hs, h]⟩

@[simp] theorem splitOnChar_cons_sep (sep : Char) (cs : List Char) :
    splitOnChar sep (sep :: cs) = [] :: splitOnChar sep cs := by
  cases hs : splitOnChar sep cs with
  | nil => exact absurd hs (splitOnChar_ne_nil sep cs)
  | cons piece pieces => simp [splitOnChar, hs]

theorem splitOnChar_append_sep (sep : Char) (a b : List Char) :
    splitOnChar sep (a ++ sep :: b) = splitOnChar sep a ++ splitOnChar sep b := by
  induction a with
  | nil => simp [splitOnChar]
  | cons c a ih =>
    by_cases h : c = sep
    · subst h
      rw [List.cons_append, splitOnChar_cons_sep, splitOnChar_cons_sep, ih, List.cons_append]
    · obtain ⟨piece, pieces, hs, hc⟩ := splitOnChar_cons_ne h a
      obtain ⟨piece', pieces', hs', hc'⟩ := splitOnChar_cons_ne h (a ++ sep :: b)
      rw [ih, hs, List.cons_append, List.cons.injEq] at hs'
      obtain ⟨rfl, rfl⟩ := hs'
      rw [List.cons_append, hc', hc, List.cons_append]

theorem splitOnChar_of_not_mem {sep : Char} {a : List Char} (h : sep ∉ a) :
    splitOnChar sep a = [a] := by
  induction a with
  | nil => rfl
  | cons c a ih =>
    rw [List.mem_cons, not_or] at h
    simp [splitOnChar, ih h.2, Ne.symm h.1]

theorem splitOnChar_intercalate {sep : Char} {pieces : List (List Char)} (hne : pieces ≠ [])
    (h : ∀ piece ∈ pieces, sep ∉ piece) :
    splitOnChar sep ([sep].intercalate pieces) = pieces := by
  induction pieces with
  | nil => exact absurd rfl hne
  | cons piece pieces ih =>
    have hpiece := splitOnChar_of_not_mem (h piece (by simp))
    cases pieces with
    | nil => simpa using hpiece
    | cons next pieces =>
      rw [List.intercalate_cons_cons, List.append_assoc, List.singleton_append,
        splitOnChar_append_sep, hpiece, ih (by simp) (fun p hp => h p (List.mem_cons_of_mem _ hp))]
      rfl

theorem not_mem_of_mem_splitOnChar {sep : Char} {cs piece : List Char}
    (h : piece ∈ splitOnChar sep cs) : sep ∉ piece := by
  induction cs generalizing piece with
  | nil => simp [splitOnChar] at h; simp [h]
  | cons c cs ih =>
    by_cases hc : c = sep
    · subst hc
      rw [splitOnChar_cons_sep, List.mem_cons] at h
      rcases h with rfl | h
      · simp
      · exact ih h
    · obtain ⟨first, pieces, hs, hcs⟩ := splitOnChar_cons_ne hc cs
      rw [hcs, List.mem_cons] at h
      rcases h with rfl | h
      · have : sep ∉ first := ih (by simp [hs])
        simp [this, Ne.symm hc]
      · exact ih (by simp [hs, h])

/-- Every character but the separator is in one of the pieces. -/
theorem exists_mem_splitOnChar {sep c : Char} (hne : c ≠ sep) {cs : List Char} (h : c ∈ cs) :
    ∃ piece ∈ splitOnChar sep cs, c ∈ piece := by
  induction cs with
  | nil => cases h
  | cons d cs ih =>
    by_cases hd : d = sep
    · subst hd
      obtain ⟨piece, hpiece, hc⟩ := ih ((List.mem_cons.1 h).resolve_left hne)
      rw [splitOnChar_cons_sep]
      exact ⟨piece, List.mem_cons_of_mem _ hpiece, hc⟩
    · obtain ⟨first, pieces, hs, hcs⟩ := splitOnChar_cons_ne hd cs
      rw [hcs]
      rcases List.mem_cons.1 h with rfl | h
      · exact ⟨c :: first, List.mem_cons_self, List.mem_cons_self⟩
      · obtain ⟨piece, hpiece, hc⟩ := ih h
        rw [hs] at hpiece
        rcases List.mem_cons.1 hpiece with rfl | hpiece
        · exact ⟨d :: piece, List.mem_cons_self, List.mem_cons_of_mem _ hc⟩
        · exact ⟨piece, List.mem_cons_of_mem _ hpiece, hc⟩

/-- A text is split where the first character of the mark comes first, if the mark stands there. -/
theorem splitAtFirst_append {m : Char} {ms a : List Char} (h : m ∉ a) (rest : List Char) :
    splitAtFirst (m :: ms) (a ++ (m :: ms) ++ rest) = some (a, rest) := by
  induction a with
  | nil => simp [splitAtFirst]
  | cons c a ih =>
    rw [List.mem_cons, not_or] at h
    have hmiss : (m :: ms).isPrefixOf (c :: (a ++ (m :: ms) ++ rest)) = false := by
      simp [List.isPrefixOf, h.1]
    rw [List.cons_append, List.cons_append, splitAtFirst, hmiss, if_neg Bool.false_ne_true, ih h.2]
    rfl

theorem not_mem_of_splitAtFirst {m : Char} {cs a b : List Char}
    (h : splitAtFirst [m] cs = some (a, b)) : m ∉ a := by
  induction cs generalizing a b with
  | nil => simp [splitAtFirst] at h
  | cons c cs ih =>
    unfold splitAtFirst at h
    split at h
    · simp only [Option.some.injEq, Prod.mk.injEq] at h
      obtain ⟨rfl, -⟩ := h
      exact List.not_mem_nil
    · next hmiss =>
      obtain ⟨⟨a', b'⟩, hs, hab⟩ := Option.map_eq_some_iff.1 h
      simp only [Prod.mk.injEq] at hab
      obtain ⟨rfl, rfl⟩ := hab
      have hne : ¬ m = c := by simpa [List.isPrefixOf] using hmiss
      rw [List.mem_cons, not_or]
      exact ⟨hne, ih hs⟩

/-- A text is split at the first place of a character. -/
theorem splitAtFirst_eq_some_iff {m : Char} {cs a b : List Char} :
    splitAtFirst [m] cs = some (a, b) ↔ cs = a ++ m :: b ∧ m ∉ a := by
  constructor
  · intro h
    have hcs := eq_append_of_splitAtFirst h
    rw [List.append_assoc, List.singleton_append] at hcs
    exact ⟨hcs, not_mem_of_splitAtFirst h⟩
  · rintro ⟨rfl, hm⟩
    have h : splitAtFirst [m] (a ++ [m] ++ b) = some (a, b) := splitAtFirst_append hm b
    rwa [List.append_assoc, List.singleton_append] at h

/-! ## Replacing -/

theorem isPrefixOf_append_sep {sep : Char} {mark : List Char} (h : sep ∉ mark)
    (a b : List Char) : mark.isPrefixOf (a ++ sep :: b) = mark.isPrefixOf a := by
  induction mark generalizing a with
  | nil => simp
  | cons m mark ih =>
    rw [List.mem_cons, not_or] at h
    cases a with
    | nil => simp [List.isPrefixOf, Ne.symm h.1]
    | cons c a => simp [List.isPrefixOf, ih h.2]

theorem length_le_of_isPrefixOf {mark cs : List Char} (h : mark.isPrefixOf cs = true) :
    mark.length ≤ cs.length :=
  (List.isPrefixOf_iff_prefix.1 h).length_le

theorem replaceFrom_append_sep {sep : Char} {mark : List Char} (hne : mark ≠ []) (h : sep ∉ mark)
    (fresh b : List Char) (skip : Nat) (a : List Char) (hskip : skip ≤ a.length) :
    replaceFrom mark fresh skip (a ++ sep :: b) =
      replaceFrom mark fresh skip a ++ sep :: replaceFrom mark fresh 0 b := by
  induction a generalizing skip with
  | nil =>
    obtain rfl : skip = 0 := by simpa using hskip
    have hsep : mark.isPrefixOf (sep :: b) = false := by
      have := isPrefixOf_append_sep h [] b
      cases mark with
      | nil => exact absurd rfl hne
      | cons m mark => simpa [List.isPrefixOf] using this
    simp [replaceFrom, hsep]
  | cons c a ih =>
    cases skip with
    | succ skip => exact ih skip (by simpa using hskip)
    | zero =>
      have heq := isPrefixOf_append_sep h (c :: a) b
      rw [List.cons_append] at heq ⊢
      simp only [replaceFrom, heq]
      split
      · next hp =>
        have hlen := length_le_of_isPrefixOf hp
        rw [ih (mark.length - 1) (by simp only [List.length_cons] at hlen; omega),
          List.append_assoc]
      · rw [ih 0 (Nat.zero_le _), List.cons_append]

theorem replaceAll_of_ne_nil {mark : List Char} (hne : mark ≠ []) (fresh cs : List Char) :
    replaceAll mark fresh cs = replaceFrom mark fresh 0 cs := by
  simp [replaceAll, hne]

theorem replaceAll_append_sep {sep : Char} {mark : List Char} (hne : mark ≠ []) (h : sep ∉ mark)
    (fresh a b : List Char) :
    replaceAll mark fresh (a ++ sep :: b) =
      replaceAll mark fresh a ++ sep :: replaceAll mark fresh b := by
  simp only [replaceAll_of_ne_nil hne]
  exact replaceFrom_append_sep hne h fresh b 0 a (Nat.zero_le _)

theorem mem_replaceFrom {mark fresh : List Char} {skip : Nat} {cs : List Char} {c : Char}
    (h : c ∈ replaceFrom mark fresh skip cs) : c ∈ fresh ∨ c ∈ cs := by
  induction cs generalizing skip with
  | nil => cases skip <;> cases h
  | cons d cs ih =>
    cases skip with
    | succ skip =>
      rcases ih h with h | h
      · exact .inl h
      · exact .inr (List.mem_cons_of_mem d h)
    | zero =>
      rw [replaceFrom] at h
      split at h
      · rcases List.mem_append.1 h with h | h
        · exact .inl h
        · rcases ih h with h | h
          · exact .inl h
          · exact .inr (List.mem_cons_of_mem d h)
      · rcases List.mem_cons.1 h with rfl | h
        · exact .inr List.mem_cons_self
        · rcases ih h with h | h
          · exact .inl h
          · exact .inr (List.mem_cons_of_mem d h)

/-- Either nothing is replaced, or all of the fresh text comes in. -/
theorem replaceFrom_eq_or_subset (mark fresh : List Char) (skip : Nat) (cs : List Char) :
    replaceFrom mark fresh skip cs = cs.drop skip ∨ fresh ⊆ replaceFrom mark fresh skip cs := by
  induction cs generalizing skip with
  | nil => cases skip <;> exact .inl rfl
  | cons c cs ih =>
    cases skip with
    | succ skip => exact ih skip
    | zero =>
      rw [replaceFrom]
      split
      · exact .inr (List.subset_append_left _ _)
      · rcases ih 0 with h | h
        · exact .inl (by rw [h]; rfl)
        · exact .inr (List.subset_cons_of_subset c h)

/-- A text without the mark stays as it is. -/
theorem replaceFrom_of_not_infix {mark cs : List Char} (h : ¬ mark <:+: cs) (fresh : List Char) :
    replaceFrom mark fresh 0 cs = cs := by
  induction cs with
  | nil => rfl
  | cons c cs ih =>
    rw [replaceFrom, if_neg, ih fun hin => h (List.infix_cons hin)]
    intro hprefix
    exact h (List.isPrefixOf_iff_prefix.1 hprefix).isInfix

end Stencil.Text
