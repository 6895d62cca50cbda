import Mathlib.Data.List.Induction
import Stencil.Placeholder.Written
import Stencil.Proofs.Placeholder.Scan
/-!
# The text that a placeholder holds

A placeholder that is built and one that is found in a path hold the same text: the one that is written from
the name, the width and the accessor.  So a placeholder with its text is `Written.of` a placeholder without it, after
every step of building and wherever the scanner finds one.

    (of p).step s = of (p.after s)
    build name steps = of (steps.foldl after (Placeholder.ofName name))
    Written.at? cs = (Placeholder.at? cs).map fun p => (of p, cs.drop p.chars.length)
    Written.scan path = (Placeholder.scan path).map of
-/

namespace Stencil.Placeholder

open Written (Step)

/-! ## Algorithm -/

/-- A step of building on a placeholder that does not hold its text. -/
def after (p : Placeholder) : Step → Placeholder
  | .accessor a => p.withAccessor a
  | .width n => p.withWidth n

namespace Written

/-- A width, where 0 is none. -/
def widthOf (zeros : Nat) : Option Nat := (some zeros).filter (0 < ·)

/-- A placeholder beside its text. -/
def of (p : Placeholder) : Written := ⟨p.name, widthOf p.zeros, p.accessor, p.literal⟩

def Step.accessor? : Step → Option String
  | .accessor a => some a
  | .width _ => none

def Step.width? : Step → Option Nat
  | .accessor _ => none
  | .width n => some n

/-- The accessor that the steps leave: the last one. -/
def lastAccessor (steps : List Step) : Option String := (steps.filterMap Step.accessor?).getLast?

/-- The zeros that the steps leave: the last width. -/
def lastWidth (steps : List Step) : Nat := (steps.filterMap Step.width?).getLast?.getD 0

/-! ## Building -/

theorem widthOf_getD (zeros : Nat) : (widthOf zeros).getD 0 = zeros := by
  cases zeros <;> rfl

theorem compose_of (p : Placeholder) : (of p).compose = p.literal := by
  rw [← String.toList_inj]
  simp only [compose, of, widthOf_getD, Placeholder.literal, chars]
  cases p.accessor <;> simp [accessorChars, delimiter]

/-- Text written anew is the text of the placeholder. -/
theorem recomposed_eq_of (p : Placeholder) (text : String) :
    recomposed { of p with literal := text } = of p := by
  have hcompose := compose_of p
  unfold recomposed
  show ({ of p with literal := (of p).compose } : Written) = of p
  rw [hcompose]
  rfl

theorem ofName_eq_of (name : String) : ofName name = of (Placeholder.ofName name) :=
  recomposed_eq_of (Placeholder.ofName name) ""

/-- Each step leaves the text of the placeholder. -/
theorem step_of (p : Placeholder) (s : Step) : (of p).step s = of (p.after s) := by
  cases s with
  | accessor a => exact recomposed_eq_of (p.withAccessor a) p.literal
  | width n => exact recomposed_eq_of (p.withWidth n) p.literal

/-- All the steps together leave the text of the placeholder. -/
theorem build_eq_of (name : String) (steps : List Step) :
    build name steps = of (steps.foldl after (Placeholder.ofName name)) := by
  unfold build
  rw [ofName_eq_of]
  exact List.foldl_hom of step_of

/-- What the steps leave of a placeholder: its name, the last accessor and the last width. -/
theorem foldl_after (name : String) (steps : List Step) :
    steps.foldl after (Placeholder.ofName name) = ⟨name, lastWidth steps, lastAccessor steps⟩ := by
  induction steps using List.reverseRecOn with
  | nil => rfl
  | append_singleton steps s ih =>
    rw [List.foldl_append, ih]
    unfold lastWidth lastAccessor
    cases s with
    | accessor a => simp [after, Placeholder.withAccessor, Step.accessor?, Step.width?]
    | width n => simp [after, Placeholder.withWidth, Step.accessor?, Step.width?]

/-- Steps that leave the accessor and the width of a placeholder build it. -/
theorem build_of {p : Placeholder} {steps : List Step} (haccessor : lastAccessor steps = p.accessor)
    (hwidth : lastWidth steps = p.zeros) : build p.name steps = of p := by
  rw [build_eq_of, foldl_after, haccessor, hwidth]

/-! ## Reading the groups -/

theorem readWidth_eq (cs : List Char) :
    readWidth cs = (widthOf (cs.takeWhile (· == '0')).length, cs.dropWhile (· == '0')) := by
  have hdrop : (cs.takeWhile (· == '0') ++ cs.dropWhile (· == '0')).drop
      (cs.takeWhile (· == '0')).length = cs.dropWhile (· == '0') := List.drop_left
  rw [List.takeWhile_append_dropWhile] at hdrop
  unfold readWidth
  split
  · next h =>
    rw [h, List.drop_zero] at hdrop
    rw [h, ← hdrop]
    rfl
  · next n h =>
    rw [h] at hdrop
    rw [h, hdrop]
    rfl

theorem readAccessor_append {accessor : Option String} (rest : List Char)
    (h : ∀ a, accessor = some a → IsName a.toList) :
    readAccessor (accessorChars accessor ++ '%' :: rest) = (accessor, '%' :: rest) := by
  cases accessor with
  | none => rfl
  | some a =>
    have hread := readName?_append_accessor (h a rfl) none rest
    simp only [accessorChars, List.cons_append, List.nil_append] at hread ⊢
    simp only [readAccessor, hread]

theorem of_readAccessor_eq {cs rest : List Char} {accessor : Option String}
    (h : readAccessor cs = (accessor, rest)) :
    (∀ a, accessor = some a → IsName a.toList) ∧ cs = accessorChars accessor ++ rest := by
  unfold readAccessor at h
  split at h
  · next inside =>
    split at h
    · next a rest' hread =>
      obtain ⟨rfl, rfl⟩ := Prod.mk.inj h
      obtain ⟨hname, hinside⟩ := of_readName?_eq_some hread
      refine ⟨?_, by rw [hinside]; rfl⟩
      intro b hb
      obtain rfl := Option.some.inj hb
      exact hname
    · obtain ⟨rfl, rfl⟩ := Prod.mk.inj h
      exact ⟨by simp, rfl⟩
  · obtain ⟨rfl, rfl⟩ := Prod.mk.inj h
    exact ⟨by simp, rfl⟩

/-- The text that was read is what stood before the text behind it. -/
theorem take_length_sub (cs rest : List Char) :
    (cs ++ rest).take ((cs ++ rest).length - rest.length) = cs := by
  rw [List.length_append, Nat.add_sub_cancel, List.take_left]

/-! ## Scanning -/

/-- The characters of a placeholder are read back as it, and its text with it. -/
theorem at?_chars_append {p : Placeholder} (h : p.Proper) (rest : List Char) :
    at? (p.chars ++ rest) = some (of p, rest) := by
  obtain ⟨htake, hdrop⟩ := h.name.takeWhile_zeros p.zeros (accessorChars p.accessor ++ '%' :: rest)
  have hread := readName?_append_accessor h.name p.accessor rest
  have htext := take_length_sub p.chars rest
  rw [chars_append_eq] at htext ⊢
  unfold at?
  simp only [readWidth_eq, htake, hdrop, hread, readAccessor_append rest h.accessor, htext,
    List.length_replicate]
  rfl

/-- Whatever is read is a placeholder, and its text is what was read. -/
theorem of_at?_eq_some {cs rest : List Char} {w : Written} (h : at? cs = some (w, rest)) :
    ∃ p : Placeholder, p.Proper ∧ w = of p ∧ cs = p.chars ++ rest := by
  unfold at? at h
  split at h
  · next inside =>
    rw [readWidth_eq] at h
    simp only at h
    split at h
    · cases h
    · next name named hname =>
      split at h
      · next accessor rest' haccessor =>
        obtain ⟨hn, hnamed⟩ := of_readName?_eq_some hname
        obtain ⟨ha, hrest⟩ := of_readAccessor_eq haccessor
        obtain ⟨rfl, rfl⟩ := Prod.mk.inj (Option.some.inj h)
        have hshape : '%' :: inside =
            chars ⟨name, (inside.takeWhile (· == '0')).length, accessor⟩ ++ rest' := by
          rw [chars_append_eq, ← takeWhile_zeros, ← hrest, ← hnamed, List.takeWhile_append_dropWhile]
        refine ⟨⟨name, (inside.takeWhile (· == '0')).length, accessor⟩, ⟨hn, ha⟩, ?_, hshape⟩
        rw [hshape, take_length_sub]
        rfl
      · cases h
  · cases h

/-- The two scanners read the same placeholders, and go on behind them. -/
theorem at?_eq_some_iff {cs rest : List Char} {w : Written} : at? cs = some (w, rest) ↔
    ∃ p, Placeholder.at? cs = some p ∧ w = of p ∧ cs = p.chars ++ rest := by
  constructor
  · intro h
    obtain ⟨p, hp, hw, rfl⟩ := of_at?_eq_some h
    exact ⟨p, hp.at?_chars_append rest, hw, rfl⟩
  · rintro ⟨p, hp, rfl, rfl⟩
    exact at?_chars_append (Placeholder.at?_eq_some_iff.1 hp).1 rest

theorem at?_eq_none_iff {cs : List Char} : at? cs = none ↔ Placeholder.at? cs = none := by
  rw [Option.eq_none_iff_forall_ne_some, Option.eq_none_iff_forall_ne_some]
  constructor
  · intro h p hp
    obtain ⟨-, rest, hrest⟩ := Placeholder.at?_eq_some_iff.1 hp
    exact h (of p, rest) (at?_eq_some_iff.2 ⟨p, hp, rfl, hrest.symm⟩)
  · rintro h ⟨w, rest⟩ hw
    obtain ⟨p, hp, -, -⟩ := at?_eq_some_iff.1 hw
    exact h p hp

theorem scanFrom_eq (skip : Nat) (cs : List Char) :
    scanFrom skip cs = ((piecesFrom skip cs).filterMap Piece.hole?).map of := by
  -- along the two scanners, which pass over the same characters
  induction cs generalizing skip with
  | nil => cases skip <;> rfl
  | cons c cs ih =>
    cases skip with
    | succ skip => exact ih skip
    | zero =>
      cases hread : Placeholder.at? (c :: cs) with
      | none =>
        have hread' := at?_eq_none_iff.2 hread
        simp only [scanFrom, hread', piecesFrom, hread]
        exact ih 0
      | some p =>
        obtain ⟨-, rest, hrest⟩ := Placeholder.at?_eq_some_iff.1 hread
        have hread' := at?_eq_some_iff.2 ⟨p, hread, rfl, hrest.symm⟩
        have hskip : cs.length - rest.length = p.chars.length - 1 := by
          have hlen := congrArg List.length hrest
          rw [List.length_append, List.length_cons] at hlen
          omega
        simp only [scanFrom, hread', piecesFrom, hread, hskip]
        exact congrArg (of p :: ·) (ih _)

/-- The scanner that keeps the texts finds the placeholders of the scanner that does not. -/
theorem scan_eq_map (path : String) : scan path = (Placeholder.scan path).map of :=
  scanFrom_eq 0 path.toList

/-! ## Built and found -/

theorem scan_literal_of {p : Placeholder} (h : p.Proper) : scan (of p).literal = [of p] := by
  have hholes := holes_chars_append h []
  rw [List.append_nil] at hholes
  have hpath : (of p).literal.toList = p.chars := String.toList_ofList
  rw [scan_eq_map, Placeholder.scan, pieces, hpath]
  show (holes p.chars).map of = _
  rw [hholes]
  rfl

theorem exists_of_mem_scan {path : String} {q : Written} (h : q ∈ scan path) :
    ∃ p : Placeholder, p.Proper ∧ of p = q := by
  rw [scan_eq_map, List.mem_map] at h
  obtain ⟨p, hp, hq⟩ := h
  exact ⟨p, proper_of_mem_scan hp, hq⟩

/-- A built placeholder is found in its own text exactly when its name and the accessor that the steps leave are
words of the grammar. -/
theorem scan_literal_build_iff (name : String) (steps : List Step) :
    scan (build name steps).literal = [build name steps] ↔
      IsName name.toList ∧ ∀ a, lastAccessor steps = some a → IsName a.toList := by
  constructor
  · intro h
    have hmem : build name steps ∈ scan (build name steps).literal := by
      rw [h]
      exact List.mem_singleton_self _
    obtain ⟨p, hp, hof⟩ := exists_of_mem_scan hmem
    rw [build_eq_of, foldl_after] at hof
    have hname : p.name = name := congrArg Written.name hof
    have haccessor : p.accessor = lastAccessor steps := congrArg Written.accessor hof
    rw [← hname, ← haccessor]
    exact ⟨hp.name, hp.accessor⟩
  · rintro ⟨hname, haccessor⟩
    rw [build_eq_of, foldl_after]
    exact scan_literal_of ⟨hname, haccessor⟩

theorem mem_of_lastAccessor {steps : List Step} {a : String} (h : lastAccessor steps = some a) :
    .accessor a ∈ steps := by
  obtain ⟨s, hs, hsa⟩ := List.mem_filterMap.1 (List.mem_of_getLast? h)
  cases s with
  | accessor b =>
    obtain rfl : b = a := by simpa [Step.accessor?] using hsa
    exact hs
  | width n => simp [Step.accessor?] at hsa

theorem lastAccessor_stepsFor (accessor : Option String) (width : Option Nat) :
    lastAccessor (stepsFor accessor width) = accessor := by
  cases accessor <;> cases width <;> rfl

theorem lastWidth_stepsFor (accessor : Option String) (width : Option Nat) :
    lastWidth (stepsFor accessor width) = width.getD 0 := by
  cases accessor <;> cases width <;> rfl

/-- A placeholder that was found is built again by any steps that leave its accessor and its width. -/
theorem build_eq_of_mem_scan {path : String} {q : Written} (h : q ∈ scan path) {steps : List Step}
    (haccessor : lastAccessor steps = q.accessor) (hwidth : lastWidth steps = q.width.getD 0) :
    build q.name steps = q := by
  obtain ⟨p, -, rfl⟩ := exists_of_mem_scan h
  apply build_of haccessor
  rw [hwidth]
  exact widthOf_getD p.zeros

/-- Placeholders that are built and placeholders that are found hold the text that is written for them.  Whatever
is built from words of the grammar, in whatever steps, is the one placeholder of its text; and whatever is found
in a path is built again, with its text, from its name, its accessor and its width, and by all steps that leave
these. -/
theorem build_scan_agree :
    (∀ (name : String) (steps : List Step),
      build name steps = of (steps.foldl after (Placeholder.ofName name))) ∧
    (∀ path : String, scan path = (Placeholder.scan path).map of) ∧
    (∀ (name : String) (steps : List Step), IsName name.toList →
      (∀ a, .accessor a ∈ steps → IsName a.toList) →
      scan (build name steps).literal = [build name steps]) ∧
    ∀ (path : String) (q : Written), q ∈ scan path → q.rebuild = q ∧
      ∀ steps, lastAccessor steps = q.accessor → lastWidth steps = q.width.getD 0 →
        build q.name steps = q := by
  refine ⟨build_eq_of, scan_eq_map, ?_, ?_⟩
  · intro name steps hname haccessors
    rw [scan_literal_build_iff]
    exact ⟨hname, fun a ha => haccessors a (mem_of_lastAccessor ha)⟩
  · intro path q hq
    constructor
    · exact build_eq_of_mem_scan hq (lastAccessor_stepsFor _ _) (lastWidth_stepsFor _ _)
    · intro steps haccessor hwidth
      exact build_eq_of_mem_scan hq haccessor hwidth

/-- The steps of a chapter title: its accessor is given twice, its width three times. -/
def chapterSteps : List Step := [.width 2, .accessor "n", .width 0, .accessor "title", .width 3]

theorem build_scan_chapter :
    scan (build "chap" chapterSteps).literal = [⟨"chap", some 3, some "title", "%000chap.title%"⟩] ∧
    ∃ q ∈ scan "%00n%/%chap.title%.md", q.literal = "%00n%" ∧ q.rebuild = q ∧
      build "n" [.width 7, .width 2] = q := by
  obtain ⟨-, -, hbuilds, hrebuilds⟩ := build_scan_agree
  have hread : ∀ w ∈ ["chap", "n", "title"], readName? w.toList = some (w, []) := by decide +kernel
  have hletters : ∀ w ∈ ["chap", "n", "title"], IsName w.toList := by
    intro w hw
    exact (of_readName?_eq_some (hread w hw)).1
  have hbuilt : build "chap" chapterSteps = ⟨"chap", some 3, some "title", "%000chap.title%"⟩ := by
    decide +kernel
  have hfound : (⟨"n", some 2, none, "%00n%"⟩ : Written) ∈ scan "%00n%/%chap.title%.md" := by
    decide +kernel
  constructor
  · rw [← hbuilt]
    apply hbuilds "chap" chapterSteps (hletters _ (by simp))
    intro a ha
    have hgiven : a = "n" ∨ a = "title" := by simpa [chapterSteps] using ha
    exact hletters a (List.mem_cons_of_mem _ (by simpa using hgiven))
  · obtain ⟨hrebuild, hsteps⟩ := hrebuilds _ _ hfound
    exact ⟨_, hfound, rfl, hrebuild, hsteps [.width 7, .width 2] rfl rfl⟩

end Written

end Stencil.Placeholder
