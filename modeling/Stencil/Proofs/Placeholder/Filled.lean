import Stencil.Placeholder.Fill
import Stencil.Proofs.Placeholder.Scan
/-!
# Filled texts

A filling that comes to a text has replaced every placeholder in turn, each by the text of its own
value.  One that is refused has met a null before any error.

    fillAll ps b path = .ok (some s) ↔ (∀ p ∈ ps, Renders b p) ∧ s.toList = filled b ps path.toList
    fillAll ps b path = .ok none ↔ the first of ps that does not render is refused
    filled b ps (x ++ '/' :: y) = filled b ps x ++ '/' :: filled b ps y
-/

namespace Stencil.Placeholder

/-! ## Algorithm -/

/-- The bindings give the placeholder a text. -/
def Renders (b : Bindings) (p : Placeholder) : Prop :=
  ∃ text, p.renderValue (b.find? p.name) = .ok (some text)

/-- The bindings refuse the placeholder: its value, or what the accessor gives, is null. -/
def Refuses (b : Bindings) (p : Placeholder) : Prop := p.renderValue (b.find? p.name) = .ok none

/-- The text that the bindings give the placeholder; empty if there is none. -/
def textOf (b : Bindings) (p : Placeholder) : List Char :=
  match p.renderValue (b.find? p.name) with
  | .ok (some text) => text.toList
  | _ => []

/-- The text with every placeholder in turn replaced by its text. -/
def filled (b : Bindings) : List Placeholder → List Char → List Char
  | [], cs => cs
  | p :: ps, cs => filled b ps (Text.replaceAll p.chars (textOf b p) cs)

instance (b : Bindings) (p : Placeholder) : Decidable (Renders b p) :=
  match h : p.renderValue (b.find? p.name) with
  | .ok (some text) => isTrue ⟨text, h⟩
  | .ok none => isFalse fun ⟨text, htext⟩ => by rw [h] at htext; cases htext
  | .error e => isFalse fun ⟨text, htext⟩ => by rw [h] at htext; cases htext

/-! ## Lemmas -/

variable {b : Bindings}

theorem renderValue_of_ne_null {p : Placeholder} {v : Value} (hv : v ≠ .null) :
    p.renderValue (some v) =
      match p.resolve v with
      | .error e => .error e
      | .ok none => .ok none
      | .ok (some w) =>
        match p.format w with
        | .error e => .error e
        | .ok text => .ok (some text) := by
  cases v with
  | null => exact absurd rfl hv
  | bool | int | float | str | seq | map | range | object => rfl

theorem textOf_eq {p : Placeholder} {text : String}
    (h : p.renderValue (b.find? p.name) = .ok (some text)) : textOf b p = text.toList := by
  rw [textOf, h]

theorem substitute_eq {p : Placeholder} {text : String}
    (h : p.renderValue (b.find? p.name) = .ok (some text)) (path : String) :
    p.substitute path (b.find? p.name) =
      .ok (some (String.ofList (Text.replaceAll p.chars (textOf b p) path.toList))) := by
  rw [substitute, h, textOf_eq h]

/-- A filling ends with a text exactly if every placeholder has one. -/
theorem fillAll_eq_ok_some_iff {ps : List Placeholder} {path s : String} :
    fillAll ps b path = .ok (some s) ↔
      (∀ p ∈ ps, Renders b p) ∧ s.toList = filled b ps path.toList := by
  induction ps generalizing path with
  | nil =>
    have hsame : path = s ↔ s.toList = path.toList := by rw [String.toList_inj, eq_comm]
    simpa [fillAll, filled] using hsame
  | cons p ps ih =>
    by_cases hp : Renders b p
    · obtain ⟨text, htext⟩ := hp
      have hrenders : Renders b p := ⟨text, htext⟩
      simp only [fillAll, substitute_eq htext, ih, filled, String.toList_ofList, List.forall_mem_cons,
        hrenders, true_and]
    · constructor
      · intro h
        exfalso
        rw [fillAll, substitute] at h
        cases hrender : p.renderValue (b.find? p.name) with
        | error e => rw [hrender] at h; cases h
        | ok text? =>
          cases text? with
          | none => rw [hrender] at h; cases h
          | some text => exact hp ⟨text, hrender⟩
      · intro h
        exact absurd (h.1 p List.mem_cons_self) hp

theorem fillAll_cons_of_renders {p : Placeholder} (h : Renders b p) (ps : List Placeholder)
    (path : String) : ∃ path', fillAll (p :: ps) b path = fillAll ps b path' := by
  obtain ⟨text, htext⟩ := h
  refine ⟨String.ofList (Text.replaceAll p.chars (textOf b p) path.toList), ?_⟩
  rw [fillAll, substitute_eq htext]

/-- A filling that comes to no text comes to what the first placeholder without a text gives. -/
theorem fillAll_eq_iff {ps : List Placeholder} {path : String} {r : Except Error (Option String)}
    (hr : ∀ s, r ≠ .ok (some s)) :
    fillAll ps b path = r ↔ ∃ before p after, ps = before ++ p :: after ∧
      (∀ q ∈ before, Renders b q) ∧ p.renderValue (b.find? p.name) = r := by
  induction ps generalizing path with
  | nil =>
    constructor
    · intro h
      exact absurd h.symm (hr path)
    · rintro ⟨before, p, after, heq, -⟩
      simp at heq
  | cons q ps ih =>
    by_cases hq : Renders b q
    · obtain ⟨path', hstep⟩ := fillAll_cons_of_renders hq ps path
      rw [hstep, ih]
      constructor
      · rintro ⟨before, p, after, rfl, hbefore, hp⟩
        exact ⟨q :: before, p, after, rfl, List.forall_mem_cons.2 ⟨hq, hbefore⟩, hp⟩
      · rintro ⟨before, p, after, heq, hbefore, hp⟩
        cases before with
        | nil =>
          obtain ⟨rfl, rfl⟩ := List.cons.inj heq
          obtain ⟨text, htext⟩ := hq
          exact absurd (hp.symm.trans htext) (hr text)
        | cons q' before =>
          obtain ⟨rfl, rfl⟩ := List.cons.inj heq
          exact ⟨before, p, after, rfl, (List.forall_mem_cons.1 hbefore).2, hp⟩
    · have hfirst : fillAll (q :: ps) b path = r ↔ q.renderValue (b.find? q.name) = r := by
        rw [fillAll, substitute]
        cases hrender : q.renderValue (b.find? q.name) with
        | error e => rfl
        | ok text? =>
          cases text? with
          | none => rfl
          | some text => exact absurd ⟨text, hrender⟩ hq
      rw [hfirst]
      constructor
      · intro hrender
        exact ⟨[], q, ps, rfl, by simp, hrender⟩
      · rintro ⟨before, p, after, heq, hbefore, hp⟩
        cases before with
        | nil =>
          obtain ⟨rfl, -⟩ := List.cons.inj heq
          exact hp
        | cons q' before =>
          obtain ⟨rfl, -⟩ := List.cons.inj heq
          exact absurd (hbefore _ List.mem_cons_self) hq

/-- A filling is refused exactly if some placeholder is, and all before it have a text. -/
theorem fillAll_eq_ok_none_iff {ps : List Placeholder} {path : String} :
    fillAll ps b path = .ok none ↔
      ∃ before p after, ps = before ++ p :: after ∧ (∀ q ∈ before, Renders b q) ∧ Refuses b p :=
  fillAll_eq_iff fun s h => by cases h

theorem filled_append (ps qs : List Placeholder) (cs : List Char) :
    filled b (ps ++ qs) cs = filled b qs (filled b ps cs) := by
  induction ps generalizing cs with
  | nil => rfl
  | cons p ps ih => exact ih _

/-- A text without any of the placeholders stays as it is. -/
theorem filled_of_not_infix {ps : List Placeholder} {cs : List Char}
    (h : ∀ p ∈ ps, ¬ p.chars <:+: cs) : filled b ps cs = cs := by
  induction ps with
  | nil => rfl
  | cons p ps ih =>
    obtain ⟨hp, hrest⟩ := List.forall_mem_cons.1 h
    rw [filled, Text.replaceAll_of_ne_nil p.chars_ne_nil, Text.replaceFrom_of_not_infix hp]
    exact ih hrest

theorem filled_congr {b' : Bindings} {ps : List Placeholder} (h : ∀ p ∈ ps, textOf b p = textOf b' p)
    (cs : List Char) : filled b ps cs = filled b' ps cs := by
  induction ps generalizing cs with
  | nil => rfl
  | cons p ps ih =>
    obtain ⟨hp, hrest⟩ := List.forall_mem_cons.1 h
    rw [filled, filled, hp, ih hrest]

theorem format_of_isEnumerable {v : Value} (h : v.isEnumerable = true) (p : Placeholder) (text : String) :
    p.format v ≠ .ok text := by
  have hpath : v.pathText? = none := by cases v <;> first | rfl | cases h
  have hinteger : v.asInteger? = none := by cases v <;> first | rfl | cases h
  rw [format, hpath, hinteger]
  by_cases hzeros : p.zeros = 0 <;> simp [hzeros]

/-- A value that fans out cannot stand in a path. -/
theorem renderValue_of_isEnumerable {v : Value} (h : v.isEnumerable = true) (p : Placeholder) :
    ∃ e, p.renderValue (some v) = .error e := by
  have haccess : ∀ accessor, Access.of? v accessor = none := by
    cases v <;> first | exact fun _ => rfl | cases h
  have hformat : ∃ e, p.format v = .error e := by
    cases hv : p.format v with
    | error e => exact ⟨e, rfl⟩
    | ok text => exact absurd hv (format_of_isEnumerable h p text)
  obtain ⟨e, he⟩ := hformat
  have hnull : v ≠ .null := by
    rintro rfl
    cases h
  rw [renderValue]
  · cases haccessor : p.accessor with
    | none => exact ⟨e, by simp [resolve, haccessor, he]⟩
    | some accessor => exact ⟨_, by simp [resolve, haccessor, haccess]; rfl⟩
  · exact hnull

theorem isEnumerable_of_renderValue_eq_ok {p : Placeholder} {text? : Option String}
    (h : p.renderValue (b.find? p.name) = .ok text?) {v : Value} (hv : b.find? p.name = some v) :
    v.isEnumerable = false := by
  rw [Bool.eq_false_iff]
  intro henum
  obtain ⟨e, he⟩ := renderValue_of_isEnumerable henum p
  rw [hv, he] at h
  cases h

/-- A value that fans out has no text. -/
theorem Renders.isEnumerable {p : Placeholder} (h : Renders b p) {v : Value}
    (hv : b.find? p.name = some v) : v.isEnumerable = false := by
  obtain ⟨text, htext⟩ := h
  exact isEnumerable_of_renderValue_eq_ok htext hv

/-- The two sides of a separator are filled by themselves. -/
theorem filled_append_separator {ps : List Placeholder} (hps : ∀ p ∈ ps, p.Proper)
    (x y : List Char) : filled b ps (x ++ '/' :: y) = filled b ps x ++ '/' :: filled b ps y := by
  induction ps generalizing x y with
  | nil => rfl
  | cons p ps ih =>
    have hp := hps p List.mem_cons_self
    rw [filled, Text.replaceAll_append_sep p.chars_ne_nil hp.separator_not_mem_chars,
      ih fun q hq => hps q (List.mem_cons_of_mem p hq)]
    rfl

/-- Each piece between separators is filled by itself. -/
theorem filled_intercalate {ps : List Placeholder} (hps : ∀ p ∈ ps, p.Proper)
    {pieces : List (List Char)} (hne : pieces ≠ []) :
    filled b ps (['/'].intercalate pieces) = ['/'].intercalate (pieces.map (filled b ps)) := by
  induction pieces with
  | nil => exact absurd rfl hne
  | cons piece pieces ih =>
    cases pieces with
    | nil => simp
    | cons next pieces =>
      rw [List.intercalate_cons_cons, List.append_assoc, List.singleton_append,
        filled_append_separator hps, ih (List.cons_ne_nil next pieces)]
      simp only [List.map_cons, List.intercalate_cons_cons, List.append_assoc, List.singleton_append]

theorem proper_of_mem_bound {path : String} {p : Placeholder} (h : p ∈ bound path b) : p.Proper :=
  proper_of_mem_scan (List.mem_filter.1 h).1

end Stencil.Placeholder
