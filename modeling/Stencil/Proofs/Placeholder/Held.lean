import Stencil.Proofs.Placeholder.Composed
import Stencil.Proofs.Placeholder.Filled
/-!
# Filling with the text that is held

A placeholder that holds its text fills a path as the one does that writes its text anew.  Where width and
text were assigned apart from each other, it still takes the texts of values from its other fields alone, and
only the text that an error tells of is its own: a width of 0 pads no more than a width of 1.

    w.renderValue value = (w.plain.renderValue value).mapError (relabel w.literal)
    (of p).renderValue value = p.renderValue value
    Written.fillAll (ps.map of) b path = fillAll ps b path
-/

namespace Stencil.Placeholder.Written

/-! ## Algorithm -/

/-- The placeholder of the other fields: a width that is there asks for an integer, be it 0. -/
def plain (w : Written) : Placeholder := ⟨w.name, (w.width.map (max 1)).getD 0, w.accessor⟩

/-- An error of a placeholder, with another text for it. -/
def relabel (literal : String) : Error → Error
  | .format _ fault => .format literal fault
  | e => e

/-! ## Texts of values -/

/-- Digits are at least one. -/
theorem writePadded_max_one (width : Nat) (n : Int) :
    Decimal.writePadded (max 1 width) n = Decimal.writePadded width n := by
  have hpos : 0 < (Nat.toDigits 10 n.natAbs).length := Nat.length_toDigits_pos
  unfold Decimal.writePadded
  have hnegative : max 1 width - ((Nat.toDigits 10 n.natAbs).length + 1) =
      width - ((Nat.toDigits 10 n.natAbs).length + 1) := by omega
  have hother : max 1 width - (Nat.toDigits 10 n.natAbs).length =
      width - (Nat.toDigits 10 n.natAbs).length := by omega
  simp only [hnegative, hother]

variable (w : Written)

theorem zeros_plain : w.plain.zeros = 0 ↔ w.width = none := by
  rw [plain]
  cases w.width <;> simp

theorem format_eq (v : Value) : w.format v = (w.plain.format v).mapError (relabel w.literal) := by
  rw [format, Placeholder.format]
  cases hwidth : w.width with
  | none =>
    rw [if_pos (w.zeros_plain.2 hwidth)]
    cases v.pathText? <;> rfl
  | some width =>
    have hzeros : w.plain.zeros = max 1 width := by rw [plain, hwidth]; rfl
    rw [if_neg (by rw [hzeros]; omega), hzeros]
    cases v.asInteger? with
    | none => rfl
    | some n =>
      dsimp only
      rw [writePadded_max_one]
      rfl

theorem resolve_eq (v : Value) : w.resolve v = w.plain.resolve v := by
  cases haccessor : w.accessor with
  | none => simp only [resolve, Placeholder.resolve, plain, haccessor]
  | some accessor =>
    cases haccess : (Access.of? v accessor).bind (·.follow? v) with
    | none => simp only [resolve, Placeholder.resolve, plain, haccessor, haccess]
    | some x => cases x <;> simp only [resolve, Placeholder.resolve, plain, haccessor, haccess]

theorem relabel_of_resolve {v : Value} {e : Error} (h : w.plain.resolve v = .error e) :
    relabel w.literal e = e := by
  rw [Placeholder.resolve] at h
  split at h
  · cases h
  · split at h
    · cases h
    · cases h
    · obtain rfl := Except.error.inj h
      rfl

theorem renderValue_of_ne_null {v : Value} (hv : v ≠ .null) :
    w.renderValue (some v) =
      match w.resolve v with
      | .error e => .error e
      | .ok none => .ok none
      | .ok (some x) =>
        match w.format x with
        | .error e => .error e
        | .ok text => .ok (some text) := by
  cases v with
  | null => exact absurd rfl hv
  | bool | int | float | str | seq | map | range | object => rfl

/-- The texts come from the other fields, the text that is held only stands in errors. -/
theorem renderValue_eq (value : Option Value) :
    w.renderValue value = (w.plain.renderValue value).mapError (relabel w.literal) := by
  cases value with
  | none => rfl
  | some v =>
    by_cases hv : v = .null
    · subst hv
      rfl
    · rw [renderValue_of_ne_null w hv, Placeholder.renderValue_of_ne_null hv, resolve_eq]
      cases hresolve : w.plain.resolve v with
      | error e => exact congrArg Except.error (w.relabel_of_resolve hresolve).symm
      | ok x? =>
        cases x? with
        | none => rfl
        | some x =>
          dsimp only
          rw [format_eq]
          cases w.plain.format x <;> rfl

/-! ## Written anew -/

theorem plain_of (p : Placeholder) : (of p).plain = p := by
  obtain ⟨name, zeros, accessor⟩ := p
  cases zeros with
  | zero => rfl
  | succ n => simp [plain, of, widthOf, Option.filter]

theorem format_of (p : Placeholder) (v : Value) : (of p).format v = p.format v := by
  rw [format_eq, plain_of]
  unfold Placeholder.format
  split <;> split <;> rfl

/-- A placeholder with the text that is written for it takes the same texts and fails alike. -/
theorem renderValue_of (p : Placeholder) (value : Option Value) :
    (of p).renderValue value = p.renderValue value := by
  cases value with
  | none => rfl
  | some v =>
    by_cases hv : v = .null
    · subst hv
      rfl
    · rw [renderValue_of_ne_null _ hv, Placeholder.renderValue_of_ne_null hv, resolve_eq, plain_of]
      cases p.resolve v with
      | error e => rfl
      | ok x? =>
        cases x? with
        | none => rfl
        | some x => cases hformat : p.format x <;> simp only [format_of, hformat]

theorem substitute_of (p : Placeholder) (path : String) (value : Option Value) :
    (of p).substitute path value = p.substitute path value := by
  have htext : (of p).literal.toList = p.chars := String.toList_ofList
  cases hrender : p.renderValue value with
  | error e => simp only [substitute, Placeholder.substitute, renderValue_of, hrender]
  | ok text? =>
    cases text? <;> simp only [substitute, Placeholder.substitute, renderValue_of, hrender, htext]

theorem fillAll_map_of (ps : List Placeholder) (b : Bindings) (path : String) :
    fillAll (ps.map of) b path = Placeholder.fillAll ps b path := by
  induction ps generalizing path with
  | nil => rfl
  | cons p ps ih =>
    have hname : (of p).name = p.name := rfl
    rw [List.map_cons, fillAll, Placeholder.fillAll, substitute_of, hname]
    cases p.substitute path (b.find? p.name) with
    | error e => rfl
    | ok path? =>
      cases path? with
      | none => rfl
      | some path => exact ih path

/-! ## The first without a text -/

variable {ws : List Written} {b : Bindings} {path : String}

/-- A filling has a text exactly if each placeholder has one. -/
theorem exists_fillAll_iff : (∃ s, fillAll ws b path = .ok (some s)) ↔
    ∀ w ∈ ws, ∃ text, w.renderValue (b.find? w.name) = .ok (some text) := by
  induction ws generalizing path with
  | nil => simp [fillAll]
  | cons w ws ih =>
    rw [fillAll, substitute, List.forall_mem_cons]
    cases hrender : w.renderValue (b.find? w.name) with
    | error e => simp
    | ok text? =>
      cases text? with
      | none => simp
      | some text => simp [ih]

/-- Otherwise it comes to what the first placeholder without a text gives. -/
theorem fillAll_of_first {before : List Written} {w : Written} (after : List Written)
    {r : Except Error (Option String)} (hr : ∀ text, r ≠ .ok (some text))
    (hbefore : ∀ q ∈ before, ∃ text, q.renderValue (b.find? q.name) = .ok (some text))
    (hfirst : w.renderValue (b.find? w.name) = r) : fillAll (before ++ w :: after) b path = r := by
  induction before generalizing path with
  | nil =>
    rw [List.nil_append, fillAll, substitute, hfirst]
    cases r with
    | error e => rfl
    | ok text? =>
      cases text? with
      | none => rfl
      | some text => exact absurd rfl (hr text)
  | cons q before ih =>
    obtain ⟨⟨text, htext⟩, hrest⟩ := List.forall_mem_cons.1 hbefore
    rw [List.cons_append, fillAll, substitute, htext]
    exact ih hrest

end Stencil.Placeholder.Written
