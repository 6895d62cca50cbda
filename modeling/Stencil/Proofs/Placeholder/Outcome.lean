import Stencil.Proofs.Placeholder.Held
/-!
# What decides a filling

A placeholder has a text, is refused, or fails by its own value alone, and the first one without a text
decides the whole filling, whatever the path.

    p.renderValue value = r ↔ p.Outcome value r                    (`renderValue_eq_iff`)
    fillAll ps b path = r ↔ r is what the first of ps without a text gives     (`fillAll_eq_iff`)
-/

namespace Stencil

/-- The value has another one under a name: an entry of a map, or what an operation of an object gives. -/
inductive Value.Gives : Value → String → Value → Prop where
  | entry {entries : List (String × Value)} {key : String} {w : Value} :
      entries.lookup key = some w → Gives (.map entries) key w
  | operation {identity : Nat} {text : Option String} {description : String}
      {invoke : String → Option Value} {name : String} {w : Value} :
      invoke name = some w → Gives (.object identity text description invoke) name w

theorem Value.Gives.ne_null {v w : Value} {name : String} (h : v.Gives name w) : v ≠ .null := by
  rintro rfl
  cases h

namespace Placeholder

/-! ## The outcomes -/

/-- What is written for a value: what is behind the accessor, if there is one. -/
inductive Resolves (p : Placeholder) (v : Value) : Value → Prop where
  | whole : p.accessor = none → Resolves p v v
  | behind {accessor : String} {w : Value} :
      p.accessor = some accessor → v.Gives accessor w → Resolves p v w

/-- The text of a value: padded for an integer under a width, else the text that it has in a path. -/
inductive Writes (p : Placeholder) (w : Value) : String → Prop where
  | plain {text : String} : p.zeros = 0 → w.pathText? = some text → Writes p w text
  | padded {n : Int64} : 0 < p.zeros → w.asInteger? = some n →
      Writes p w (String.ofList (Decimal.writePadded p.zeros n.toInt))

/-- Why a value has no text: no integer under a width, or nothing that can stand in a path. -/
inductive CannotWrite (p : Placeholder) (w : Value) : FormatFault → Prop where
  | plain : p.zeros = 0 → w.pathText? = none → CannotWrite p w (.noPathText w.kind)
  | padded : 0 < p.zeros → w.asInteger? = none → CannotWrite p w (.needsInteger w.kind)

/-- What a value makes of a placeholder. -/
inductive Outcome (p : Placeholder) : Option Value → Except Error (Option String) → Prop where
  | absent : Outcome p none (.ok none)
  | null : Outcome p (some .null) (.ok none)
  | behindNull {v : Value} : v ≠ .null → p.Resolves v .null → Outcome p (some v) (.ok none)
  | unknown {v : Value} {accessor : String} : v ≠ .null → p.accessor = some accessor →
      (∀ w, ¬ v.Gives accessor w) → Outcome p (some v) (.error (.unknownAccessor p.name accessor))
  | unwritable {v w : Value} {fault : FormatFault} : v ≠ .null → p.Resolves v w → w ≠ .null →
      p.CannotWrite w fault → Outcome p (some v) (.error (.format p.literal fault))
  | text {v w : Value} {text : String} : v ≠ .null → p.Resolves v w → w ≠ .null →
      p.Writes w text → Outcome p (some v) (.ok (some text))

/-! ## Lemmas -/

variable {p : Placeholder} {v w : Value}

/-- An accessor is followed to what the value gives under it. -/
theorem follow?_eq_some_iff {accessor : String} :
    (Access.of? v accessor).bind (·.follow? v) = some w ↔ v.Gives accessor w := by
  constructor
  · intro h
    rw [Option.bind_eq_some_iff] at h
    obtain ⟨access, haccess, hw⟩ := h
    cases v with
    | map entries =>
      rw [Access.of?] at haccess
      split at haccess
      · obtain rfl := Option.some.inj haccess
        exact .entry hw
      · cases haccess
    | object identity text description invoke =>
      obtain rfl := Option.some.inj haccess
      exact .operation hw
    | null | bool | int | float | str | seq | range => cases haccess
  · rintro (hlookup | hinvoke)
    · rw [Access.of?, hlookup]
      exact hlookup
    · exact hinvoke

theorem resolve_of_null (hv : v ≠ .null) (h : p.Resolves v .null) : p.resolve v = .ok none := by
  cases h with
  | whole => exact absurd rfl hv
  | behind haccessor hgives => simp only [resolve, haccessor, follow?_eq_some_iff.2 hgives]

theorem resolve_of_ne_null (hw : w ≠ .null) (h : p.Resolves v w) : p.resolve v = .ok (some w) := by
  cases h with
  | whole haccessor => simp only [resolve, haccessor]
  | behind haccessor hgives =>
    simp only [resolve, haccessor, follow?_eq_some_iff.2 hgives]

theorem resolve_of_not_gives {accessor : String} (haccessor : p.accessor = some accessor)
    (h : ∀ w, ¬ v.Gives accessor w) : p.resolve v = .error (.unknownAccessor p.name accessor) := by
  have hnone : (Access.of? v accessor).bind (·.follow? v) = none :=
    Option.eq_none_iff_forall_ne_some.2 fun w hw => h w (follow?_eq_some_iff.1 hw)
  simp only [resolve, haccessor, hnone]

theorem Writes.format_eq {text : String} (h : p.Writes w text) : p.format w = .ok text := by
  cases h with
  | plain hzeros htext => simp only [format, hzeros, htext, if_true]
  | padded hzeros hn => simp only [format, if_neg (Nat.pos_iff_ne_zero.1 hzeros), hn]

theorem CannotWrite.format_eq {fault : FormatFault} (h : p.CannotWrite w fault) :
    p.format w = .error (.format p.literal fault) := by
  cases h with
  | plain hzeros htext => simp only [format, hzeros, htext, if_true]
  | padded hzeros hn => simp only [format, if_neg (Nat.pos_iff_ne_zero.1 hzeros), hn]

theorem exists_writes_or_cannotWrite (p : Placeholder) (w : Value) :
    (∃ text, p.Writes w text) ∨ ∃ fault, p.CannotWrite w fault := by
  rcases Nat.eq_zero_or_pos p.zeros with hzeros | hzeros
  · cases htext : w.pathText? with
    | some text => exact .inl ⟨text, .plain hzeros htext⟩
    | none => exact .inr ⟨_, .plain hzeros htext⟩
  · cases hn : w.asInteger? with
    | some n => exact .inl ⟨_, .padded hzeros hn⟩
    | none => exact .inr ⟨_, .padded hzeros hn⟩

theorem Outcome.renderValue_eq {value : Option Value} {r : Except Error (Option String)}
    (h : p.Outcome value r) : p.renderValue value = r := by
  cases h with
  | absent => rfl
  | null => rfl
  | behindNull hv hnull => simp only [renderValue_of_ne_null hv, resolve_of_null hv hnull]
  | unknown hv haccessor hnot =>
    simp only [renderValue_of_ne_null hv, resolve_of_not_gives haccessor hnot]
  | unwritable hv hresolves hw hcannot =>
    simp only [renderValue_of_ne_null hv, resolve_of_ne_null hw hresolves, hcannot.format_eq]
  | text hv hresolves hw hwrites =>
    simp only [renderValue_of_ne_null hv, resolve_of_ne_null hw hresolves, hwrites.format_eq]

theorem exists_outcome_of_resolves (hv : v ≠ .null) (h : p.Resolves v w) :
    ∃ r, p.Outcome (some v) r := by
  by_cases hw : w = .null
  · subst hw
    exact ⟨_, .behindNull hv h⟩
  · rcases exists_writes_or_cannotWrite p w with ⟨text, htext⟩ | ⟨fault, hfault⟩
    · exact ⟨_, .text hv h hw htext⟩
    · exact ⟨_, .unwritable hv h hw hfault⟩

/-- Every value has its outcome. -/
theorem exists_outcome (p : Placeholder) (value : Option Value) : ∃ r, p.Outcome value r := by
  cases value with
  | none => exact ⟨_, .absent⟩
  | some v =>
    by_cases hv : v = .null
    · subst hv
      exact ⟨_, .null⟩
    · cases haccessor : p.accessor with
      | none => exact exists_outcome_of_resolves hv (.whole haccessor)
      | some accessor =>
        by_cases hgives : ∃ w, v.Gives accessor w
        · obtain ⟨w, hw⟩ := hgives
          exact exists_outcome_of_resolves hv (.behind haccessor hw)
        · exact ⟨_, .unknown hv haccessor fun w hw => hgives ⟨w, hw⟩⟩

theorem renderValue_eq_iff {value : Option Value} {r : Except Error (Option String)} :
    p.renderValue value = r ↔ p.Outcome value r := by
  constructor
  · rintro rfl
    obtain ⟨r, hr⟩ := exists_outcome p value
    rwa [hr.renderValue_eq]
  · exact Outcome.renderValue_eq

/-- A placeholder is refused for no value, for null and for an accessor that leads to null. -/
theorem renderValue_eq_ok_none_iff {value : Option Value} :
    p.renderValue value = .ok none ↔
      value = none ∨ value = some .null ∨
        ∃ v accessor, value = some v ∧ p.accessor = some accessor ∧ v.Gives accessor .null := by
  rw [renderValue_eq_iff]
  constructor
  · intro h
    cases h with
    | absent => exact .inl rfl
    | null => exact .inr (.inl rfl)
    | behindNull hv hnull =>
      cases hnull with
      | whole => exact absurd rfl hv
      | behind haccessor hgives => exact .inr (.inr ⟨_, _, rfl, haccessor, hgives⟩)
  · rintro (rfl | rfl | ⟨v, accessor, rfl, haccessor, hgives⟩)
    · exact .absent
    · exact .null
    · exact .behindNull hgives.ne_null (.behind haccessor hgives)

/-- It fails for an accessor that a value other than null does not have. -/
theorem renderValue_eq_unknownAccessor_iff {value : Option Value} {name accessor : String} :
    p.renderValue value = .error (.unknownAccessor name accessor) ↔
      name = p.name ∧ p.accessor = some accessor ∧
        ∃ v, value = some v ∧ v ≠ .null ∧ ∀ w, ¬ v.Gives accessor w := by
  rw [renderValue_eq_iff]
  constructor
  · intro h
    cases h with
    | unknown hv haccessor hnot => exact ⟨rfl, haccessor, _, rfl, hv, hnot⟩
  · rintro ⟨rfl, haccessor, v, rfl, hv, hnot⟩
    exact .unknown hv haccessor hnot

/-- It fails for a resolved value without a text. -/
theorem renderValue_eq_format_iff {value : Option Value} {literal : String} {fault : FormatFault} :
    p.renderValue value = .error (.format literal fault) ↔
      literal = p.literal ∧
        ∃ v w, value = some v ∧ v ≠ .null ∧ p.Resolves v w ∧ w ≠ .null ∧ p.CannotWrite w fault := by
  rw [renderValue_eq_iff]
  constructor
  · intro h
    cases h with
    | unwritable hv hresolves hw hcannot => exact ⟨rfl, _, _, rfl, hv, hresolves, hw, hcannot⟩
  · rintro ⟨rfl, v, w, rfl, hv, hresolves, hw, hcannot⟩
    exact .unwritable hv hresolves hw hcannot

theorem of_renderValue_eq_error {value : Option Value} {e : Error} (h : p.renderValue value = .error e) :
    (∃ accessor, e = .unknownAccessor p.name accessor) ∨ ∃ fault, e = .format p.literal fault := by
  cases renderValue_eq_iff.1 h with
  | unknown => exact .inl ⟨_, rfl⟩
  | unwritable => exact .inr ⟨_, rfl⟩

/-! ## Placeholders that hold their text -/

namespace Written

theorem resolves_plain_iff {q : Written} : q.plain.Resolves v w ↔
    (q.accessor = none ∧ w = v) ∨ ∃ accessor, q.accessor = some accessor ∧ v.Gives accessor w := by
  constructor
  · rintro (haccessor | ⟨haccessor, hgives⟩)
    · exact .inl ⟨haccessor, rfl⟩
    · exact .inr ⟨_, haccessor, hgives⟩
  · rintro (⟨haccessor, rfl⟩ | ⟨accessor, haccessor, hgives⟩)
    · exact .whole haccessor
    · exact .behind haccessor hgives

theorem cannotWrite_plain_iff {q : Written} {fault : FormatFault} : q.plain.CannotWrite w fault ↔
    (q.width = none ∧ w.pathText? = none ∧ fault = .noPathText w.kind) ∨
      (q.width ≠ none ∧ w.asInteger? = none ∧ fault = .needsInteger w.kind) := by
  have hpadded : q.width ≠ none ↔ 0 < q.plain.zeros := by
    rw [Nat.pos_iff_ne_zero, Ne, Ne, zeros_plain]
  rw [hpadded, ← zeros_plain]
  constructor
  · rintro (⟨hzeros, htext⟩ | ⟨hzeros, hn⟩)
    · exact .inl ⟨hzeros, htext, rfl⟩
    · exact .inr ⟨hzeros, hn, rfl⟩
  · rintro (⟨hzeros, htext, rfl⟩ | ⟨hzeros, hn, rfl⟩)
    · exact .plain hzeros htext
    · exact .padded hzeros hn

variable {q : Written} {value : Option Value}

/-- The text that is held stands in the errors of a value without a text, and nowhere else. -/
theorem renderValue_eq_iff_of_ne_format {r : Except Error (Option String)}
    (hr : ∀ literal fault, r ≠ .error (.format literal fault)) :
    q.renderValue value = r ↔ q.plain.renderValue value = r := by
  rw [renderValue_eq]
  cases hplain : q.plain.renderValue value with
  | ok text? => rfl
  | error e =>
    rcases Placeholder.of_renderValue_eq_error hplain with ⟨accessor, rfl⟩ | ⟨fault, rfl⟩
    · rfl
    · exact iff_of_false (fun h => hr _ _ h.symm) fun h => hr _ _ h.symm

theorem renderValue_eq_ok_none_iff :
    q.renderValue value = .ok none ↔
      value = none ∨ value = some .null ∨
        ∃ v accessor, value = some v ∧ q.accessor = some accessor ∧ v.Gives accessor .null := by
  rw [renderValue_eq_iff_of_ne_format (by simp), Placeholder.renderValue_eq_ok_none_iff]
  rfl

theorem renderValue_eq_unknownAccessor_iff {name accessor : String} :
    q.renderValue value = .error (.unknownAccessor name accessor) ↔
      name = q.name ∧ q.accessor = some accessor ∧
        ∃ v, value = some v ∧ v ≠ .null ∧ ∀ w, ¬ v.Gives accessor w := by
  rw [renderValue_eq_iff_of_ne_format (by simp), Placeholder.renderValue_eq_unknownAccessor_iff]
  rfl

theorem renderValue_eq_format_iff {literal : String} {fault : FormatFault} :
    q.renderValue value = .error (.format literal fault) ↔
      literal = q.literal ∧ ∃ v w, value = some v ∧ v ≠ .null ∧
        ((q.accessor = none ∧ w = v) ∨ ∃ accessor, q.accessor = some accessor ∧ v.Gives accessor w) ∧
        w ≠ .null ∧
        ((q.width = none ∧ w.pathText? = none ∧ fault = .noPathText w.kind) ∨
          (q.width ≠ none ∧ w.asInteger? = none ∧ fault = .needsInteger w.kind)) := by
  have hplain : q.renderValue value = .error (.format literal fault) ↔
      literal = q.literal ∧ q.plain.renderValue value = .error (.format q.plain.literal fault) := by
    rw [renderValue_eq]
    cases hrender : q.plain.renderValue value with
    | ok text? => simp [Except.mapError]
    | error e =>
      rcases Placeholder.of_renderValue_eq_error hrender with ⟨accessor, rfl⟩ | ⟨fault', rfl⟩
      · simp [Except.mapError, relabel]
      · simp [Except.mapError, relabel, eq_comm]
  rw [hplain, Placeholder.renderValue_eq_format_iff]
  simp only [resolves_plain_iff, cannotWrite_plain_iff, true_and]

theorem of_renderValue_eq_error {e : Error} (h : q.renderValue value = .error e) :
    (∃ accessor, e = .unknownAccessor q.name accessor) ∨ ∃ fault, e = .format q.literal fault := by
  rw [renderValue_eq] at h
  cases hplain : q.plain.renderValue value with
  | ok text? =>
    rw [hplain] at h
    cases h
  | error e' =>
    rw [hplain] at h
    obtain rfl := Except.error.inj h
    rcases Placeholder.of_renderValue_eq_error hplain with ⟨accessor, rfl⟩ | ⟨fault, rfl⟩
    · exact .inl ⟨accessor, rfl⟩
    · exact .inr ⟨fault, rfl⟩

end Written

/-! ## Top theorem -/

/-- A filling has a text exactly if each placeholder has one for its own value.  Otherwise it comes to
what the first of them gives that has none, whatever the path.  A placeholder is refused for no value,
for null and for an accessor that leads to null; it fails for an accessor that a value other than null
does not have, and for a resolved value without a text.  All of this holds too of placeholders that hold
their text, with any width and any text beside the other fields; those that hold the text that is written
for them fill a path alike. -/
theorem fillAll_decided (ps : List Placeholder) (b : Bindings) (path : String) :
    ((∃ s, fillAll ps b path = .ok (some s)) ↔
      ∀ p ∈ ps, ∃ text, p.renderValue (b.find? p.name) = .ok (some text)) ∧
    (∀ k r, (hk : k < ps.length) → (∀ text, r ≠ .ok (some text)) →
      (∀ i, (hi : i < k) → ∃ text, ps[i].renderValue (b.find? ps[i].name) = .ok (some text)) →
      ps[k].renderValue (b.find? ps[k].name) = r → fillAll ps b path = r) ∧
    (∀ (p : Placeholder) (value : Option Value),
      (p.renderValue value = .ok none ↔
        value = none ∨ value = some .null ∨
          ∃ v accessor, value = some v ∧ p.accessor = some accessor ∧ v.Gives accessor .null) ∧
      (∀ name accessor, p.renderValue value = .error (.unknownAccessor name accessor) ↔
        name = p.name ∧ p.accessor = some accessor ∧
          ∃ v, value = some v ∧ v ≠ .null ∧ ∀ w, ¬ v.Gives accessor w) ∧
      (∀ literal fault, p.renderValue value = .error (.format literal fault) ↔
        literal = p.literal ∧
          ∃ v w, value = some v ∧ v ≠ .null ∧ p.Resolves v w ∧ w ≠ .null ∧ p.CannotWrite w fault) ∧
      ∀ e, p.renderValue value = .error e →
        (∃ accessor, e = .unknownAccessor p.name accessor) ∨ ∃ fault, e = .format p.literal fault) ∧
    Written.fillAll (ps.map .of) b path = fillAll ps b path ∧
    (∀ qs : List Written,
      ((∃ s, Written.fillAll qs b path = .ok (some s)) ↔
        ∀ q ∈ qs, ∃ text, q.renderValue (b.find? q.name) = .ok (some text)) ∧
      ∀ before q after r, qs = before ++ q :: after → (∀ text, r ≠ .ok (some text)) →
        (∀ q' ∈ before, ∃ text, q'.renderValue (b.find? q'.name) = .ok (some text)) →
        q.renderValue (b.find? q.name) = r → Written.fillAll qs b path = r) ∧
    ∀ (q : Written) (value : Option Value),
      (q.renderValue value = .ok none ↔
        value = none ∨ value = some .null ∨
          ∃ v accessor, value = some v ∧ q.accessor = some accessor ∧ v.Gives accessor .null) ∧
      (∀ name accessor, q.renderValue value = .error (.unknownAccessor name accessor) ↔
        name = q.name ∧ q.accessor = some accessor ∧
          ∃ v, value = some v ∧ v ≠ .null ∧ ∀ w, ¬ v.Gives accessor w) ∧
      (∀ literal fault, q.renderValue value = .error (.format literal fault) ↔
        literal = q.literal ∧ ∃ v w, value = some v ∧ v ≠ .null ∧
          ((q.accessor = none ∧ w = v) ∨ ∃ accessor, q.accessor = some accessor ∧ v.Gives accessor w) ∧
          w ≠ .null ∧
          ((q.width = none ∧ w.pathText? = none ∧ fault = .noPathText w.kind) ∨
            (q.width ≠ none ∧ w.asInteger? = none ∧ fault = .needsInteger w.kind))) ∧
      ∀ e, q.renderValue value = .error e →
        (∃ accessor, e = .unknownAccessor q.name accessor) ∨ ∃ fault, e = .format q.literal fault := by
  refine ⟨?_, fun k r hk hr hbefore hfirst => ?_, fun p value =>
    ⟨renderValue_eq_ok_none_iff, fun name accessor => renderValue_eq_unknownAccessor_iff,
      fun literal fault => renderValue_eq_format_iff, fun e he => of_renderValue_eq_error he⟩,
    Written.fillAll_map_of ps b path,
    fun qs => ⟨Written.exists_fillAll_iff, fun before q after r hqs hr hbefore hfirst =>
      hqs ▸ Written.fillAll_of_first after hr hbefore hfirst⟩, fun q value =>
    ⟨Written.renderValue_eq_ok_none_iff, fun name accessor => Written.renderValue_eq_unknownAccessor_iff,
      fun literal fault => Written.renderValue_eq_format_iff,
      fun e he => Written.of_renderValue_eq_error he⟩⟩
  · simp only [fillAll_eq_ok_some_iff, exists_and_left]
    exact and_iff_left ⟨String.ofList (filled b ps path.toList), String.toList_ofList⟩
  · refine (fillAll_eq_iff hr).2 ⟨ps.take k, ps[k], ps.drop (k + 1), by simp, fun q hq => ?_, hfirst⟩
    obtain ⟨i, hi, rfl⟩ := List.mem_take_iff_getElem.1 hq
    exact hbefore i (Nat.lt_of_lt_of_le hi (Nat.min_le_left _ _))

end Placeholder

end Stencil
