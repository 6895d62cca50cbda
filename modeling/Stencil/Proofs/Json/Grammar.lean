import Stencil.Proofs.Json.NumberText
import Stencil.Proofs.Json.Parts
import Stencil.Proofs.Json.StringText
/-!
# The grammar of JSON text

Which texts spell which data: values with blanks around them, items and members between commas, members
in the order of the text and with repetitions.

    Spells j cs → Spaces w → Spells j (w ++ cs)
    Spells raw cs → raw.sorted.WellFormed
-/

namespace Stencil.Json

/-! ## Grammar -/

/-- Nothing but the four blanks of JSON. -/
def Spaces (cs : List Char) : Prop := ∀ c ∈ cs, isSpace c = true

mutual

/-- The text of data without blanks around it. -/
inductive SpellsBare : Json → List Char → Prop where
  | null : SpellsBare .null "null".toList
  | bool (b : Bool) : SpellsBare (.bool b) (if b then "true" else "false").toList
  | integer {n : Int} {cs : List Char} : NumberText (.integer n) cs → SpellsBare (.integer n) cs
  | float {x : Binary64} {cs : List Char} : NumberText (.float x) cs → SpellsBare (.float x) cs
  | string {s : String} {body : List Char} : StringText s.toList body →
    SpellsBare (.string s) ('"' :: (body ++ ['"']))
  | array {items : List Json} {body : List Char} : SpellsItems items body →
    SpellsBare (.array items) ('[' :: (body ++ [']']))
  | object {members : List (String × Json)} {body : List Char} : SpellsMembers members body →
    SpellsBare (.object members) ('{' :: (body ++ ['}']))

/-- The text of data: a JSON text. -/
inductive Spells : Json → List Char → Prop where
  | intro {j : Json} {w cs w' : List Char} : Spaces w → SpellsBare j cs → Spaces w' →
    Spells j (w ++ (cs ++ w'))

/-- Items with commas between them. -/
inductive SpellsItems : List Json → List Char → Prop where
  | none {w : List Char} : Spaces w → SpellsItems [] w
  | last {j : Json} {cs : List Char} : Spells j cs → SpellsItems [j] cs
  | more {j : Json} {items : List Json} {cs rest : List Char} : Spells j cs → items ≠ [] →
    SpellsItems items rest → SpellsItems (j :: items) (cs ++ ',' :: rest)

/-- A key, a colon and the data under the key. -/
inductive SpellsMember : String × Json → List Char → Prop where
  | intro {key : String} {j : Json} {w name w' cs : List Char} : Spaces w →
    StringText key.toList name → Spaces w' → Spells j cs →
    SpellsMember (key, j) (w ++ '"' :: (name ++ '"' :: (w' ++ ':' :: cs)))

/-- Members with commas between them. -/
inductive SpellsMembers : List (String × Json) → List Char → Prop where
  | none {w : List Char} : Spaces w → SpellsMembers [] w
  | last {member : String × Json} {cs : List Char} : SpellsMember member cs → SpellsMembers [member] cs
  | more {member : String × Json} {members : List (String × Json)} {cs rest : List Char} :
    SpellsMember member cs → members ≠ [] → SpellsMembers members rest →
    SpellsMembers (member :: members) (cs ++ ',' :: rest)

end

/-! ## Blanks -/

theorem spaces_nil : Spaces [] := by simp [Spaces]

theorem Spaces.append {w w' : List Char} (hw : Spaces w) (hw' : Spaces w') : Spaces (w ++ w') :=
  fun c hc => (List.mem_append.1 hc).elim (hw c) (hw' c)

/-- What comes next is no blank. -/
def StartsTight (cs : List Char) : Prop := ∀ c, cs.head? = some c → isSpace c = false

theorem startsTight_cons {c : Char} {cs : List Char} (h : isSpace c = false) : StartsTight (c :: cs) := by
  intro d hd
  obtain rfl := Option.some.inj hd
  exact h

theorem skipSpace_of_startsTight {cs : List Char} (h : StartsTight cs) : skipSpace cs = cs :=
  Text.dropWhile_eq_self h

theorem skipSpace_append {w cs : List Char} (hw : Spaces w) (h : StartsTight cs) :
    skipSpace (w ++ cs) = cs := by
  rw [skipSpace, List.dropWhile_append_of_pos hw]
  exact skipSpace_of_startsTight h

theorem exists_spaces_skipSpace (cs : List Char) : ∃ w, Spaces w ∧ cs = w ++ skipSpace cs :=
  ⟨cs.takeWhile isSpace, fun _ hc => List.mem_takeWhile_imp hc, List.takeWhile_append_dropWhile.symm⟩

theorem stops_spaces_append {w more : List Char} (hw : Spaces w) (hmore : Stops more) :
    Stops (w ++ more) := by
  cases w with
  | nil => exact hmore
  | cons c w =>
    have hc := hw c List.mem_cons_self
    simp only [isSpace, Bool.or_eq_true, beq_iff_eq] at hc
    rcases hc with ((rfl | rfl) | rfl) | rfl <;>
      exact stops_cons (by decide) (by decide) (by decide) (by decide)

theorem Spaces.stops {w : List Char} (hw : Spaces w) : Stops w := by
  have := stops_spaces_append hw stops_nil
  rwa [List.append_nil] at this

/-! ## First characters -/

theorem isBlank_of_isSpace {c : Char} (h : isSpace c = true) : Text.isBlank c = true := by
  simp only [isSpace, Bool.or_eq_true, beq_iff_eq] at h
  rcases h with ((rfl | rfl) | rfl) | rfl <;> decide

theorem not_isSpace_of_not_isBlank {c : Char} (h : Text.isBlank c = false) : isSpace c = false := by
  refine Bool.eq_false_iff.2 fun hspace => ?_
  rw [isBlank_of_isSpace hspace] at h
  cases h

theorem NumberText.head_not_blank {j : Json} {cs : List Char} (h : NumberText j cs) :
    ∃ c rest, cs = c :: rest ∧ Text.isBlank c = false ∧ c ≠ ']' := by
  obtain ⟨c, rest, rfl, hc⟩ := h.exists_head
  rcases hc with rfl | hc
  · exact ⟨_, rest, rfl, by decide, by decide⟩
  · refine ⟨c, rest, rfl, Decimal.not_blank_of_isDigit hc, ?_⟩
    rintro rfl
    revert hc
    decide

theorem SpellsBare.head_not_blank {j : Json} {cs : List Char} (h : SpellsBare j cs) :
    ∃ c rest, cs = c :: rest ∧ Text.isBlank c = false ∧ c ≠ ']' := by
  cases h with
  | null => exact ⟨'n', _, rfl, by decide, by decide⟩
  | bool b =>
    cases b with
    | true => exact ⟨'t', _, rfl, by decide, by decide⟩
    | false => exact ⟨'f', _, rfl, by decide, by decide⟩
  | integer hn => exact hn.head_not_blank
  | float hn => exact hn.head_not_blank
  | string => exact ⟨'"', _, rfl, by decide, by decide⟩
  | array => exact ⟨'[', _, rfl, by decide, by decide⟩
  | object => exact ⟨'{', _, rfl, by decide, by decide⟩

theorem SpellsBare.startsTight {j : Json} {cs : List Char} (h : SpellsBare j cs) (more : List Char) :
    StartsTight (cs ++ more) := by
  obtain ⟨c, rest, rfl, hc, -⟩ := h.head_not_blank
  exact startsTight_cons (not_isSpace_of_not_isBlank hc)

theorem SpellsBare.length_pos {j : Json} {cs : List Char} (h : SpellsBare j cs) : 0 < cs.length := by
  obtain ⟨c, rest, rfl, -⟩ := h.head_not_blank
  exact Nat.zero_lt_succ _

theorem Spells.length_pos {j : Json} {cs : List Char} (h : Spells j cs) : 0 < cs.length := by
  cases h with
  | intro _ hj _ =>
    have := hj.length_pos
    simp only [List.length_append]
    omega

theorem Spells.head_skipSpace {j : Json} {cs : List Char} (h : Spells j cs) (more : List Char) :
    ∃ c rest, skipSpace (cs ++ more) = c :: rest ∧ c ≠ ']' := by
  cases h with
  | intro hw hbare hw' =>
    rw [List.append_assoc, List.append_assoc, skipSpace_append hw (hbare.startsTight _)]
    obtain ⟨c, rest, rfl, -, hc⟩ := hbare.head_not_blank
    exact ⟨c, _, rfl, hc⟩

theorem SpellsItems.head_skipSpace {items : List Json} {body : List Char} (h : SpellsItems items body)
    (hne : items ≠ []) (more : List Char) : ∃ c rest, skipSpace (body ++ more) = c :: rest ∧ c ≠ ']' := by
  cases h with
  | none => exact absurd rfl hne
  | last hj => exact hj.head_skipSpace more
  | more hj =>
    rw [List.append_assoc]
    exact hj.head_skipSpace _

theorem SpellsMember.head_skipSpace {member : String × Json} {cs : List Char}
    (h : SpellsMember member cs) (more : List Char) : ∃ rest, skipSpace (cs ++ more) = '"' :: rest := by
  cases h with
  | intro hw =>
    rw [List.append_assoc, List.cons_append, skipSpace_append hw (startsTight_cons (by decide))]
    exact ⟨_, rfl⟩

theorem SpellsMembers.head_skipSpace {members : List (String × Json)} {body : List Char}
    (h : SpellsMembers members body) (hne : members ≠ []) (more : List Char) :
    ∃ rest, skipSpace (body ++ more) = '"' :: rest := by
  cases h with
  | none => exact absurd rfl hne
  | last hmember => exact hmember.head_skipSpace more
  | more hmember =>
    rw [List.append_assoc]
    exact hmember.head_skipSpace _

theorem SpellsMember.one_lt_length {member : String × Json} {cs : List Char}
    (h : SpellsMember member cs) : 1 < cs.length := by
  cases h
  simp only [List.length_append, List.length_cons]
  omega

/-! ## More blanks -/

theorem Spells.of_bare {j : Json} {cs : List Char} (h : SpellsBare j cs) : Spells j cs := by
  have := Spells.intro spaces_nil h spaces_nil
  rwa [List.append_nil] at this

theorem Spells.exists_bare {j : Json} {cs : List Char} (h : Spells j cs) : ∃ cs', SpellsBare j cs' := by
  cases h with
  | intro _ hj _ => exact ⟨_, hj⟩

theorem SpellsMember.exists_bare {member : String × Json} {cs : List Char}
    (h : SpellsMember member cs) : ∃ cs', SpellsBare member.2 cs' := by
  cases h with
  | intro _ _ _ hj => exact hj.exists_bare

section
variable {w cs : List Char}

theorem Spells.space_append {j : Json} (hw : Spaces w) (h : Spells j cs) : Spells j (w ++ cs) := by
  cases h with
  | intro hv hj hv' =>
    rw [← List.append_assoc]
    exact .intro (hw.append hv) hj hv'

theorem Spells.append_space {j : Json} (h : Spells j cs) (hw : Spaces w) : Spells j (cs ++ w) := by
  cases h with
  | intro hv hj hv' =>
    rw [List.append_assoc, List.append_assoc]
    exact .intro hv hj (hv'.append hw)

theorem SpellsItems.space_append {items : List Json} (hw : Spaces w) (h : SpellsItems items cs) :
    SpellsItems items (w ++ cs) := by
  cases h with
  | none hv => exact .none (hw.append hv)
  | last hj => exact .last (hj.space_append hw)
  | more hj hne hmore =>
    rw [← List.append_assoc]
    exact .more (hj.space_append hw) hne hmore

theorem SpellsMember.space_append {member : String × Json} (hw : Spaces w) (h : SpellsMember member cs) :
    SpellsMember member (w ++ cs) := by
  cases h with
  | intro hv hname hv' hj =>
    rw [← List.append_assoc]
    exact .intro (hw.append hv) hname hv' hj

theorem SpellsMembers.space_append {members : List (String × Json)} (hw : Spaces w)
    (h : SpellsMembers members cs) : SpellsMembers members (w ++ cs) := by
  cases h with
  | none hv => exact .none (hw.append hv)
  | last hmember => exact .last (hmember.space_append hw)
  | more hmember hne hmore =>
    rw [← List.append_assoc]
    exact .more (hmember.space_append hw) hne hmore

end

/-! ## Parts of what is spelled -/

theorem SpellsItems.exists_of_mem {items : List Json} {body : List Char} (h : SpellsItems items body)
    {item : Json} (hmem : item ∈ items) : ∃ cs, SpellsBare item cs := by
  induction items generalizing body with
  | nil => exact absurd hmem List.not_mem_nil
  | cons j items ih =>
    rcases List.mem_cons.1 hmem with rfl | hmem
    · cases h with
      | last hj => exact hj.exists_bare
      | more hj => exact hj.exists_bare
    · cases h with
      | last => exact absurd hmem List.not_mem_nil
      | more _ _ hmore => exact ih hmore hmem

theorem SpellsMembers.exists_of_mem {members : List (String × Json)} {body : List Char}
    (h : SpellsMembers members body) {member : String × Json} (hmem : member ∈ members) :
    ∃ cs, SpellsBare member.2 cs := by
  induction members generalizing body with
  | nil => exact absurd hmem List.not_mem_nil
  | cons first members ih =>
    rcases List.mem_cons.1 hmem with rfl | hmem
    · cases h with
      | last hmember => exact hmember.exists_bare
      | more hmember => exact hmember.exists_bare
    · cases h with
      | last => exact absurd hmem List.not_mem_nil
      | more _ _ hmore => exact ih hmore hmem

theorem SpellsBare.exists_of_inside {part j : Json} {cs : List Char} (h : SpellsBare j cs)
    (hin : Inside part j) : ∃ cs', SpellsBare part cs' := by
  induction hin generalizing cs with
  | here => exact ⟨cs, h⟩
  | item hmem _ ih =>
    cases h with
    | array hbody =>
      obtain ⟨cs', h'⟩ := hbody.exists_of_mem hmem
      exact ih h'
  | member _ hmem _ ih =>
    cases h with
    | object hbody =>
      obtain ⟨cs', h'⟩ := hbody.exists_of_mem hmem
      exact ih h'

/-- Data that can be spelled is, with its keys sorted, as a reader gives it. -/
theorem Spells.wellFormed_sorted {raw : Json} {cs : List Char} (h : Spells raw cs) :
    raw.sorted.WellFormed := by
  obtain ⟨cs', hbare⟩ := h.exists_bare
  refine ⟨fun {n} hin => ?_, pairwise_of_inside_sorted⟩
  obtain ⟨part, hpart, hsorted⟩ := exists_of_inside_sorted hin
  cases part with
  | integer m =>
    obtain rfl := Json.integer.inj hsorted
    obtain ⟨text, htext⟩ := hbare.exists_of_inside hpart
    cases htext with
    | integer hn =>
      rcases hn.cases with ⟨k, hk, hbounds⟩ | ⟨x, hx⟩
      · obtain rfl := Json.integer.inj hk
        exact hbounds
      · cases hx
  | array items =>
    rw [sorted_array] at hsorted
    cases hsorted
  | object members =>
    rw [sorted_object] at hsorted
    cases hsorted
  | _ => cases hsorted

end Stencil.Json
