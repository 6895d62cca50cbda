import Stencil.Proofs.Json.Grammar
/-!
# The reader and the grammar

The reader takes exactly the texts that spell data nested no deeper than it goes, and gives this data with
the keys of every object sorted; of an object as a whole it gives the members in the order of the text.
Both directions follow the reader part by part: what is spelled is read back wherever it stands in a text,
given two steps for every character of it, and what is read in a number of steps has been spelled.

    read? text = some j ↔ ∃ raw, Spells raw text.toList ∧ raw.depth ≤ maxDepth ∧ raw.sorted = j
    readObject? text = some members ↔ ∃ raw, Spells (.object raw) text.toList ∧
      (Json.object raw).depth ≤ maxDepth ∧ sortedMembers raw = members
-/

namespace Stencil.Json

open Decimal (isDigit)

/-! ## Equations of the reader -/

section
variable {fuel depth : Nat} {cs : List Char}

theorem readValue_of_number {c : Char} (h : c = '-' ∨ isDigit c = true) :
    readValue (fuel + 1) depth (c :: cs) = readNumber (c :: cs) := by
  rw [readValue]
  all_goals
    rintro cs' hcs
    obtain ⟨rfl, -⟩ := List.cons.inj hcs
    revert h
    decide

theorem readValue_array : readValue (fuel + 1) (depth + 1) ('[' :: cs) =
    (readItems fuel depth true (skipSpace cs)).map fun (items, cs) => (.array items, cs) := by
  rw [readValue, if_neg depth.succ_ne_zero, Nat.add_sub_cancel]

theorem readValue_object : readValue (fuel + 1) (depth + 1) ('{' :: cs) =
    (readMembers fuel depth true (skipSpace cs)).map fun (members, cs) =>
      (sortedObject members, cs) := by
  rw [readValue, if_neg depth.succ_ne_zero, Nat.add_sub_cancel]

/-- An item and those after it. -/
def readElements (fuel depth : Nat) (cs : List Char) : Option (List Json × List Char) := do
  let (item, cs) ← readValue fuel depth cs
  let (items, cs) ← readItems fuel depth false (skipSpace cs)
  return (item :: items, cs)

theorem readItems_close (first : Bool) : readItems (fuel + 1) depth first (']' :: cs) = some ([], cs) := by
  rw [readItems]

theorem readItems_comma :
    readItems (fuel + 1) depth false (',' :: cs) = readElements fuel depth (skipSpace cs) := by
  rw [readItems]
  rfl

theorem readItems_first {c : Char} (h : c ≠ ']') :
    readItems (fuel + 1) depth true (c :: cs) = readElements fuel depth (c :: cs) := by
  rw [readItems]
  · rfl
  · exact List.cons_ne_nil c cs
  · rintro cs' hcs
    exact h (List.cons.inj hcs).1

theorem readMembers_close (first : Bool) :
    readMembers (fuel + 1) depth first ('}' :: cs) = some ([], cs) := by
  rw [readMembers]

theorem readMembers_comma :
    readMembers (fuel + 1) depth false (',' :: cs) = readMember fuel depth (skipSpace cs) := by
  rw [readMembers]

theorem readMembers_first {c : Char} (h : c ≠ '}') :
    readMembers (fuel + 1) depth true (c :: cs) = readMember fuel depth (c :: cs) := by
  rw [readMembers]
  · exact List.cons_ne_nil c cs
  · rintro cs' hcs
    exact h (List.cons.inj hcs).1

theorem readMember_quote {key : String} {name w more : List Char} (hname : StringText key.toList name)
    (hw : Spaces w) : readMember (fuel + 1) depth ('"' :: (name ++ '"' :: (w ++ ':' :: more))) =
      (readValue fuel depth (skipSpace more)).bind fun (value, cs) =>
        (readMembers fuel depth false (skipSpace cs)).bind fun (members, cs) =>
          some ((key, value) :: members, cs) := by
  rw [readMember, readString_append hname]
  have hskip : skipSpace (w ++ ':' :: more) = ':' :: more :=
    skipSpace_append hw (startsTight_cons (by decide))
  simp only [Option.bind_eq_bind, Option.bind_some, hskip]
  rfl

end

/-! ## Reading what is spelled -/

/-- The reader gives the data back, sorted, wherever its text stands. -/
structure ReadsBack (j : Json) : Prop where
  read : ∀ {cs rest : List Char} {fuel d : Nat}, SpellsBare j cs → 2 * cs.length ≤ fuel → j.depth ≤ d →
    Stops rest → readValue fuel d (cs ++ rest) = some (j.sorted, rest)

/-- What ends an item or a member. -/
def Mark (c : Char) : Prop := c = ',' ∨ c = ']' ∨ c = '}'

theorem Mark.stops {c : Char} (h : Mark c) (rest : List Char) : Stops (c :: rest) := by
  rcases h with rfl | rfl | rfl <;> exact stops_cons (by decide) (by decide) (by decide) (by decide)

theorem Mark.startsTight {c : Char} (h : Mark c) (rest : List Char) : StartsTight (c :: rest) := by
  rcases h with rfl | rfl | rfl <;> exact startsTight_cons (by decide)

section
variable {cs : List Char} {c : Char} {fuel d : Nat}

/-- The blanks on both sides of data are skipped. -/
theorem ReadsBack.skip {j : Json} (h : ReadsBack j) (hcs : Spells j cs) (hfuel : 2 * cs.length ≤ fuel)
    (hdepth : j.depth ≤ d) {rest : List Char} (hrest : Stops rest) :
    ∃ w, Spaces w ∧ readValue fuel d (skipSpace (cs ++ rest)) = some (j.sorted, w ++ rest) := by
  cases hcs with
  | @intro _ w cs w' hw hbare hw' =>
    refine ⟨w', hw', ?_⟩
    rw [List.append_assoc, List.append_assoc, skipSpace_append hw (hbare.startsTight _)]
    simp only [List.length_append] at hfuel
    exact h.read hbare (by omega) hdepth (stops_spaces_append hw' hrest)

/-- An item is read up to the mark after it. -/
theorem readElements_item {j : Json} (h : ReadsBack j) (hcs : Spells j cs) (hfuel : 2 * cs.length ≤ fuel)
    (hdepth : j.depth ≤ d) (hc : Mark c) (rest : List Char) :
    readElements fuel d (skipSpace (cs ++ c :: rest)) =
      (readItems fuel d false (c :: rest)).bind fun (items, cs) => some (j.sorted :: items, cs) := by
  obtain ⟨w, hw, hread⟩ := h.skip hcs hfuel hdepth (hc.stops rest)
  rw [readElements, hread]
  show (readItems fuel d false (skipSpace (w ++ c :: rest))).bind _ = _
  rw [skipSpace_append hw (hc.startsTight rest)]
  rfl

theorem readElements_append {items : List Json} {body : List Char}
    (hitems : ∀ item ∈ items, ReadsBack item) (hne : items ≠ []) (hbody : SpellsItems items body)
    (hfuel : 2 * body.length ≤ fuel) (hdepth : ∀ item ∈ items, item.depth ≤ d) (rest : List Char) :
    readElements fuel d (skipSpace (body ++ ']' :: rest)) = some (items.map sorted, rest) := by
  induction items generalizing body fuel with
  | nil => exact absurd rfl hne
  | cons j items ih =>
    rw [List.forall_mem_cons] at hitems hdepth
    cases hbody with
    | last hj =>
      have hpos := hj.length_pos
      obtain ⟨fuel, rfl⟩ : ∃ f, fuel = f + 1 := Nat.exists_eq_add_one_of_ne_zero (by omega)
      rw [readElements_item hitems.1 hj hfuel hdepth.1 (.inr (.inl rfl)), readItems_close]
      rfl
    | @more _ _ cs more hj hmore hspelled =>
      -- the comma pays for the step that goes on to the next item
      rw [List.length_append, List.length_cons] at hfuel
      obtain ⟨fuel, rfl⟩ : ∃ f, fuel = f + 1 := Nat.exists_eq_add_one_of_ne_zero (by omega)
      rw [List.append_assoc, List.cons_append,
        readElements_item hitems.1 hj (by omega) hdepth.1 (.inl rfl), readItems_comma,
        ih hitems.2 hmore hspelled (by omega) hdepth.2]
      rfl

/-- A member is read up to the mark after it. -/
theorem readMember_member {member : String × Json} (h : ReadsBack member.2)
    (hcs : SpellsMember member cs) (hfuel : 2 * cs.length ≤ fuel + 1) (hdepth : member.2.depth ≤ d)
    (hc : Mark c) (rest : List Char) :
    readMember (fuel + 1) d (skipSpace (cs ++ c :: rest)) =
      (readMembers fuel d false (c :: rest)).bind fun (members, cs) =>
        some ((member.1, member.2.sorted) :: members, cs) := by
  cases hcs with
  | @intro key j w name w' cs hw hname hw' hj =>
    simp only [List.length_append, List.length_cons] at hfuel
    have hshort : 2 * cs.length ≤ fuel := by omega
    obtain ⟨v, hv, hread⟩ := h.skip hj hshort hdepth (hc.stops rest)
    have hsplit : w ++ '"' :: (name ++ '"' :: (w' ++ ':' :: cs)) ++ c :: rest =
      w ++ '"' :: (name ++ '"' :: (w' ++ ':' :: (cs ++ c :: rest))) := by simp
    rw [hsplit, skipSpace_append hw (startsTight_cons (by decide)), readMember_quote hname hw', hread]
    show (readMembers fuel d false (skipSpace (v ++ c :: rest))).bind _ = _
    rw [skipSpace_append hv (hc.startsTight rest)]

theorem readMember_append {members : List (String × Json)} {body : List Char}
    (hmembers : ∀ member ∈ members, ReadsBack member.2) (hne : members ≠ [])
    (hbody : SpellsMembers members body) (hfuel : 2 * body.length ≤ fuel)
    (hdepth : ∀ member ∈ members, member.2.depth ≤ d) (rest : List Char) :
    readMember fuel d (skipSpace (body ++ '}' :: rest)) = some (sortedMembers members, rest) := by
  induction members generalizing body fuel with
  | nil => exact absurd rfl hne
  | cons member members ih =>
    rw [List.forall_mem_cons] at hmembers hdepth
    cases hbody with
    | last hmember =>
      have hlong := hmember.one_lt_length
      obtain ⟨fuel, rfl⟩ : ∃ f, fuel = f + 1 + 1 := ⟨fuel - 2, by omega⟩
      rw [readMember_member hmembers.1 hmember (by omega) hdepth.1 (.inr (.inr rfl)), readMembers_close]
      rfl
    | @more _ _ text more hmember hmore hspelled =>
      have hlong := hmember.one_lt_length
      rw [List.length_append, List.length_cons] at hfuel
      obtain ⟨fuel, rfl⟩ : ∃ f, fuel = f + 1 + 1 := ⟨fuel - 2, by omega⟩
      rw [List.append_assoc, List.cons_append,
        readMember_member hmembers.1 hmember (by omega) hdepth.1 (.inl rfl), readMembers_comma,
        ih hmembers.2 hmore hspelled (by omega) hdepth.2]
      rfl

theorem readItems_append {items : List Json} {body : List Char}
    (hitems : ∀ item ∈ items, ReadsBack item) (hbody : SpellsItems items body)
    (hfuel : 2 * body.length + 1 ≤ fuel) (hdepth : ∀ item ∈ items, item.depth ≤ d) (rest : List Char) :
    readItems fuel d true (skipSpace (body ++ ']' :: rest)) = some (items.map sorted, rest) := by
  obtain ⟨fuel, rfl⟩ : ∃ f, fuel = f + 1 := Nat.exists_eq_add_one_of_ne_zero (by omega)
  by_cases hne : items = []
  · subst hne
    cases hbody with
    | none hw =>
      rw [skipSpace_append hw (startsTight_cons (by decide)), readItems_close]
      rfl
  · obtain ⟨c, cs, hcs, hc⟩ := hbody.head_skipSpace hne (']' :: rest)
    have hread := readElements_append hitems hne hbody (Nat.le_of_succ_le_succ hfuel) hdepth rest
    rw [hcs] at hread ⊢
    rw [readItems_first hc, hread]

theorem readMembers_append {members : List (String × Json)} {body : List Char}
    (hmembers : ∀ member ∈ members, ReadsBack member.2) (hbody : SpellsMembers members body)
    (hfuel : 2 * body.length + 1 ≤ fuel) (hdepth : ∀ member ∈ members, member.2.depth ≤ d)
    (rest : List Char) :
    readMembers fuel d true (skipSpace (body ++ '}' :: rest)) = some (sortedMembers members, rest) := by
  obtain ⟨fuel, rfl⟩ : ∃ f, fuel = f + 1 := Nat.exists_eq_add_one_of_ne_zero (by omega)
  by_cases hne : members = []
  · subst hne
    cases hbody with
    | none hw =>
      rw [skipSpace_append hw (startsTight_cons (by decide)), readMembers_close]
      rfl
  · obtain ⟨cs, hcs⟩ := hbody.head_skipSpace hne ('}' :: rest)
    have hread := readMember_append hmembers hne hbody (Nat.le_of_succ_le_succ hfuel) hdepth rest
    rw [hcs] at hread ⊢
    rw [readMembers_first (by decide), hread]

end

/-- Some step is left for the first character. -/
theorem ReadsBack.of_step {j : Json}
    (h : ∀ {cs rest : List Char} {fuel d : Nat}, SpellsBare j cs → 2 * cs.length ≤ fuel + 1 →
      j.depth ≤ d → Stops rest → readValue (fuel + 1) d (cs ++ rest) = some (j.sorted, rest)) :
    ReadsBack j := by
  constructor
  intro cs rest fuel d hspelled hfuel
  have hpos := hspelled.length_pos
  obtain ⟨fuel, rfl⟩ : ∃ f, fuel = f + 1 := Nat.exists_eq_add_one_of_ne_zero (by omega)
  exact h hspelled hfuel

theorem NumberText.readValue_append {j : Json} {cs rest : List Char} {fuel d : Nat}
    (h : NumberText j cs) (hrest : Stops rest) :
    readValue (fuel + 1) d (cs ++ rest) = some (j, rest) := by
  obtain ⟨c, cs, rfl, hc⟩ := h.exists_head
  rw [List.cons_append, readValue_of_number hc, ← List.cons_append, readNumber_append h hrest]

/-- The text of data is read back when the data is nested no deeper than the reader goes. -/
theorem readsBack (j : Json) : ReadsBack j := by
  induction j using inductionOnParts with
  | null =>
    refine .of_step fun {cs rest fuel d} hspelled _ _ _ => ?_
    cases hspelled
    show readValue (fuel + 1) d ('n' :: ("ull".toList ++ rest)) = _
    rw [readValue]
    rfl
  | bool b =>
    refine .of_step fun {cs rest fuel d} hspelled _ _ _ => ?_
    cases hspelled
    cases b with
    | true =>
      show readValue (fuel + 1) d ('t' :: ("rue".toList ++ rest)) = _
      rw [readValue]
      rfl
    | false =>
      show readValue (fuel + 1) d ('f' :: ("alse".toList ++ rest)) = _
      rw [readValue]
      rfl
  | integer n =>
    refine .of_step fun hspelled _ _ hrest => ?_
    cases hspelled with
    | integer hn => exact hn.readValue_append hrest
  | float x =>
    refine .of_step fun hspelled _ _ hrest => ?_
    cases hspelled with
    | float hn => exact hn.readValue_append hrest
  | string s =>
    refine .of_step fun hspelled _ _ _ => ?_
    cases hspelled with
    | string hbody =>
      rw [List.cons_append, List.append_assoc, List.cons_append, List.nil_append, readValue,
        readString_append hbody]
      rfl
  | array items ih =>
    refine .of_step fun {cs rest fuel d} hspelled hfuel hdepth _ => ?_
    obtain ⟨d, rfl⟩ : ∃ d', d = d' + 1 :=
      Nat.exists_eq_add_one_of_ne_zero (Nat.ne_of_gt (Nat.lt_of_lt_of_le (Nat.succ_pos _) hdepth))
    cases hspelled with
    | array hbody =>
      simp only [List.length_cons, List.length_append, List.length_nil] at hfuel
      rw [List.cons_append, List.append_assoc, List.cons_append, List.nil_append,
        readValue_array, readItems_append ih hbody (by omega) (depth_array_le_iff.1 hdepth), sorted_array]
      rfl
  | object members ih =>
    refine .of_step fun {cs rest fuel d} hspelled hfuel hdepth _ => ?_
    obtain ⟨d, rfl⟩ : ∃ d', d = d' + 1 :=
      Nat.exists_eq_add_one_of_ne_zero (Nat.ne_of_gt (Nat.lt_of_lt_of_le (Nat.succ_pos _) hdepth))
    cases hspelled with
    | object hbody =>
      simp only [List.length_cons, List.length_append, List.length_nil] at hfuel
      rw [List.cons_append, List.append_assoc, List.cons_append, List.nil_append,
        readValue_object, readMembers_append ih hbody (by omega) (depth_object_le_iff.1 hdepth),
        sorted_object]
      rfl

/-! ## What is read is spelled -/

/-- `text` is that of data which is `j` when sorted and nested at most `d` deep. -/
def TextOf (d : Nat) (j : Json) (text : List Char) : Prop :=
  ∃ raw, SpellsBare raw text ∧ raw.sorted = j ∧ raw.depth ≤ d

/-- `cs` starts with the text of the items up to the bracket before `rest`. -/
def ItemsEnd (d : Nat) (items : List Json) (cs rest : List Char) : Prop :=
  ∃ raw body, SpellsItems raw body ∧ cs = body ++ ']' :: rest ∧ raw.map sorted = items ∧
    ∀ item ∈ raw, item.depth ≤ d

/-- `cs` starts with the text of the members up to the brace before `rest`. -/
def MembersEnd (d : Nat) (members : List (String × Json)) (cs rest : List Char) : Prop :=
  ∃ raw body, SpellsMembers raw body ∧ cs = body ++ '}' :: rest ∧ sortedMembers raw = members ∧
    ∀ member ∈ raw, member.2.depth ≤ d

/-- What the reader gives after a number of steps has been spelled. -/
structure Sound (fuel : Nat) : Prop where
  value : ∀ {d : Nat} {cs rest : List Char} {j : Json}, readValue fuel d cs = some (j, rest) →
    ∃ text, TextOf d j text ∧ cs = text ++ rest
  items : ∀ {d : Nat} {cs rest : List Char} {items : List Json},
    readItems fuel d true cs = some (items, rest) → ItemsEnd d items cs rest
  moreItems : ∀ {d : Nat} {cs rest : List Char} {items : List Json},
    readItems fuel d false cs = some (items, rest) →
      items = [] ∧ cs = ']' :: rest ∨ ∃ cs', cs = ',' :: cs' ∧ items ≠ [] ∧ ItemsEnd d items cs' rest
  members : ∀ {d : Nat} {cs rest : List Char} {members : List (String × Json)},
    readMembers fuel d true cs = some (members, rest) → MembersEnd d members cs rest
  moreMembers : ∀ {d : Nat} {cs rest : List Char} {members : List (String × Json)},
    readMembers fuel d false cs = some (members, rest) →
      members = [] ∧ cs = '}' :: rest ∨
        ∃ cs', cs = ',' :: cs' ∧ members ≠ [] ∧ MembersEnd d members cs' rest
  member : ∀ {d : Nat} {cs rest : List Char} {members : List (String × Json)},
    readMember fuel d cs = some (members, rest) → members ≠ [] ∧ MembersEnd d members cs rest

section
variable {fuel d : Nat} {cs rest : List Char}

theorem ItemsEnd.of_skipSpace {items : List Json} (h : ItemsEnd d items (skipSpace cs) rest) :
    ItemsEnd d items cs rest := by
  obtain ⟨raw, body, hbody, hcs, hsorted, hdepth⟩ := h
  obtain ⟨w, hw, hskip⟩ := exists_spaces_skipSpace cs
  exact ⟨raw, w ++ body, hbody.space_append hw, by rw [hskip, hcs, List.append_assoc], hsorted, hdepth⟩

theorem MembersEnd.of_skipSpace {members : List (String × Json)}
    (h : MembersEnd d members (skipSpace cs) rest) : MembersEnd d members cs rest := by
  obtain ⟨raw, body, hbody, hcs, hsorted, hdepth⟩ := h
  obtain ⟨w, hw, hskip⟩ := exists_spaces_skipSpace cs
  exact ⟨raw, w ++ body, hbody.space_append hw, by rw [hskip, hcs, List.append_assoc], hsorted, hdepth⟩

theorem Sound.elements (h : Sound fuel) {items : List Json}
    (hread : readElements fuel d cs = some (items, rest)) : items ≠ [] ∧ ItemsEnd d items cs rest := by
  obtain ⟨⟨j, afterItem⟩, hvalue, hread⟩ := Option.bind_eq_some_iff.1 hread
  obtain ⟨⟨more, afterMore⟩, hmore, hread⟩ := Option.bind_eq_some_iff.1 hread
  obtain ⟨rfl, rfl⟩ := Prod.mk.inj (Option.some.inj hread)
  refine ⟨List.cons_ne_nil j more, ?_⟩
  obtain ⟨text, ⟨raw, hraw, rfl, hdepth⟩, rfl⟩ := h.value hvalue
  obtain ⟨w, hw, hskip⟩ := exists_spaces_skipSpace afterItem
  have hspelled : Spells raw (text ++ w) := (Spells.of_bare hraw).append_space hw
  rcases h.moreItems hmore with ⟨rfl, hclose⟩ | ⟨cs', hcomma, hne, raws, body, hbody, rfl, rfl, hdepths⟩
  · exact ⟨[raw], text ++ w, .last hspelled, by rw [hskip, hclose, List.append_assoc], rfl,
      List.forall_mem_singleton.2 hdepth⟩
  · refine ⟨raw :: raws, text ++ w ++ ',' :: body,
      .more hspelled (fun hnil => hne (by rw [hnil]; rfl)) hbody, ?_, rfl,
      List.forall_mem_cons.2 ⟨hdepth, hdepths⟩⟩
    rw [hskip, hcomma]
    simp

theorem Sound.items_succ (h : Sound fuel) {items : List Json}
    (hread : readItems (fuel + 1) d true cs = some (items, rest)) : ItemsEnd d items cs rest := by
  cases cs with
  | nil => rw [readItems] at hread; cases hread
  | cons c cs =>
    by_cases hc : c = ']'
    · subst hc
      rw [readItems_close] at hread
      obtain ⟨rfl, rfl⟩ := Prod.mk.inj (Option.some.inj hread)
      exact ⟨[], [], .none spaces_nil, rfl, rfl, List.forall_mem_nil _⟩
    · rw [readItems_first hc] at hread
      exact (h.elements hread).2

theorem Sound.moreItems_succ (h : Sound fuel) {items : List Json}
    (hread : readItems (fuel + 1) d false cs = some (items, rest)) :
    items = [] ∧ cs = ']' :: rest ∨ ∃ cs', cs = ',' :: cs' ∧ items ≠ [] ∧ ItemsEnd d items cs' rest := by
  rw [readItems.eq_def] at hread
  dsimp only at hread
  split at hread
  · cases hread
  · obtain ⟨rfl, rfl⟩ := Prod.mk.inj (Option.some.inj hread)
    exact .inl ⟨rfl, rfl⟩
  · obtain ⟨hne, hend⟩ := h.elements hread
    exact .inr ⟨_, rfl, hne, hend.of_skipSpace⟩
  · cases hread
  · next hfirst => cases hfirst

theorem Sound.members_succ (h : Sound fuel) {members : List (String × Json)}
    (hread : readMembers (fuel + 1) d true cs = some (members, rest)) : MembersEnd d members cs rest := by
  cases cs with
  | nil => rw [readMembers] at hread; cases hread
  | cons c cs =>
    by_cases hc : c = '}'
    · subst hc
      rw [readMembers_close] at hread
      obtain ⟨rfl, rfl⟩ := Prod.mk.inj (Option.some.inj hread)
      exact ⟨[], [], .none spaces_nil, rfl, rfl, List.forall_mem_nil _⟩
    · rw [readMembers_first hc] at hread
      exact (h.member hread).2

theorem Sound.moreMembers_succ (h : Sound fuel) {members : List (String × Json)}
    (hread : readMembers (fuel + 1) d false cs = some (members, rest)) :
    members = [] ∧ cs = '}' :: rest ∨
      ∃ cs', cs = ',' :: cs' ∧ members ≠ [] ∧ MembersEnd d members cs' rest := by
  rw [readMembers.eq_def] at hread
  dsimp only at hread
  split at hread
  · cases hread
  · obtain ⟨rfl, rfl⟩ := Prod.mk.inj (Option.some.inj hread)
    exact .inl ⟨rfl, rfl⟩
  · obtain ⟨hne, hend⟩ := h.member hread
    exact .inr ⟨_, rfl, hne, hend.of_skipSpace⟩
  · cases hread
  · next hfirst => cases hfirst

theorem Sound.member_succ (h : Sound fuel) {members : List (String × Json)}
    (hread : readMember (fuel + 1) d cs = some (members, rest)) :
    members ≠ [] ∧ MembersEnd d members cs rest := by
  rw [readMember.eq_def] at hread
  dsimp only at hread
  split at hread
  · next body =>
    obtain ⟨⟨key, afterName⟩, hname, hread⟩ := Option.bind_eq_some_iff.1 hread
    dsimp only at hread
    split at hread
    · next afterColon hcolon =>
      obtain ⟨⟨j, afterValue⟩, hvalue, hread⟩ := Option.bind_eq_some_iff.1 hread
      obtain ⟨⟨more, afterMore⟩, hmore, hread⟩ := Option.bind_eq_some_iff.1 hread
      obtain ⟨rfl, rfl⟩ := Prod.mk.inj (Option.some.inj hread)
      refine ⟨List.cons_ne_nil (key, j) more, ?_⟩
      obtain ⟨name, hspelledName, rfl⟩ := of_readString hname
      obtain ⟨text, ⟨raw, hraw, rfl, hdepth⟩, htext⟩ := h.value hvalue
      obtain ⟨w, hw, hafterName⟩ := exists_spaces_skipSpace afterName
      obtain ⟨v, hv, hafterColon⟩ := exists_spaces_skipSpace afterColon
      obtain ⟨u, hu, hafterValue⟩ := exists_spaces_skipSpace afterValue
      rw [hcolon] at hafterName
      rw [htext] at hafterColon
      -- the blanks that were skipped go to the member, up to the mark behind it
      have hmember : SpellsMember (key, raw) ('"' :: (name ++ '"' :: (w ++ ':' :: (v ++ text ++ u)))) :=
        .intro spaces_nil hspelledName hw (((Spells.of_bare hraw).space_append hv).append_space hu)
      rcases h.moreMembers hmore with
        ⟨rfl, hclose⟩ | ⟨cs', hcomma, hne, raws, body', hbody, rfl, rfl, hdepths⟩
      · rw [hclose] at hafterValue
        refine ⟨[(key, raw)], _, .last hmember, ?_, rfl, List.forall_mem_singleton.2 hdepth⟩
        rw [hafterName, hafterColon, hafterValue]
        simp
      · rw [hcomma] at hafterValue
        refine ⟨(key, raw) :: raws, _, .more hmember (fun hnil => hne (by rw [hnil]; rfl)) hbody, ?_, rfl,
          List.forall_mem_cons.2 ⟨hdepth, hdepths⟩⟩
        rw [hafterName, hafterColon, hafterValue]
        simp
    · cases hread
  · cases hread

theorem of_readWord {word : List Char} {j k : Json} (h : readWord word j cs = some (k, rest)) :
    k = j ∧ cs = word ++ rest := by
  rw [readWord] at h
  split at h
  · next hword =>
    obtain ⟨rfl, rfl⟩ := Prod.mk.inj (Option.some.inj h)
    obtain ⟨more, rfl⟩ := List.isPrefixOf_iff_prefix.1 hword
    exact ⟨rfl, by rw [List.drop_left]⟩
  · cases h

theorem Sound.value_succ (h : Sound fuel) {j : Json}
    (hread : readValue (fuel + 1) d cs = some (j, rest)) : ∃ text, TextOf d j text ∧ cs = text ++ rest := by
  rw [readValue.eq_def] at hread
  dsimp only at hread
  split at hread
  · next cs =>
    obtain ⟨⟨s, more⟩, hstring, hpair⟩ := Option.map_eq_some_iff.1 hread
    obtain ⟨rfl, rfl⟩ := Prod.mk.inj hpair
    obtain ⟨body, hbody, rfl⟩ := of_readString hstring
    exact ⟨_, ⟨_, .string hbody, rfl, Nat.zero_le d⟩, by simp⟩
  · next cs =>
    split at hread
    · cases hread
    · next hd =>
      obtain ⟨d, rfl⟩ := Nat.exists_eq_add_one_of_ne_zero hd
      obtain ⟨⟨items, more⟩, hitems, hpair⟩ := Option.map_eq_some_iff.1 hread
      obtain ⟨rfl, rfl⟩ := Prod.mk.inj hpair
      obtain ⟨raw, body, hbody, rfl, rfl, hdepth⟩ := (h.items hitems).of_skipSpace
      exact ⟨_, ⟨_, .array hbody, sorted_array raw, depth_array_le_iff.2 hdepth⟩, by simp⟩
  · next cs =>
    split at hread
    · cases hread
    · next hd =>
      obtain ⟨d, rfl⟩ := Nat.exists_eq_add_one_of_ne_zero hd
      obtain ⟨⟨members, more⟩, hmembers, hpair⟩ := Option.map_eq_some_iff.1 hread
      obtain ⟨rfl, rfl⟩ := Prod.mk.inj hpair
      obtain ⟨raw, body, hbody, rfl, rfl, hdepth⟩ := (h.members hmembers).of_skipSpace
      exact ⟨_, ⟨_, .object hbody, sorted_object raw, depth_object_le_iff.2 hdepth⟩, by simp⟩
  · obtain ⟨rfl, hcs⟩ := of_readWord hread
    exact ⟨_, ⟨_, .null, rfl, Nat.zero_le d⟩, hcs⟩
  · obtain ⟨rfl, hcs⟩ := of_readWord hread
    exact ⟨_, ⟨_, .bool true, rfl, Nat.zero_le d⟩, hcs⟩
  · obtain ⟨rfl, hcs⟩ := of_readWord hread
    exact ⟨_, ⟨_, .bool false, rfl, Nat.zero_le d⟩, hcs⟩
  · obtain ⟨text, htext, rfl⟩ := of_readNumber hread
    rcases htext.cases with ⟨n, rfl, -⟩ | ⟨x, rfl⟩
    · exact ⟨text, ⟨_, .integer htext, rfl, Nat.zero_le d⟩, rfl⟩
    · exact ⟨text, ⟨_, .float htext, rfl, Nat.zero_le d⟩, rfl⟩

end

/-- The four readers call each other with one step less, so they are sound together. -/
theorem sound (fuel : Nat) : Sound fuel := by
  induction fuel with
  | zero =>
    constructor <;> intro d cs rest _ hread <;>
      simp only [readValue, readItems, readMembers, readMember, reduceCtorEq] at hread
  | succ fuel ih =>
    exact ⟨ih.value_succ, ih.items_succ, ih.moreItems_succ, ih.members_succ, ih.moreMembers_succ,
      ih.member_succ⟩

/-! ## Texts as a whole -/

theorem stepsFor_enough {cs : List Char} {n : Nat} (h : n ≤ cs.length) : 2 * n + 1 ≤ stepsFor cs := by
  rw [stepsFor]
  omega

theorem atEnd_iff {cs : List Char} : atEnd cs = true ↔ Spaces cs := by
  rw [atEnd, skipSpace, List.isEmpty_iff, List.dropWhile_eq_nil_iff]
  rfl

/-- A text is accepted when it spells data nested no deeper than the reader goes, and gives this data
sorted. -/
theorem read?_eq_some_iff {text : String} {j : Json} :
    read? text = some j ↔ ∃ raw, Spells raw text.toList ∧ raw.depth ≤ maxDepth ∧ raw.sorted = j := by
  constructor
  · intro h
    rw [read?] at h
    split at h
    · next k rest hread =>
      split at h
      · next hend =>
        obtain rfl := Option.some.inj h
        obtain ⟨body, ⟨raw, hraw, rfl, hdepth⟩, hbody⟩ := (sound _).value hread
        obtain ⟨w, hw, htext⟩ := exists_spaces_skipSpace text.toList
        rw [hbody] at htext
        exact ⟨raw, htext ▸ .intro hw hraw (atEnd_iff.1 hend), hdepth, rfl⟩
      · cases h
    · cases h
  · rintro ⟨raw, hspelled, hdepth, rfl⟩
    rw [read?]
    generalize htext : text.toList = cs at hspelled
    cases hspelled with
    | @intro _ w cs w' hw hbare hw' =>
      have hsteps : 2 * cs.length + 1 ≤ stepsFor (w ++ (cs ++ w')) :=
        stepsFor_enough (by simp only [List.length_append]; omega)
      have hread := (readsBack raw).read hbare (Nat.le_of_succ_le hsteps) hdepth hw'.stops
      rw [skipSpace_append hw (hbare.startsTight _), hread]
      exact if_pos (atEnd_iff.2 hw')

theorem wellFormed_of_read? {text : String} {j : Json} (h : read? text = some j) : j.WellFormed := by
  obtain ⟨raw, hspelled, -, rfl⟩ := read?_eq_some_iff.1 h
  exact hspelled.wellFormed_sorted

/-- A text is accepted as an object when it spells one nested no deeper than the reader goes, and gives
the members in the order of the text. -/
theorem readObject?_eq_some_iff {text : String} {members : List (String × Json)} :
    readObject? text = some members ↔ ∃ raw, Spells (.object raw) text.toList ∧
      (Json.object raw).depth ≤ maxDepth ∧ sortedMembers raw = members := by
  constructor
  · intro h
    rw [readObject?] at h
    split at h
    · next body hbrace =>
      split at h
      · next read rest hread =>
        split at h
        · next hend =>
          obtain rfl := Option.some.inj h
          obtain ⟨raw, inner, hinner, rfl, rfl, hdepth⟩ := ((sound _).members hread).of_skipSpace
          obtain ⟨w, hw, htext⟩ := exists_spaces_skipSpace text.toList
          have hspelled : Spells (.object raw) (w ++ ('{' :: (inner ++ ['}']) ++ rest)) :=
            .intro hw (.object hinner) (atEnd_iff.1 hend)
          rw [hbrace] at htext
          refine ⟨raw, ?_, depth_object_le_iff.2 hdepth, rfl⟩
          rw [htext]
          simpa using hspelled
        · cases h
      · cases h
    · cases h
  · rintro ⟨raw, hspelled, hdepth, rfl⟩
    rw [readObject?]
    generalize htext : text.toList = cs at hspelled
    cases hspelled with
    | @intro _ w cs w' hw hbare hw' =>
      have hskip := skipSpace_append hw (hbare.startsTight w')
      cases hbare with
      | @object _ body hbody =>
        have hbraces : '{' :: (body ++ ['}']) ++ w' = '{' :: (body ++ '}' :: w') := by simp
        rw [hbraces] at hskip ⊢
        have hsteps : 2 * body.length + 1 ≤ stepsFor (w ++ '{' :: (body ++ '}' :: w')) :=
          stepsFor_enough (by simp only [List.length_append, List.length_cons]; omega)
        have hread := readMembers_append (d := maxDepth - 1) (fun member _ => readsBack member.2) hbody
          hsteps (depth_object_le_iff.1 hdepth) w'
        simp only [hskip, hread, atEnd_iff.2 hw', if_true]

end Stencil.Json
