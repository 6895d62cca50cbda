import Stencil.Proofs.Bindings.KeyOrder
import Stencil.Proofs.Bindings.RangeText
/-!
# Assignments of JSON data

A JSON text behind the equals sign of an assignment is neither taken for a range nor for a plain text,
whatever signs and points stand in it.  So the assignment gives what a bindings file gives whose only entry
has the same name and this text, and fails as the file does.

    Spells j cs → ¬ Bounds.RangeText cs b                             (`Json.Spells.not_rangeText`)
    readAssignment (k ++ "=" ++ v) and read (entryText k v) both follow Value.ofJson raw.sorted
-/

namespace Stencil

open Text

/-! ## No range is JSON text -/

namespace Bounds

theorem RangeText.exists_head {cs : List Char} {b : Bounds} (h : RangeText cs b) :
    ∃ c rest, cs.dropWhile isBlank = c :: rest ∧ (c = '+' ∨ c = '-' ∨ Decimal.isDigit c = true) := by
  cases h with
  | @intro w₁ first w₂ equals w₃ last w₄ _ hw₁ hfirst _ _ _ _ _ =>
    obtain ⟨c, first, rfl⟩ := List.exists_cons_of_ne_nil hfirst.ne_nil
    refine ⟨c, first ++ (w₂ ++ (['.', '.'] ++ (equals ++ (w₃ ++ (last ++ w₄))))), ?_,
      hfirst.char c List.mem_cons_self⟩
    simp only [List.append_assoc]
    rw [List.dropWhile_append_of_pos hw₁]
    refine dropWhile_eq_self fun d hd => ?_
    obtain rfl := Option.some.inj hd
    exact hfirst.not_blank c List.mem_cons_self

theorem RangeText.two_le_count {cs : List Char} {b : Bounds} (h : RangeText cs b) :
    2 ≤ cs.count '.' := by
  cases h with
  | intro =>
    simp only [List.count_append]
    have hpoints : List.count '.' ['.', '.'] = 2 := by decide
    omega

end Bounds

namespace Json

/-- Text that starts like a numeral is that of a number. -/
theorem SpellsBare.numberText {j : Json} {cs : List Char} (h : SpellsBare j cs)
    (hhead : ∀ c, cs.head? = some c → c = '+' ∨ c = '-' ∨ Decimal.isDigit c = true) :
    NumberText j cs := by
  cases h with
  | null => exact absurd (hhead 'n' rfl) (by decide)
  | bool b =>
    cases b with
    | true => exact absurd (hhead 't' rfl) (by decide)
    | false => exact absurd (hhead 'f' rfl) (by decide)
  | integer hn => exact hn
  | float hn => exact hn
  | string => exact absurd (hhead '"' rfl) (by decide)
  | array => exact absurd (hhead '[' rfl) (by decide)
  | object => exact absurd (hhead '{' rfl) (by decide)

theorem Spaces.count_point {w : List Char} (hw : Spaces w) : w.count '.' = 0 :=
  List.count_eq_zero.2 fun hmem => absurd (hw '.' hmem) (by decide)

/-- What comes first behind the blanks of a range text is a numeral, and a number has one point at most. -/
theorem Spells.not_rangeText {j : Json} {cs : List Char} (h : Spells j cs) (b : Bounds) :
    ¬ Bounds.RangeText cs b := by
  intro hrange
  obtain ⟨c, rest, hdrop, hc⟩ := hrange.exists_head
  have hcount := hrange.two_le_count
  cases h with
  | @intro _ w bare w' hw hbare hw' =>
    obtain ⟨d, bare, rfl, hd, -⟩ := hbare.head_not_blank
    -- both texts go on with the same character behind the blanks
    rw [List.dropWhile_append_of_pos fun e he => isBlank_of_isSpace (hw e he), List.cons_append,
      List.dropWhile_cons_of_neg (by rw [hd]; exact Bool.false_ne_true)] at hdrop
    obtain ⟨rfl, -⟩ := List.cons.inj hdrop
    have hnumber : NumberText j (d :: bare) := hbare.numberText fun e he => Option.some.inj he ▸ hc
    rw [List.count_append, List.count_append, hw.count_point, hw'.count_point] at hcount
    have hone := hnumber.count_point
    omega

end Json

/-! ## Both ways to bind a name -/

namespace Bindings

open Json

/-- The text of an object whose only member has the name `k` and the text `v`. -/
def entryText (k v : String) : String := String.ofList ('{' :: (quote k ++ ':' :: (v.toList ++ ['}'])))

section
variable {k : String} {raw : Json}

/-- An object of one member gives one binding. -/
theorem read_of_spells {text : String} (htext : Spells (.object [(k, raw)]) text.toList)
    (hdepth : raw.depth < maxDepth) :
    Bindings.read text = (Value.ofJson raw.sorted).map fun x => KeyedList.ofList [(k, x)] := by
  have hobject : (Json.object [(k, raw)]).depth ≤ maxDepth :=
    depth_object_le_iff.2 (List.forall_mem_singleton.2 (Nat.le_of_lt_succ hdepth))
  have hentries : (KeyedList.ofList [(k, raw.sorted)]).entries = [(k, raw.sorted)] :=
    KeyedList.entries_ofList (by simp)
  rw [read_eq_ofMembers htext hobject, sortedMembers, sortedMembers, Bindings.ofMembers, hentries,
    Value.ofMembers, Value.ofMembers]
  cases Value.ofJson raw.sorted <;> rfl

theorem readChars?_eq_none_of_spells {cs : List Char} (h : Spells raw cs) :
    Bounds.readChars? cs = none := by
  cases hbounds : Bounds.readChars? cs with
  | none => rfl
  | some b => exact absurd (Bounds.rangeText_of_readChars? hbounds) (h.not_rangeText b)

/-- Behind the equals sign JSON text is read as data. -/
theorem readAssigned_of_spells {cs : List Char} (hcs : Spells raw cs) (hdepth : raw.depth ≤ maxDepth) :
    readAssigned cs = Value.ofJson raw.sorted := by
  have hread : read? (String.ofList cs) = some raw.sorted :=
    read?_eq_some_iff.2 ⟨raw, by rwa [String.toList_ofList], hdepth, rfl⟩
  rw [readAssigned, readChars?_eq_none_of_spells hcs, hread]

theorem readAssignment_of_spells {v : String} (hk : k ≠ "") (htrim : trim k.toList = k.toList)
    (hequals : '=' ∉ k.toList) (hv : Spells raw v.toList) (hdepth : raw.depth ≤ maxDepth) :
    readAssignment (k ++ "=" ++ v) = (Value.ofJson raw.sorted).map fun x => (k, x) := by
  have hsplit : splitAtFirst ['='] (k ++ "=" ++ v).toList = some (k.toList, v.toList) := by
    rw [String.toList_append, String.toList_append]
    exact splitAtFirst_append hequals v.toList
  have hname : ¬ k.toList.isEmpty = true := by simpa using hk
  rw [readAssignment, hsplit]
  dsimp only
  rw [htrim, if_neg hname, readAssigned_of_spells hv hdepth, String.ofList_toList]
  cases Value.ofJson raw.sorted <;> rfl

theorem spells_entryText {v : String} (hv : Spells raw v.toList) :
    Spells (.object [(k, raw)]) (entryText k v).toList := by
  have hmember := SpellsMember.intro spaces_nil (stringText_flatMap k.toList) spaces_nil hv
  have hobject := Spells.of_bare (SpellsBare.object (.last hmember))
  simpa [entryText, quote] using hobject

end

/-- An assignment of a JSON text means the same as the bindings file with this one entry: the text is
accepted as data and is no range, both bind the name to the same value and nothing else, or both fail with
the same error. -/
theorem readAssignment_agrees (k v : String) (hk : k ≠ "") (htrim : trim k.toList = k.toList)
    (hequals : '=' ∉ k.toList) (raw : Json) (hv : Spells raw v.toList) (hdepth : raw.depth < maxDepth) :
    read? v = some raw.sorted ∧ Bounds.read? v = none ∧
      (∀ binding, readAssignment (k ++ "=" ++ v) = .ok binding ↔
        binding.1 = k ∧ ∃ b, Bindings.read (entryText k v) = .ok b ∧ b.entries = [binding]) ∧
      ∀ e, readAssignment (k ++ "=" ++ v) = .error e ↔ Bindings.read (entryText k v) = .error e := by
  have hassigned := readAssignment_of_spells hk htrim hequals hv (Nat.le_of_lt hdepth)
  have hfile := read_of_spells (spells_entryText (k := k) hv) hdepth
  refine ⟨read?_eq_some_iff.2 ⟨raw, hv, Nat.le_of_lt hdepth, rfl⟩, readChars?_eq_none_of_spells hv, ?_, ?_⟩
  · intro binding
    rw [hassigned, hfile]
    cases Value.ofJson raw.sorted with
    | error e => simp [Except.map]
    | ok x =>
      have hentries : (KeyedList.ofList [(k, x)]).entries = [(k, x)] := KeyedList.entries_ofList (by simp)
      constructor
      · intro h
        obtain rfl := Except.ok.inj h
        exact ⟨rfl, _, rfl, hentries⟩
      · rintro ⟨-, b, hb, hbinding⟩
        obtain rfl := Except.ok.inj hb
        rw [hentries] at hbinding
        obtain rfl := List.singleton_inj.1 hbinding
        rfl
  · intro e
    rw [hassigned, hfile]
    cases Value.ofJson raw.sorted <;> simp [Except.map]

theorem readAssignment_agrees_tags :
    Spells (.array [.string "a=b", .string "1..2"]) "[\"a=b\",\"1..2\"]".toList ∧
      Bounds.read? "[\"a=b\",\"1..2\"]" = none ∧
      ∃ b, Bindings.read (entryText "tags" "[\"a=b\",\"1..2\"]") = .ok b ∧
        b.entries = [("tags", .seq [.str "a=b", .str "1..2"])] := by
  have hexact : (Json.array [.string "a=b", .string "1..2"]).Exact :=
    .array (List.forall_mem_cons.2 ⟨.string _, List.forall_mem_singleton.2 (.string _)⟩)
  have hspelled : Spells (.array [.string "a=b", .string "1..2"]) "[\"a=b\",\"1..2\"]".toList :=
    .of_bare (spells_writeCompact hexact)
  obtain ⟨-, hrange, hok, -⟩ := readAssignment_agrees "tags" _ (by decide) (by decide) (by decide) _
    hspelled (by decide)
  have hassigned := readAssignment_of_spells (k := "tags") (by decide) (by decide) (by decide) hspelled
    (by decide)
  exact ⟨hspelled, hrange, ((hok ("tags", .seq [.str "a=b", .str "1..2"])).1 hassigned).2⟩

end Bindings

end Stencil
