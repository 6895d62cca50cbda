import Mathlib.Data.List.Forall2
import Stencil.CommandLine
import Stencil.Proofs.Bindings.Assigned
import Stencil.Proofs.KeyedList.Merge
import Stencil.Proofs.Value.RoundTrip
/-!
# Layers of bindings

The bindings of a command line come in layers: its files in their order, then its assignments.  Each layer is
read by itself, and what it gives is put over what the layers before it gave.  A layer that is not well formed
ends the loading, whatever the layers behind it would have put over it.

    a.loadBindings files = a.layers.foldlM (Layer.put files) .empty          (`loadBindings_eq_foldlM`)
    l.WellFormed files ↔ ∃ part, l.read files = .ok part                     (`Layer.wellFormed_iff`)
    a.loadBindings files = .ok (mergeAll parts), with one part for each layer
-/

namespace Stencil

/-! ## Algorithm -/

/-- One source of bindings. -/
inductive Layer where
  | file (p : Path)
  | assignment (text : String)

namespace Layer

/-- What a layer gives by itself. -/
def read (files : FileSystem) : Layer → Except Error Bindings
  | file p => files.readBindings p
  | assignment text =>
    match Bindings.readAssignment text with
    | .ok (name, value) => .ok (KeyedList.ofList [(name, value)])
    | .error e => .error e

/-- The layer is well formed and gives these bindings. -/
def Gives (files : FileSystem) (l : Layer) (part : Bindings) : Prop := l.read files = .ok part

/-- The bindings with a layer put over them. -/
def put (files : FileSystem) (b : Bindings) (l : Layer) : Except Error Bindings :=
  match l.read files with
  | .ok part => .ok (b.merge part)
  | .error e => .error e

/-- A bindings file that can be read, holds an object or a mapping, and has data of values only; or an
assignment with a name in front of its first equals sign and, if JSON data stands behind it, data of a
value. -/
inductive WellFormed (files : FileSystem) : Layer → Prop where
  | file {p : Path} {text : String} {members : List (String × Json)} :
    files.readText p = .ok text → Bindings.membersOf? text = some members →
    (∀ member ∈ (KeyedList.ofList members).entries, ∃ v, Value.ofJson member.2 = .ok v) →
    WellFormed files (.file p)
  | assignment {text : String} {key raw : List Char} :
    text.toList = key ++ '=' :: raw → '=' ∉ key → Text.trim key ≠ [] →
    (∀ j, Json.read? (String.ofList raw) = some j → ∃ v, Value.ofJson j = .ok v) →
    WellFormed files (.assignment text)

end Layer

/-- The layers of a command line, the first at the bottom. -/
def Arguments.layers (a : Arguments) : List Layer := a.bindings.map .file ++ a.data.map .assignment

/-! ## What is well formed -/

theorem Value.exists_ofMembers_iff {members : List (String × Json)} :
    (∃ entries, ofMembers members = .ok entries) ↔ ∀ member ∈ members, ∃ v, ofJson member.2 = .ok v := by
  constructor
  · rintro ⟨entries, h⟩ member hmem
    obtain ⟨hfst, hall⟩ := ofMembers_eq_ok_iff.1 h
    obtain ⟨entry, hpair⟩ := exists_mem_zip (length_eq_of_map_eq hfst.symm) hmem
    exact ⟨entry.2, hall _ hpair⟩
  · exact exists_ofMembers

namespace Bindings

theorem exists_ofMembers_iff {members : List (String × Json)} :
    (∃ b, Bindings.ofMembers members = .ok b) ↔
      ∀ member ∈ (KeyedList.ofList members).entries, ∃ v, Value.ofJson member.2 = .ok v := by
  rw [← Value.exists_ofMembers_iff, Bindings.ofMembers]
  cases Value.ofMembers (KeyedList.ofList members).entries <;> simp

/-- Text behind an equals sign is refused only as JSON data without a value. -/
theorem exists_readAssigned_iff {raw : List Char} : (∃ v, readAssigned raw = .ok v) ↔
    ∀ j, Json.read? (String.ofList raw) = some j → ∃ v, Value.ofJson j = .ok v := by
  rw [readAssigned]
  cases hrange : Bounds.readChars? raw with
  | some b =>
    refine iff_of_true ⟨_, rfl⟩ ?_
    intro j hj
    -- a range text is no JSON text
    obtain ⟨j', hspelled, -, -⟩ := Json.read?_eq_some_iff.1 hj
    rw [String.toList_ofList] at hspelled
    exact absurd (Bounds.rangeText_of_readChars? hrange) (hspelled.not_rangeText b)
  | none =>
    cases hread : Json.read? (String.ofList raw) with
    | none => simp
    | some j => simp

theorem exists_readAssignment_iff {text : String} : (∃ binding, readAssignment text = .ok binding) ↔
    ∃ key raw, Text.splitAtFirst ['='] text.toList = some (key, raw) ∧ Text.trim key ≠ [] ∧
      ∃ v, readAssigned raw = .ok v := by
  rw [readAssignment]
  cases Text.splitAtFirst ['='] text.toList with
  | none => simp
  | some parts =>
    obtain ⟨key, raw⟩ := parts
    by_cases hkey : Text.trim key = []
    · simp [hkey]
    · cases hraw : readAssigned raw <;> simp [hkey, hraw]

end Bindings

namespace Layer

section
variable {files : FileSystem}

theorem exists_read_file_iff {p : Path} : (∃ part, read files (.file p) = .ok part) ↔
    ∃ text members, files.readText p = .ok text ∧ Bindings.membersOf? text = some members ∧
      ∃ b, Bindings.ofMembers members = .ok b := by
  show (∃ part, files.readBindings p = .ok part) ↔ _
  rw [FileSystem.readBindings]
  cases files.readText p with
  | error fault => simp
  | ok text =>
    dsimp only
    rw [Bindings.read]
    cases hmembers : Bindings.membersOf? text <;> simp [hmembers]

theorem exists_read_assignment_iff {text : String} : (∃ part, read files (.assignment text) = .ok part) ↔
    ∃ binding, Bindings.readAssignment text = .ok binding := by
  rw [read]
  cases Bindings.readAssignment text <;> simp

theorem read_assignment_eq_error_iff {text : String} {e : Error} :
    read files (.assignment text) = .error e ↔ Bindings.readAssignment text = .error e := by
  rw [read]
  cases Bindings.readAssignment text <;> simp

/-- A layer is well formed exactly if it gives bindings. -/
theorem wellFormed_iff {l : Layer} : l.WellFormed files ↔ ∃ part, l.read files = .ok part := by
  constructor
  · intro h
    cases h with
    | file hread hmembers hall =>
      exact exists_read_file_iff.2 ⟨_, _, hread, hmembers, Bindings.exists_ofMembers_iff.2 hall⟩
    | assignment htext hequals hkey hraw =>
      rw [exists_read_assignment_iff, Bindings.exists_readAssignment_iff]
      exact ⟨_, _, Text.splitAtFirst_eq_some_iff.2 ⟨htext, hequals⟩, hkey,
        Bindings.exists_readAssigned_iff.2 hraw⟩
  · intro h
    cases l with
    | file p =>
      obtain ⟨text, members, hread, hmembers, hall⟩ := exists_read_file_iff.1 h
      exact .file hread hmembers (Bindings.exists_ofMembers_iff.1 hall)
    | assignment text =>
      rw [exists_read_assignment_iff, Bindings.exists_readAssignment_iff] at h
      obtain ⟨key, raw, hsplit, hkey, hraw⟩ := h
      obtain ⟨htext, hequals⟩ := Text.splitAtFirst_eq_some_iff.1 hsplit
      exact .assignment htext hequals hkey (Bindings.exists_readAssigned_iff.1 hraw)

/-! ## One layer after the other -/

theorem put_of_ok {l : Layer} {part : Bindings} (h : l.read files = .ok part) (b : Bindings) :
    put files b l = .ok (b.merge part) := by
  rw [put, h]

theorem put_of_error {l : Layer} {e : Error} (h : l.read files = .error e) (b : Bindings) :
    put files b l = .error e := by
  rw [put, h]

variable {layers : List Layer} {b : Bindings}

theorem foldlM_put_eq_ok_iff {b' : Bindings} : layers.foldlM (put files) b = .ok b' ↔
    ∃ parts, List.Forall₂ (Gives files) layers parts ∧ b' = parts.foldl KeyedList.merge b := by
  induction layers generalizing b with
  | nil =>
    constructor
    · intro h
      exact ⟨[], .nil, (Except.ok.inj h).symm⟩
    · rintro ⟨parts, hparts, rfl⟩
      cases hparts
      rfl
  | cons l layers ih =>
    rw [List.foldlM_cons]
    cases hread : l.read files with
    | error e =>
      rw [put_of_error hread]
      refine iff_of_false (fun h => nomatch h) ?_
      rintro ⟨parts, hparts, -⟩
      cases hparts with
      | cons hpart _ =>
        unfold Gives at hpart
        rw [hread] at hpart
        cases hpart
    | ok part =>
      rw [put_of_ok hread]
      show layers.foldlM (put files) (b.merge part) = .ok b' ↔ _
      rw [ih]
      constructor
      · rintro ⟨parts, hparts, rfl⟩
        exact ⟨part :: parts, .cons hread hparts, rfl⟩
      · rintro ⟨parts, hparts, rfl⟩
        cases hparts with
        | cons hpart hparts =>
          obtain rfl := Except.ok.inj (hread.symm.trans hpart)
          exact ⟨_, hparts, rfl⟩

theorem wellFormed_of_gives {parts : List Bindings} (h : List.Forall₂ (Gives files) layers parts) :
    ∀ l ∈ layers, l.WellFormed files := by
  induction h with
  | nil => simp
  | cons hpart _ ih => exact List.forall_mem_cons.2 ⟨wellFormed_iff.2 ⟨_, hpart⟩, ih⟩

/-- The first layer that is not well formed decides how the loading fails. -/
theorem foldlM_put_eq_error_iff {e : Error} : layers.foldlM (put files) b = .error e ↔
    ∃ before l after, layers = before ++ l :: after ∧ (∀ l' ∈ before, l'.WellFormed files) ∧
      l.read files = .error e := by
  induction layers generalizing b with
  | nil =>
    refine iff_of_false (fun h => nomatch h) ?_
    rintro ⟨before, l, after, hlayers, -⟩
    simp at hlayers
  | cons l layers ih =>
    rw [List.foldlM_cons]
    cases hread : l.read files with
    | error e' =>
      rw [put_of_error hread]
      constructor
      · intro h
        obtain rfl : e' = e := Except.error.inj h
        exact ⟨[], l, layers, rfl, by simp, hread⟩
      · rintro ⟨before, l', after, hlayers, hbefore, herror⟩
        cases before with
        | nil =>
          obtain ⟨rfl, -⟩ := List.cons.inj hlayers
          obtain rfl := Except.error.inj (hread.symm.trans herror)
          rfl
        | cons first before =>
          obtain ⟨rfl, -⟩ := List.cons.inj hlayers
          obtain ⟨part, hpart⟩ := wellFormed_iff.1 (hbefore l List.mem_cons_self)
          rw [hread] at hpart
          cases hpart
    | ok part =>
      rw [put_of_ok hread]
      show layers.foldlM (put files) (b.merge part) = .error e ↔ _
      rw [ih]
      constructor
      · rintro ⟨before, l', after, rfl, hbefore, herror⟩
        refine ⟨l :: before, l', after, rfl, ?_, herror⟩
        exact List.forall_mem_cons.2 ⟨wellFormed_iff.2 ⟨part, hread⟩, hbefore⟩
      · rintro ⟨before, l', after, hlayers, hbefore, herror⟩
        cases before with
        | nil =>
          obtain ⟨rfl, -⟩ := List.cons.inj hlayers
          rw [hread] at herror
          cases herror
        | cons first before =>
          obtain ⟨rfl, rfl⟩ := List.cons.inj hlayers
          exact ⟨before, l', after, rfl, (List.forall_mem_cons.1 hbefore).2, herror⟩

end

end Layer

namespace Arguments

theorem addFile_eq_put (files : FileSystem) (b : Bindings) (p : Path) :
    addFile files b p = Layer.put files b (.file p) := rfl

theorem addAssignment_eq_put (files : FileSystem) (b : Bindings) (text : String) :
    addAssignment b text = Layer.put files b (.assignment text) := by
  rw [addAssignment, Layer.put, Layer.read]
  cases Bindings.readAssignment text <;> rfl

theorem loadBindings_eq_foldlM (a : Arguments) (files : FileSystem) :
    a.loadBindings files = a.layers.foldlM (Layer.put files) KeyedList.empty := by
  have hfiles : addFile files = fun b p => Layer.put files b (.file p) :=
    funext fun b => funext fun p => addFile_eq_put files b p
  have hdata : addAssignment = fun b text => Layer.put files b (.assignment text) :=
    funext fun b => funext fun text => addAssignment_eq_put files b text
  rw [loadBindings, layers, List.foldlM_append, List.foldlM_map, ← hfiles]
  simp only [List.foldlM_map, ← hdata]
  cases a.bindings.foldlM (addFile files) KeyedList.empty <;> rfl

theorem loadBindings_eq_ok_iff {a : Arguments} {files : FileSystem} {b : Bindings} :
    a.loadBindings files = .ok b ↔
      ∃ parts, List.Forall₂ (Layer.Gives files) a.layers parts ∧ b = KeyedList.mergeAll parts := by
  rw [loadBindings_eq_foldlM]
  exact Layer.foldlM_put_eq_ok_iff

theorem loadBindings_eq_error_iff {a : Arguments} {files : FileSystem} {e : Error} :
    a.loadBindings files = .error e ↔ ∃ before l after, a.layers = before ++ l :: after ∧
      (∀ l' ∈ before, l'.WellFormed files) ∧ l.read files = .error e := by
  rw [loadBindings_eq_foldlM]
  exact Layer.foldlM_put_eq_error_iff

/-- A layer that cannot be read makes the loading fail, if not with its own error. -/
theorem exists_loadBindings_eq_error {a : Arguments} {files : FileSystem} {l : Layer} (hl : l ∈ a.layers)
    {e : Error} (h : l.read files = .error e) : ∃ e', a.loadBindings files = .error e' := by
  cases hload : a.loadBindings files with
  | error e' => exact ⟨e', rfl⟩
  | ok b =>
    obtain ⟨parts, hparts, -⟩ := loadBindings_eq_ok_iff.1 hload
    obtain ⟨part, hpart⟩ := Layer.wellFormed_iff.1 (Layer.wellFormed_of_gives hparts l hl)
    rw [h] at hpart
    cases hpart

/-! ## Top theorem -/

/-- A name of the file that an assignment has again stays where it is. -/
example : let a : Arguments :=
    { template := ⟨"src"⟩, output := ⟨"out"⟩, bindings := [⟨"vars.json"⟩], data := ["n=1", "i=3"]
      force := false, verbose := false, policy := .embed, strictPlaceholders := false, suffixes := [] }
    let files : FileSystem :=
      ⟨.directory [("vars.json", .file ⟨"\x7b\"i\":1,\"j\":2\x7d".toUTF8.data⟩)], [], .healthy, rfl,
        by decide +kernel⟩
    (a.loadBindings files).toOption.map (·.keys) = some ["i", "j", "n"] := by decide +kernel

end Arguments

end Stencil
