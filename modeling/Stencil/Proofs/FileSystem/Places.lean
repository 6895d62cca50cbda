import Mathlib.Data.List.Induction
import Stencil.Proofs.FileSystem.Names
import Stencil.Proofs.Sorted
/-!
# What stands at a place

A file system seen place by place: at each there is nothing, a directory, or a file with its bytes.
Putting a file or an empty directory at a place changes what stands there and nothing else, and where
nothing is removed a path that leads somewhere keeps leading there.

    (set new (place ++ [name]) e).item? q = if q = place ++ [name] then some new.item else e.item? q
    fs.Extends fs' → fs.resolve p = .ok place → fs'.resolve p = .ok place
    fs.read p = .ok content → fs.Holds p content
-/

namespace Stencil

/-! ## Items -/

/-- What stands at a place, without what is below it. -/
inductive Item where
  | directory
  | file (content : ByteArray)

instance : DecidableEq Item
  | .directory, .directory => isTrue rfl
  | .directory, .file _ => isFalse (by simp)
  | .file _, .directory => isFalse (by simp)
  | .file a, .file b =>
    decidable_of_iff (a.data = b.data) (by rw [Item.file.injEq, ByteArray.ext_iff])

namespace Entry

def item : Entry → Item
  | .directory _ => .directory
  | .file content => .file content

/-- What stands at a place below the entry. -/
def item? (e : Entry) (place : Place) : Option Item := (e.get? place).map item

theorem item?_nil (e : Entry) : e.item? [] = some e.item := rfl

theorem item?_cons_directory (children : List (String × Entry)) (name : String) (place : Place) :
    (Entry.directory children).item? (name :: place) =
      (children.lookup name).bind fun child => child.item? place := by
  rw [item?, get?_cons_directory]
  cases children.lookup name <;> rfl

theorem item?_eq_directory_iff {e : Entry} {place : Place} :
    e.item? place = some .directory ↔ ∃ children, e.get? place = some (.directory children) := by
  rw [item?, Option.map_eq_some_iff]
  constructor
  · rintro ⟨found, hget, hitem⟩
    cases found with
    | file content => cases hitem
    | directory children => exact ⟨children, hget⟩
  · rintro ⟨children, hget⟩
    exact ⟨.directory children, hget, rfl⟩

theorem item?_eq_file_iff {e : Entry} {place : Place} {content : ByteArray} :
    e.item? place = some (.file content) ↔ e.get? place = some (.file content) := by
  rw [item?, Option.map_eq_some_iff]
  constructor
  · rintro ⟨found, hget, hitem⟩
    cases found with
    | file content' =>
      obtain rfl := Item.file.inj hitem
      exact hget
    | directory children => cases hitem
  · intro hget
    exact ⟨.file content, hget, rfl⟩

/-- An entry below a directory is looked up among its entries. -/
theorem item?_concat {e : Entry} {place : Place} {children : List (String × Entry)}
    (hget : e.get? place = some (.directory children)) (name : String) :
    e.item? (place ++ [name]) = (children.lookup name).map item := by
  rw [item?, get?_concat hget]

/-- Where nothing is a directory, nothing stands below. -/
theorem item?_cons_of_not_isDirectory {e : Entry} (h : e.isDirectory = false) (name : String)
    (place : Place) : e.item? (name :: place) = none := by
  cases e with
  | file content => rfl
  | directory children => cases h

/-- What stands below a place stands in a directory. -/
theorem item?_eq_directory_of_concat {e : Entry} {place : Place} {name : String}
    (h : (e.item? (place ++ [name])).isSome) : e.item? place = some .directory := by
  induction place generalizing e with
  | nil =>
    cases e with
    | file content => cases h
    | directory children => rfl
  | cons first place ih =>
    cases e with
    | file content => cases h
    | directory children =>
      rw [List.cons_append, item?_cons_directory] at h
      rw [item?_cons_directory]
      cases hchild : children.lookup first with
      | none =>
        rw [hchild] at h
        cases h
      | some child =>
        rw [hchild] at h
        exact ih h

/-- Above what stands somewhere something stands. -/
theorem isSome_item?_of_append {e : Entry} {place rest : Place}
    (h : (e.item? (place ++ rest)).isSome) : (e.item? place).isSome := by
  induction rest using List.reverseRecOn with
  | nil => rwa [List.append_nil] at h
  | append_singleton rest name ih =>
    rw [← List.append_assoc] at h
    exact ih (by rw [item?_eq_directory_of_concat h]; rfl)

theorem set_cons_of_ne_nil (new : Entry) (name : String) {place : Place} (hne : place ≠ [])
    {children : List (String × Entry)} {child : Entry} (hchild : children.lookup name = some child) :
    set new (name :: place) (.directory children) =
      .directory (Sorted.put name (set new place child) children) := by
  cases place with
  | nil => exact absurd rfl hne
  | cons next place =>
    rw [Entry.set, hchild]
    simp

/-- A file or an empty directory that is put into a directory, over a file or over nothing, is all
that changes. -/
theorem item?_set {new : Entry} (hnew : new.children = []) {e : Entry} {place : Place}
    {children : List (String × Entry)} (hget : e.get? place = some (.directory children))
    {name : String} (hold : ∀ old, children.lookup name = some old → old.isDirectory = false)
    (q : Place) :
    (set new (place ++ [name]) e).item? q =
      if q = place ++ [name] then some new.item else e.item? q := by
  have hbelow : ∀ n rest, new.item? (n :: rest) = none := by
    intro n rest
    cases new with
    | file content => rfl
    | directory entries =>
      obtain rfl : entries = [] := hnew
      rfl
  induction place generalizing e q with
  | nil =>
    obtain rfl := Option.some.inj hget
    rw [List.nil_append, Entry.set]
    cases q with
    | nil => rfl
    | cons n rest =>
      rw [item?_cons_directory, Sorted.lookup_put, item?_cons_directory]
      by_cases hn : n = name
      · subst hn
        rw [if_pos rfl, Option.bind_some]
        cases rest with
        | nil => rw [if_pos rfl, item?_nil]
        | cons m rest =>
          have hne : n :: m :: rest ≠ [n] := by simp
          rw [hbelow, if_neg hne]
          cases hlookup : children.lookup n with
          | none => rfl
          | some old => exact (item?_cons_of_not_isDirectory (hold old hlookup) m rest).symm
      · have hne : n :: rest ≠ [name] := by simp [hn]
        rw [if_neg hn, if_neg hne]
  | cons first place ih =>
    cases e with
    | file content => cases hget
    | directory entries =>
      rw [get?_cons_directory, Option.bind_eq_some_iff] at hget
      obtain ⟨child, hchild, hget⟩ := hget
      rw [List.cons_append, set_cons_of_ne_nil new first (by simp) hchild]
      cases q with
      | nil => rfl
      | cons n rest =>
        rw [item?_cons_directory, Sorted.lookup_put, item?_cons_directory]
        by_cases hn : n = first
        · subst hn
          rw [if_pos rfl, Option.bind_some, ih hget, hchild, Option.bind_some]
          by_cases hrest : rest = place ++ [name]
          · rw [if_pos hrest, if_pos (by rw [hrest])]
          · rw [if_neg hrest, if_neg (by simpa using hrest)]
        · have hne : n :: rest ≠ first :: (place ++ [name]) := by simp [hn]
          rw [if_neg hn, if_neg hne]

end Entry

namespace FileSystem

/-- What stands at a place of the file system. -/
def item? (fs : FileSystem) (place : Place) : Option Item := fs.root.item? place

theorem item?_root (fs : FileSystem) : fs.item? [] = some .directory := by
  have hdir := fs.isRoot
  rw [item?, Entry.item?_nil]
  cases hroot : fs.root with
  | file content =>
    rw [hroot] at hdir
    cases hdir
  | directory children => rfl

/-! ## Walking through directories -/

/-- Where one piece leads from a directory. -/
def goTo (place : Place) (piece : String) : Place :=
  if piece = "" || piece = "." then place
  else if piece = ".." then place.dropLast
  else place ++ [piece]

/-- Whether a piece names an entry. -/
def IsName (piece : String) : Prop := piece ≠ "" ∧ piece ≠ "." ∧ piece ≠ ".."

theorem goTo_of_isName {piece : String} (h : IsName piece) (place : Place) :
    goTo place piece = place ++ [piece] := by
  obtain ⟨hempty, hcurrent, hparent⟩ := h
  simp [goTo, hempty, hcurrent, hparent]

theorem goTo_of_not_isName {piece : String} (h : ¬ IsName piece) (place : Place) :
    goTo place piece = place ∨ goTo place piece = place.dropLast := by
  unfold goTo
  unfold IsName at h
  split
  · exact .inl rfl
  · split
    · exact .inr rfl
    · simp_all

/-- Above a directory there are only directories. -/
theorem item?_dropLast {fs : FileSystem} {place : Place} (h : fs.item? place = some .directory) :
    fs.item? place.dropLast = some .directory := by
  rcases List.eq_nil_or_concat' place with rfl | ⟨outer, name, rfl⟩
  · exact h
  · rw [List.dropLast_concat]
    have hsome : (fs.root.item? (outer ++ [name])).isSome := by
      rw [← item?, h]
      rfl
    exact Entry.item?_eq_directory_of_concat hsome

/-- A step is made from a directory, to an entry that is there. -/
theorem step_eq_ok_iff {root : Entry} {place place' : Place} {piece : String} :
    step root place piece = .ok place' ↔
      root.item? place = some .directory ∧ place' = goTo place piece ∧
        (IsName piece → piece.utf8ByteSize ≤ maxNameBytes ∧ (root.item? (place ++ [piece])).isSome) := by
  rw [Entry.item?_eq_directory_iff, step]
  cases hget : root.get? place with
  | none => simp
  | some e =>
    cases e with
    | file content => simp
    | directory children =>
      rw [Entry.item?_concat hget, Option.isSome_map]
      simp only [goTo, IsName]
      by_cases hstay : (decide (piece = "") || decide (piece = ".")) = true
      · rw [if_pos hstay, if_pos hstay]
        simp only [Bool.or_eq_true, decide_eq_true_iff] at hstay
        constructor
        · intro h
          refine ⟨⟨children, rfl⟩, (Except.ok.inj h).symm, fun hname => ?_⟩
          rcases hstay with hstay | hstay
          · exact absurd hstay hname.1
          · exact absurd hstay hname.2.1
        · rintro ⟨-, rfl, -⟩
          rfl
      · rw [if_neg hstay, if_neg hstay]
        simp only [Bool.or_eq_true, decide_eq_true_iff, not_or] at hstay
        by_cases hup : piece = ".."
        · rw [if_pos hup, if_pos hup]
          constructor
          · intro h
            exact ⟨⟨children, rfl⟩, (Except.ok.inj h).symm, fun hname => absurd hup hname.2.2⟩
          · rintro ⟨-, rfl, -⟩
            rfl
        · rw [if_neg hup, if_neg hup]
          by_cases hlong : maxNameBytes < piece.utf8ByteSize
          · rw [if_pos hlong]
            constructor
            · intro h
              cases h
            · rintro ⟨-, -, hname⟩
              have hshort := (hname ⟨hstay.1, hstay.2, hup⟩).1
              omega
          · rw [if_neg hlong]
            by_cases hthere : (children.lookup piece).isSome = true
            · rw [if_pos hthere]
              constructor
              · intro h
                exact ⟨⟨children, rfl⟩, (Except.ok.inj h).symm, fun _ => ⟨by omega, hthere⟩⟩
              · rintro ⟨-, rfl, -⟩
                rfl
            · rw [if_neg hthere]
              constructor
              · intro h
                cases h
              · rintro ⟨-, -, hname⟩
                exact absurd (hname ⟨hstay.1, hstay.2, hup⟩).2 hthere

theorem walk_cons_eq_ok_iff {root : Entry} {place place' : Place} {piece : String}
    {pieces : List String} :
    walk root place (piece :: pieces) = .ok place' ↔
      ∃ next, step root place piece = .ok next ∧ walk root next pieces = .ok place' := by
  rw [walk]
  cases hstep : step root place piece with
  | error fault => simp
  | ok next => simp

theorem walk_append_eq_ok_iff {root : Entry} {place place' : Place} {pieces more : List String} :
    walk root place (pieces ++ more) = .ok place' ↔
      ∃ next, walk root place pieces = .ok next ∧ walk root next more = .ok place' := by
  induction pieces generalizing place with
  | nil => simp [walk]
  | cons piece pieces ih =>
    rw [List.cons_append, walk_cons_eq_ok_iff]
    constructor
    · rintro ⟨next, hstep, hwalk⟩
      obtain ⟨there, hthere, hmore⟩ := ih.1 hwalk
      exact ⟨there, walk_cons_eq_ok_iff.2 ⟨next, hstep, hthere⟩, hmore⟩
    · rintro ⟨there, hthere, hmore⟩
      obtain ⟨next, hstep, hwalk⟩ := walk_cons_eq_ok_iff.1 hthere
      exact ⟨next, hstep, ih.2 ⟨there, hwalk, hmore⟩⟩

/-- A walk leads where the pieces say. -/
theorem eq_foldl_of_walk {root : Entry} {place place' : Place} {pieces : List String}
    (h : walk root place pieces = .ok place') : place' = pieces.foldl goTo place := by
  induction pieces generalizing place with
  | nil => exact (Except.ok.inj h).symm
  | cons piece pieces ih =>
    obtain ⟨next, hstep, hwalk⟩ := walk_cons_eq_ok_iff.1 h
    rw [List.foldl_cons, ← (step_eq_ok_iff.1 hstep).2.1]
    exact ih hwalk

/-- Pieces that are empty or `.` lead nowhere else. -/
theorem walk_of_stay {root : Entry} {place : Place} (hplace : root.item? place = some .directory)
    {pieces : List String} (hpieces : ∀ piece ∈ pieces, piece = "" ∨ piece = ".") :
    walk root place pieces = .ok place := by
  induction pieces with
  | nil => rfl
  | cons piece pieces ih =>
    obtain ⟨hpiece, hrest⟩ := List.forall_mem_cons.1 hpieces
    have hstep : step root place piece = .ok place := by
      refine step_eq_ok_iff.2 ⟨hplace, ?_, fun hname => ?_⟩
      · rcases hpiece with rfl | rfl <;> rfl
      · rcases hpiece with rfl | rfl
        · exact absurd rfl hname.1
        · exact absurd rfl hname.2.1
    exact walk_cons_eq_ok_iff.2 ⟨place, hstep, ih hrest⟩

/-! ## Looking up -/

theorem pathFault?_eq_none_iff {p : Path} :
    pathFault? p = none ↔
      '\x00' ∉ p.text.toList ∧ p.text ≠ "" ∧ p.text.utf8ByteSize < maxPathBytes := by
  rw [pathFault?]
  by_cases hnul : '\x00' ∈ p.text.toList <;> by_cases hempty : p.text = "" <;>
    simp [hnul, hempty]

theorem resolve_eq_ok_iff {fs : FileSystem} {p : Path} {place : Place} :
    fs.resolve p = .ok place ↔
      pathFault? p = none ∧ walk fs.root (fs.start p) p.pieces = .ok place := by
  rw [resolve]
  cases pathFault? p with
  | none => simp
  | some fault => simp

/-- A path that can be walked names the place that its pieces spell. -/
theorem eq_placeOf_of_resolve {fs : FileSystem} {p : Path} {place : Place}
    (h : fs.resolve p = .ok place) : place = fs.placeOf p :=
  eq_foldl_of_walk (resolve_eq_ok_iff.1 h).2

theorem lookup_eq_ok_iff {fs : FileSystem} {p : Path} {e : Entry} :
    fs.lookup p = .ok e ↔ ∃ place, fs.resolve p = .ok place ∧ fs.root.get? place = some e := by
  rw [lookup]
  cases hresolve : fs.resolve p with
  | error fault => simp
  | ok place => cases hget : fs.root.get? place <;> simp [hget]

/-- The path leads to a file with these bytes. -/
def Holds (fs : FileSystem) (p : Path) (content : ByteArray) : Prop :=
  ∃ place, fs.resolve p = .ok place ∧ fs.item? place = some (.file content)

theorem isDirectory_iff {fs : FileSystem} {p : Path} :
    fs.isDirectory p = true ↔ ∃ place, fs.resolve p = .ok place ∧ fs.item? place = some .directory := by
  rw [isDirectory]
  constructor
  · intro h
    split at h
    · next e hlookup =>
      obtain ⟨place, hresolve, hget⟩ := lookup_eq_ok_iff.1 hlookup
      cases e with
      | file content => cases h
      | directory children =>
        exact ⟨place, hresolve, Entry.item?_eq_directory_iff.2 ⟨children, hget⟩⟩
    · cases h
  · rintro ⟨place, hresolve, hitem⟩
    obtain ⟨children, hget⟩ := Entry.item?_eq_directory_iff.1 hitem
    rw [lookup_eq_ok_iff.2 ⟨place, hresolve, hget⟩]
    rfl

/-- Whatever stands in the first file system stands in the second too, on the same disk: a directory as a
directory, a file as a file, if with other bytes. -/
structure Extends (fs fs' : FileSystem) : Prop where
  current : fs'.current = fs.current
  disk : fs'.disk = fs.disk
  directory : ∀ place, fs.item? place = some .directory → fs'.item? place = some .directory
  file : ∀ place content, fs.item? place = some (.file content) →
    ∃ content', fs'.item? place = some (.file content')

namespace Extends

theorem refl (fs : FileSystem) : Extends fs fs :=
  ⟨rfl, rfl, fun _ h => h, fun _ content h => ⟨content, h⟩⟩

section
variable {fs fs' : FileSystem} (h : Extends fs fs')
include h

theorem isSome {place : Place} (hplace : (fs.item? place).isSome) : (fs'.item? place).isSome := by
  obtain ⟨item, hitem⟩ := Option.isSome_iff_exists.1 hplace
  cases item with
  | directory => rw [h.directory place hitem]; rfl
  | file content =>
    obtain ⟨content', hcontent'⟩ := h.file place content hitem
    rw [hcontent']
    rfl

theorem step {place place' : Place} {piece : String}
    (hstep : FileSystem.step fs.root place piece = .ok place') :
    FileSystem.step fs'.root place piece = .ok place' := by
  obtain ⟨hitem, hgo, hname⟩ := step_eq_ok_iff.1 hstep
  refine step_eq_ok_iff.2 ⟨h.directory place hitem, hgo, fun hpiece => ?_⟩
  obtain ⟨hsize, hthere⟩ := hname hpiece
  exact ⟨hsize, h.isSome hthere⟩

theorem walk {place place' : Place} {pieces : List String}
    (hwalk : FileSystem.walk fs.root place pieces = .ok place') :
    FileSystem.walk fs'.root place pieces = .ok place' := by
  induction pieces generalizing place with
  | nil => exact hwalk
  | cons piece pieces ih =>
    obtain ⟨next, hstep, hnext⟩ := walk_cons_eq_ok_iff.1 hwalk
    exact walk_cons_eq_ok_iff.2 ⟨next, h.step hstep, ih hnext⟩

theorem start (p : Path) : fs'.start p = fs.start p := by
  rw [FileSystem.start, FileSystem.start, h.current]

/-- A path that leads somewhere keeps leading there. -/
theorem resolve {p : Path} {place : Place} (hresolve : fs.resolve p = .ok place) :
    fs'.resolve p = .ok place := by
  obtain ⟨hfault, hwalk⟩ := resolve_eq_ok_iff.1 hresolve
  rw [← h.start p] at hwalk
  exact resolve_eq_ok_iff.2 ⟨hfault, h.walk hwalk⟩

theorem isDirectory {p : Path} (hdir : fs.isDirectory p = true) : fs'.isDirectory p = true := by
  obtain ⟨place, hresolve, hitem⟩ := isDirectory_iff.1 hdir
  exact isDirectory_iff.2 ⟨place, h.resolve hresolve, h.directory place hitem⟩

theorem trans {fs'' : FileSystem} (h' : Extends fs' fs'') : Extends fs fs'' := by
  refine ⟨h'.current.trans h.current, h'.disk.trans h.disk, fun place hitem => ?_,
    fun place content hitem => ?_⟩
  · exact h'.directory place (h.directory place hitem)
  · obtain ⟨content', hcontent'⟩ := h.file place content hitem
    exact h'.file place content' hcontent'

end

end Extends

end FileSystem

end Stencil
