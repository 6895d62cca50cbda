import Stencil.Proofs.FileSystem.Places
import Stencil.Proofs.Path.Below
/-!
# Entries as their paths show them

Whether an entry is a directory is asked of its path, which is composed from the spelling of the source.  A
path that is too long leads nowhere, so a directory may show as a file.  A build sees the shown entries and
no others: what is below a directory that shows as a file is not reached.

    (files.shown source entry).get? place = some e' ↔
      files.Shows source place ∧ ∃ e, entry.get? place = some e ∧ e' = files.shown (source.below place) e
    source.below place is short enough → files.Shows source place
-/

namespace Stencil.FileSystem

open Stencil.Path

/-! ## Algorithm -/

mutual

/-- The entry as its path shows it: a directory to which the path does not lead shows as a file. -/
def shown (files : FileSystem) (source : Path) : Entry → Entry
  | .file content => .file content
  | .directory children =>
    if files.isDirectory source then .directory (shownAll files source children) else .file .empty

/-- The entries of a directory as their paths show them. -/
def shownAll (files : FileSystem) (source : Path) : List (String × Entry) → List (String × Entry)
  | [] => []
  | (name, e) :: es => (name, shown files (source.join ⟨name⟩) e) :: shownAll files source es

end

/-- Every directory on the way to a place below the source shows as one. -/
def Shows (files : FileSystem) : Path → Place → Prop
  | _, [] => True
  | source, name :: place =>
    files.isDirectory source = true ∧ Shows files (source.join ⟨name⟩) place

/-! ## What is shown -/

section
variable {files : FileSystem}

theorem shown_of_isDirectory {source : Path} (h : files.isDirectory source = true)
    (children : List (String × Entry)) :
    files.shown source (.directory children) = .directory (files.shownAll source children) := by
  rw [shown, if_pos h]

theorem shown_of_not_isDirectory {source : Path} (h : files.isDirectory source = false)
    (children : List (String × Entry)) :
    files.shown source (.directory children) = .file .empty := by
  rw [shown, h, if_neg Bool.false_ne_true]

/-- A directory that is found at its path shows as one. -/
theorem shown_of_lookup {source : Path} {children : List (String × Entry)}
    (h : files.lookup source = .ok (.directory children)) :
    files.shown source (.directory children) = .directory (files.shownAll source children) :=
  shown_of_isDirectory (by rw [isDirectory, h]; rfl) children

/-- The names stay. -/
theorem map_fst_shownAll (source : Path) (es : List (String × Entry)) :
    (files.shownAll source es).map Prod.fst = es.map Prod.fst := by
  induction es with
  | nil => rfl
  | cons e es ih => rw [shownAll, List.map_cons, List.map_cons, ih]

theorem lookup_shownAll (source : Path) (es : List (String × Entry)) (name : String) :
    (files.shownAll source es).lookup name =
      (es.lookup name).map (files.shown (source.join ⟨name⟩)) := by
  induction es with
  | nil => rfl
  | cons e es ih =>
    obtain ⟨first, e⟩ := e
    rw [shownAll, KeyedList.lookup_cons_eq, KeyedList.lookup_cons_eq, ih]
    by_cases h : name = first
    · rw [if_pos h, if_pos h, h, Option.map_some]
    · rw [if_neg h, if_neg h]

mutual

theorem wellNamed_shown : ∀ {entry : Entry} (source : Path), entry.WellNamed →
    (files.shown source entry).WellNamed
  | .file content, _, h => h
  | .directory children, source, h => by
    rw [shown]
    split
    · refine ⟨?_, allWellNamed_shownAll source h.2⟩
      rw [map_fst_shownAll]
      exact h.1
    · exact Entry.wellNamed_file .empty

theorem allWellNamed_shownAll : ∀ {es : List (String × Entry)} (source : Path), Entry.AllWellNamed es →
    Entry.AllWellNamed (files.shownAll source es)
  | [], _, h => h
  | (name, _) :: _, source, ⟨hname, hentry, hrest⟩ =>
    ⟨hname, wellNamed_shown (source.join ⟨name⟩) hentry, allWellNamed_shownAll source hrest⟩

end

/-- What is shown at a place is what is there, if the way to it shows. -/
theorem get?_shown_eq_some_iff {source : Path} {entry e' : Entry} {place : Place} :
    (files.shown source entry).get? place = some e' ↔
      files.Shows source place ∧ ∃ e, entry.get? place = some e ∧
        e' = files.shown (source.below place) e := by
  induction place generalizing source entry with
  | nil => simp [Shows, Entry.get?, eq_comm]
  | cons name place ih =>
    cases entry with
    | file content => simp [shown, Entry.get?, Entry.children]
    | directory children =>
      cases hdir : files.isDirectory source with
      | false => simp [shown_of_not_isDirectory hdir, Shows, hdir, Entry.get?, Entry.children]
      | true =>
        rw [shown_of_isDirectory hdir, Entry.get?_cons_directory, lookup_shownAll,
          Entry.get?_cons_directory, Shows, below_cons]
        cases children.lookup name with
        | none => simp
        | some child => simp [hdir, ih]

theorem isDirectory_shown (source : Path) (e : Entry) :
    (files.shown source e).isDirectory = (e.isDirectory && files.isDirectory source) := by
  cases e with
  | file content => rfl
  | directory children =>
    rw [shown]
    cases files.isDirectory source <;> rfl

/-- What shows as a directory is one, with entries of the same names. -/
theorem exists_directory_of_shown {source : Path} {entry : Entry} {place : Place}
    {shown : List (String × Entry)}
    (h : (files.shown source entry).get? place = some (.directory shown)) :
    ∃ children, entry.get? place = some (.directory children) ∧
      shown = files.shownAll (source.below place) children := by
  obtain ⟨-, e, he, hshown⟩ := get?_shown_eq_some_iff.1 h
  cases e with
  | file content => cases hshown
  | directory children =>
    rw [FileSystem.shown] at hshown
    split at hshown
    · exact ⟨children, he, Entry.directory.inj hshown⟩
    · cases hshown

end

/-! ## Joined paths -/

/-- A path with another one behind it is no longer than both. -/
theorem pathFault?_of_join {p q : Path} (hp : p.text ≠ "") (hq : q.isAbsolute = false)
    (h : pathFault? (p.join q) = none) : pathFault? p = none := by
  rw [pathFault?_eq_none_iff] at h ⊢
  obtain ⟨hnul, -, hsize⟩ := h
  obtain ⟨rest, hrest⟩ : ∃ rest, (p.join q).text = p.text ++ rest := by
    refine ⟨String.ofList ((p.join q).text.toList.drop p.text.toList.length), ?_⟩
    rw [← String.toList_inj, String.toList_append, String.toList_ofList, toList_join hp hq,
      List.drop_left]
  rw [hrest, String.toList_append, List.mem_append, not_or] at hnul
  rw [hrest, String.utf8ByteSize_append] at hsize
  exact ⟨hnul.1, hp, Nat.lt_of_le_of_lt (Nat.le_add_right _ _) hsize⟩

theorem pathFault?_of_below {p : Path} (hp : p.text ≠ "") {place : Place}
    (hplace : ∀ name ∈ place, Ordinary name) (h : pathFault? (p.below place) = none) :
    pathFault? p = none := by
  induction place generalizing p with
  | nil => exact h
  | cons name place ih =>
    obtain ⟨hname, hrest⟩ := List.forall_mem_cons.1 hplace
    exact pathFault?_of_join hp hname.not_isAbsolute
      (ih (text_join_ne_empty hp hname.not_isAbsolute) hrest h)

section
variable {files : FileSystem} {source : Path} {base : Place} (hsource : files.resolve source = .ok base)
include hsource

theorem text_ne_empty_of_resolve : source.text ≠ "" :=
  (pathFault?_eq_none_iff.1 (resolve_eq_ok_iff.1 hsource).1).2.1

/-- A separator at the end of the source does not matter for the walk. -/
theorem walk_stem : walk files.root (files.start source) source.stem = .ok base := by
  have hwalk := (resolve_eq_ok_iff.1 hsource).2
  by_cases hsep : source.text.toList.getLast? = some separator
  · rw [(pieces_of_ends_with_separator hsep).1] at hwalk
    obtain ⟨next, hnext, hlast⟩ := walk_append_eq_ok_iff.1 hwalk
    obtain ⟨last, hstep, hnil⟩ := walk_cons_eq_ok_iff.1 hlast
    obtain rfl := Except.ok.inj hnil
    obtain ⟨-, hgo, -⟩ := step_eq_ok_iff.1 hstep
    rw [hgo]
    exact hnext
  · rwa [stem, if_neg hsep]

/-- One name further down the path leads one name further, unless it gets too long. -/
theorem resolve_join_eq_ok_iff {name : String} (hname : Ordinary name) {place : Place} :
    files.resolve (source.join ⟨name⟩) = .ok place ↔
      place = base ++ [name] ∧ pathFault? (source.join ⟨name⟩) = none ∧
        name.utf8ByteSize ≤ maxNameBytes ∧ (files.item? (base ++ [name])).isSome := by
  have htext := text_ne_empty_of_resolve hsource
  have hisName : IsName name := ⟨hname.ne_empty, hname.ne_current, hname.ne_parent⟩
  have hstart : files.start (source.join ⟨name⟩) = files.start source := by
    rw [start, start, isAbsolute_join htext hname.not_isAbsolute]
  have hwalk : walk files.root (files.start (source.join ⟨name⟩)) (source.join ⟨name⟩).pieces =
      .ok place ↔ step files.root base name = .ok place := by
    rw [hstart, pieces_join htext hname.not_isAbsolute, pieces_of_not_mem hname.separator_not_mem,
      walk_append_eq_ok_iff, walk_stem hsource]
    simp only [Except.ok.injEq, exists_eq_left', walk]
    cases step files.root base name <;> rfl
  rw [resolve_eq_ok_iff, hwalk, step_eq_ok_iff, goTo_of_isName hisName]
  constructor
  · rintro ⟨hfault, -, hplace, hthere⟩
    exact ⟨hplace, hfault, hthere hisName⟩
  · rintro ⟨hplace, hfault, hshort, hthere⟩
    exact ⟨hfault, Entry.item?_eq_directory_of_concat hthere, hplace, fun _ => ⟨hshort, hthere⟩⟩

end

/-- Along names that are not too long the path of an entry leads to it, unless it is too long itself. -/
theorem resolve_below {files : FileSystem} {source : Path} {base place : Place}
    (hsource : files.resolve source = .ok base) (hthere : (files.item? (base ++ place)).isSome)
    (hfault : pathFault? (source.below place) = none)
    (hshort : ∀ name ∈ place, name.utf8ByteSize ≤ maxNameBytes) :
    files.resolve (source.below place) = .ok (base ++ place) ∧ files.Shows source place := by
  induction place generalizing source base with
  | nil => exact ⟨by rwa [List.append_nil], trivial⟩
  | cons name place ih =>
    rw [List.append_cons] at hthere
    obtain ⟨e, he⟩ := Option.isSome_iff_exists.1 hthere
    obtain ⟨found, hfound, -⟩ := Option.map_eq_some_iff.1 he
    have hnames := (files.wellNamed.get? hfound).2
    have hnext : (files.item? (base ++ [name])).isSome := Entry.isSome_item?_of_append hthere
    have hname : Ordinary name := hnames name (by simp)
    have hplace : ∀ n ∈ place, Ordinary n := fun n hn => hnames n (by simp [hn])
    have htext := text_join_ne_empty (text_ne_empty_of_resolve hsource) hname.not_isAbsolute
    have hresolve : files.resolve (source.join ⟨name⟩) = .ok (base ++ [name]) :=
      (resolve_join_eq_ok_iff hsource hname).2
        ⟨rfl, pathFault?_of_below htext hplace hfault, hshort name List.mem_cons_self, hnext⟩
    obtain ⟨hbelow, hshows⟩ := ih hresolve hthere hfault
      fun n hn => hshort n (List.mem_cons_of_mem name hn)
    rw [← List.append_cons] at hbelow
    exact ⟨hbelow, isDirectory_iff.2 ⟨base, hsource, Entry.item?_eq_directory_of_concat hnext⟩, hshows⟩

/-- A place shows as long as its path and the names on the way are not too long. -/
theorem shows_of_pathFault? {files : FileSystem} {source : Path} {base place : Place}
    (hsource : files.resolve source = .ok base) (hthere : (files.item? (base ++ place)).isSome)
    (hfault : pathFault? (source.below place) = none)
    (hshort : ∀ name ∈ place, name.utf8ByteSize ≤ maxNameBytes) : files.Shows source place :=
  (resolve_below hsource hthere hfault hshort).2

theorem isDirectory_of_too_long {files : FileSystem} {p : Path}
    (h : maxPathBytes ≤ p.text.utf8ByteSize) : files.isDirectory p = false := by
  cases hdir : files.isDirectory p with
  | false => rfl
  | true =>
    obtain ⟨place, hplace, -⟩ := isDirectory_iff.1 hdir
    have hshort := (pathFault?_eq_none_iff.1 (resolve_eq_ok_iff.1 hplace).1).2.2
    omega

/-- Separators behind the path of a directory lead nowhere else, unless it gets too long. -/
theorem resolve_slashed {files : FileSystem} {p : Path} {place : Place}
    (hp : files.resolve p = .ok place) (hdir : files.item? place = some .directory) {n : Nat}
    (hshort : p.text.utf8ByteSize + n < maxPathBytes) : files.resolve (p.slashed n) = .ok place := by
  obtain ⟨hfault, hwalk⟩ := resolve_eq_ok_iff.1 hp
  obtain ⟨hnul, htext, -⟩ := pathFault?_eq_none_iff.1 hfault
  have hnul' : '\x00' ∉ (p.slashed n).text.toList := by
    rw [toList_slashed, List.mem_append, not_or]
    exact ⟨hnul, fun hmem => by cases (List.mem_replicate.1 hmem).2⟩
  refine resolve_eq_ok_iff.2 ⟨pathFault?_eq_none_iff.2 ⟨hnul', text_slashed_ne_empty htext, ?_⟩, ?_⟩
  · rw [utf8ByteSize_slashed]
    exact hshort
  · rw [start, isAbsolute_slashed htext, ← start, pieces_slashed]
    exact walk_append_eq_ok_iff.2 ⟨place, hwalk,
      walk_of_stay hdir fun piece hpiece => .inl (List.mem_replicate.1 hpiece).2⟩

end Stencil.FileSystem
