import Stencil.FileSystem
import Stencil.Proofs.Path.Join
/-!
# Names in a file system

What is found at a place of a file system has its names in order, as has the whole; and a new entry goes
into a directory that is there.

    e.WellNamed → e.get? place = some e' → e'.WellNamed ∧ ∀ name ∈ place, Ordinary name
    fs.lookup p = .ok e → p.text ≠ "" ∧ e.WellNamed
    fs.slot p dots slash = .ok (place, name) → ∃ children, fs.root.get? place = some (.directory children)
-/

namespace Stencil

open Stencil.Path

namespace Entry

/-! ## Entries -/

/-- An entry of a directory is smaller than all of its entries together. -/
theorem sizeOf_lt_of_mem {es : List (String × Entry)} {name : String} {e : Entry}
    (h : (name, e) ∈ es) : sizeOf e < 1 + sizeOf es := by
  have hpair := List.sizeOf_lt_of_mem h
  rw [Prod.mk.sizeOf_spec] at hpair
  omega

/-- No name stands twice in a directory. -/
theorem WellNamed.nodup {children : List (String × Entry)} (h : (directory children).WellNamed) :
    (children.map Prod.fst).Nodup := h.1.imp String.ne_of_lt

theorem get?_cons_directory (name : String) (place : Place) (children : List (String × Entry)) :
    get? (name :: place) (.directory children) = (children.lookup name).bind (get? place) := rfl

theorem get?_append {entry e : Entry} {place : Place} (h : entry.get? place = some e) (rest : Place) :
    entry.get? (place ++ rest) = e.get? rest := by
  induction place generalizing entry with
  | nil =>
    obtain rfl := Option.some.inj h
    rfl
  | cons name place ih =>
    rw [get?, Option.bind_eq_some_iff] at h
    obtain ⟨child, hchild, h⟩ := h
    rw [List.cons_append, get?, hchild]
    exact ih h

theorem get?_concat {entry : Entry} {place : Place} {children : List (String × Entry)}
    (hget : entry.get? place = some (.directory children)) (name : String) :
    entry.get? (place ++ [name]) = children.lookup name := by
  rw [get?_append hget, get?_cons_directory]
  cases children.lookup name <;> rfl

/-- What is at a place below, and the names on the way, are named well too. -/
theorem WellNamed.get? {e e' : Entry} (h : e.WellNamed) {place : Place}
    (hplace : get? place e = some e') : e'.WellNamed ∧ ∀ name ∈ place, Ordinary name := by
  induction place generalizing e with
  | nil =>
    obtain rfl := Option.some.inj hplace
    exact ⟨h, by simp⟩
  | cons name place ih =>
    cases e with
    | file content => cases hplace
    | directory children =>
      rw [get?_cons_directory, Option.bind_eq_some_iff] at hplace
      obtain ⟨child, hlookup, hplace⟩ := hplace
      obtain ⟨hname, hchild⟩ := h.2.of_mem (KeyedList.mem_of_lookup hlookup)
      obtain ⟨he', hnames⟩ := ih hchild hplace
      exact ⟨he', List.forall_mem_cons.2 ⟨hname, hnames⟩⟩

end Entry

namespace FileSystem

/-! ## Lookups -/

/-- Only a path with a text leads to an entry. -/
theorem of_lookup_eq_ok {files : FileSystem} {p : Path} {e : Entry} (h : files.lookup p = .ok e) :
    p.text ≠ "" ∧ e.WellNamed ∧ ∃ place, files.root.get? place = some e := by
  rw [lookup] at h
  split at h
  · next place hresolve =>
    split at h
    · next e' hget =>
      obtain rfl := Except.ok.inj h
      refine ⟨fun htext => ?_, (files.wellNamed.get? hget).1, place, hget⟩
      rw [resolve, pathFault?, htext] at hresolve
      simp at hresolve
    · cases h
  · cases h

/-! ## Slots -/

theorem ne_empty_of_getLast?_dropTrailingEmpty {pieces : List String} {name : String}
    (h : (dropTrailingEmpty pieces).getLast? = some name) : name ≠ "" := by
  rw [dropTrailingEmpty, List.getLast?_reverse] at h
  generalize pieces.reverse = reversed at h
  induction reversed with
  | nil => cases h
  | cons piece pieces ih =>
    rw [List.dropWhile_cons] at h
    split at h
    · exact ih h
    · next hpiece =>
      obtain rfl := Option.some.inj h
      simpa using hpiece

theorem mem_pieces_of_getLast? {p : Path} {name : String}
    (h : (dropTrailingEmpty p.pieces).getLast? = some name) : name ∈ p.pieces := by
  have hrev := List.mem_of_getLast? h
  rw [dropTrailingEmpty, List.mem_reverse] at hrev
  exact List.mem_reverse.1 ((List.dropWhile_sublist _).mem hrev)

/-- The last piece with a text is a name unless it is `.` or `..`: nothing else has the fault `dots`. -/
theorem ordinary_iff_of_getLast? {p : Path} {name : String}
    (h : (dropTrailingEmpty p.pieces).getLast? = some name) :
    Ordinary name ↔ name ≠ "." ∧ name ≠ ".." := by
  constructor
  · intro hname
    exact ⟨hname.ne_current, hname.ne_parent⟩
  · rintro ⟨hcurrent, hparent⟩
    exact ⟨ne_empty_of_getLast?_dropTrailingEmpty h, hcurrent, hparent,
      separator_not_mem_of_mem_pieces (mem_pieces_of_getLast? h)⟩

/-- A new entry goes into a directory that is there. -/
theorem of_slot_eq_ok {fs : FileSystem} {p : Path} {dots : FileFault} {slash : Option FileFault}
    {place : Place} {name : FileName} (h : fs.slot p dots slash = .ok (place, name)) :
    ∃ children, fs.root.get? place = some (.directory children) := by
  rw [slot] at h
  split at h
  · cases h
  · dsimp only at h
    split at h
    · cases h
    · split at h
      · cases h
      · cases h
      · cases h
      · next children last hget hlast =>
        split at h
        · split at h
          · cases h
          · split at h
            · cases h
            · obtain ⟨rfl, -⟩ := Prod.mk.inj (Except.ok.inj h)
              exact ⟨children, hget⟩
        · cases h

end FileSystem

end Stencil
