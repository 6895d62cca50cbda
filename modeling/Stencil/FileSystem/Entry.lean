import Stencil.KeyedList
import Stencil.Path
import Stencil.Sorted
/-!
# Entries

A file with its bytes, or a directory with its entries.  In an entry that is named well each directory has
its entries sorted, each under a name that can stand in a path.  Putting an entry at a place, and taking
away what is there, keep that.

    new.WellNamed → e.WellNamed → Ordinary name → (set new (place ++ [name]) e).WellNamed
    e.WellNamed → (erase place e).WellNamed
-/

namespace Stencil

open Stencil.Path (Ordinary)

/-- A file with its bytes, or a directory with its entries sorted by name. -/
inductive Entry where
  | file (content : ByteArray)
  | directory (children : List (String × Entry))

/-- The place of an entry: the names on the way from the root. -/
abbrev Place := List String

/-- A name that an entry of a directory can have. -/
abbrev FileName := { name : String // Ordinary name }

namespace Entry

/-! ## Algorithm -/

instance : Inhabited Entry := ⟨.directory []⟩

def isDirectory : Entry → Bool
  | .directory _ => true
  | .file _ => false

/-- The entries of a directory; a file has none. -/
def children : Entry → List (String × Entry)
  | .directory children => children
  | .file _ => []

/-- The entry at a place below. -/
def get? : Place → Entry → Option Entry
  | [], e => some e
  | name :: place, e => (e.children.lookup name).bind (get? place)

/-- The tree with an entry put at a place; the directories on the way must exist. -/
def set (new : Entry) : Place → Entry → Entry
  | [], _ => new
  | _ :: _, .file content => .file content
  | [name], .directory children => .directory (Sorted.put name new children)
  | name :: place, .directory children =>
    match children.lookup name with
    | some child => .directory (Sorted.put name (set new place child) children)
    | none => .directory children

/-- The tree without the entry at a place. -/
def erase : Place → Entry → Entry
  | [], e => e
  | _ :: _, .file content => .file content
  | [name], .directory children => .directory (Sorted.erase name children)
  | name :: place, .directory children =>
    match children.lookup name with
    | some child => .directory (Sorted.put name (erase place child) children)
    | none => .directory children

/-! ## Names -/

mutual

/-- The names in a directory increase, and each can be the name of an entry. -/
def WellNamed : Entry → Prop
  | .file _ => True
  | .directory children => (children.map Prod.fst).Pairwise (· < ·) ∧ AllWellNamed children

def AllWellNamed : List (String × Entry) → Prop
  | [] => True
  | (name, e) :: es => Ordinary name ∧ WellNamed e ∧ AllWellNamed es

end

mutual

def decideWellNamed : (e : Entry) → Decidable e.WellNamed
  | .file _ => isTrue trivial
  | .directory children =>
    @instDecidableAnd _ _ inferInstance (decideAllWellNamed children)

def decideAllWellNamed : (es : List (String × Entry)) → Decidable (AllWellNamed es)
  | [] => isTrue trivial
  | (_, e) :: es =>
    @instDecidableAnd _ _ inferInstance
      (@instDecidableAnd _ _ (decideWellNamed e) (decideAllWellNamed es))

end

instance (e : Entry) : Decidable e.WellNamed := decideWellNamed e

theorem wellNamed_file (content : ByteArray) : (file content).WellNamed := trivial

theorem wellNamed_empty : (directory []).WellNamed := ⟨List.Pairwise.nil, trivial⟩

theorem allWellNamed_iff {es : List (String × Entry)} :
    AllWellNamed es ↔ ∀ e ∈ es, Ordinary e.1 ∧ e.2.WellNamed := by
  induction es with
  | nil => simp [AllWellNamed]
  | cons e es ih =>
    rw [AllWellNamed, ih, List.forall_mem_cons, and_assoc]

theorem AllWellNamed.of_mem {es : List (String × Entry)} (h : AllWellNamed es) {name : String}
    {e : Entry} (hmem : (name, e) ∈ es) : Ordinary name ∧ e.WellNamed :=
  allWellNamed_iff.1 h (name, e) hmem

section
variable {es : List (String × Entry)} {name : String} {e : Entry}

theorem wellNamed_put (hes : (directory es).WellNamed) (hname : Ordinary name) (he : e.WellNamed) :
    (directory (Sorted.put name e es)).WellNamed := by
  refine ⟨Sorted.pairwise_put hes.1, allWellNamed_iff.2 fun x hx => ?_⟩
  rcases Sorted.mem_put hx with rfl | hx
  · exact ⟨hname, he⟩
  · exact allWellNamed_iff.1 hes.2 x hx

theorem wellNamed_erase (hes : (directory es).WellNamed) :
    (directory (Sorted.erase name es)).WellNamed := by
  have hsub : List.Sublist (Sorted.erase name es) es := List.filter_sublist
  exact ⟨hes.1.sublist (hsub.map Prod.fst),
    allWellNamed_iff.2 fun x hx => allWellNamed_iff.1 hes.2 x (hsub.mem hx)⟩

end

/-! ## Changes at a place -/

/-- Only the last name is new: those on the way stand in the tree. -/
theorem WellNamed.set {new e : Entry} (hnew : new.WellNamed) (he : e.WellNamed) {name : String}
    (hname : Ordinary name) (place : Place) : (set new (place ++ [name]) e).WellNamed := by
  induction place generalizing e with
  | nil =>
    cases e with
    | file content => exact trivial
    | directory children => exact wellNamed_put he hname hnew
  | cons first place ih =>
    cases e with
    | file content => exact trivial
    | directory children =>
      rw [List.cons_append, Entry.set]
      · split
        · next child hlookup =>
          obtain ⟨hfirst, hchild⟩ := he.2.of_mem (KeyedList.mem_of_lookup hlookup)
          exact wellNamed_put he hfirst (ih hchild)
        · exact he
      · simp

theorem WellNamed.erase {e : Entry} (he : e.WellNamed) (place : Place) : (erase place e).WellNamed := by
  induction place generalizing e with
  | nil => exact he
  | cons name place ih =>
    cases e with
    | file content => exact trivial
    | directory children =>
      cases place with
      | nil => exact wellNamed_erase he
      | cons next place =>
        rw [Entry.erase]
        · split
          · next child hlookup =>
            obtain ⟨hname, hchild⟩ := he.2.of_mem (KeyedList.mem_of_lookup hlookup)
            exact wellNamed_put he hname (ih hchild)
          · exact he
        · simp

/-- A change below a directory leaves it a directory. -/
theorem isDirectory_set (new : Entry) (place : Place) (name : String) (e : Entry) :
    (set new (place ++ [name]) e).isDirectory = e.isDirectory := by
  cases e with
  | file content => cases place <;> rfl
  | directory children =>
    cases place with
    | nil => rfl
    | cons first place =>
      rw [List.cons_append, Entry.set]
      · split <;> rfl
      · simp

theorem isDirectory_erase (place : Place) (e : Entry) : (erase place e).isDirectory = e.isDirectory := by
  cases e with
  | file content => cases place <;> rfl
  | directory children =>
    cases place with
    | nil => rfl
    | cons first place =>
      cases place with
      | nil => rfl
      | cons next place =>
        rw [Entry.erase]
        · split <;> rfl
        · simp

end Entry

end Stencil
