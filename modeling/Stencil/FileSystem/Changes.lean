import Stencil.FileSystem
/-!
# Changes

What differs between two trees of entries, in the order of the paths.
-/

namespace Stencil.Entry

/-- What became of an entry. -/
inductive Change where
  | madeDirectory
  /-- A new file, or one with another content. -/
  | written (content : ByteArray)
  | removed

mutual

/-- Every place below an entry, with what is there; each directory before its entries. -/
def listing (place : Place) : Entry → List (Place × Entry)
  | .file _ => []
  | .directory children => listingAll place children

def listingAll (place : Place) : List (String × Entry) → List (Place × Entry)
  | [] => []
  | (name, e) :: es =>
    (place ++ [name], e) :: (listing (place ++ [name]) e ++ listingAll place es)

end

/-- A place as a path from the entry where it starts. -/
def pathOf (place : Place) : String := "/".intercalate place

/-- What becomes of an entry that is new or was another before. -/
def changeTo? (old : Option Entry) : Entry → Option Change
  | .directory _ => if old.any isDirectory then none else some .madeDirectory
  | .file content =>
    match old with
    | some (.file before) => if before.data = content.data then none else some (.written content)
    | _ => some (.written content)

/-- What is new or different in the second of two trees. -/
def additions (before after : Entry) : List (String × Change) :=
  (after.listing []).filterMap fun (place, e) =>
    (changeTo? (before.get? place) e).map fun change => (pathOf place, change)

/-- What is missing in the second of two trees. -/
def removals (before after : Entry) : List (String × Change) :=
  (before.listing []).filterMap fun (place, _) =>
    if (after.get? place).isSome then none else some (pathOf place, .removed)

/-- All differences between two trees, sorted by path. -/
def changes (before after : Entry) : List (String × Change) :=
  Sorted.ofList (additions before after ++ removals before after)

end Stencil.Entry
