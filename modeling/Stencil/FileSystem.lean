import Stencil.FileSystem.Entry
/-!
# File systems

A file system is a tree of directories and files, with a current directory from which relative
paths are walked, on a disk that may refuse to be read or to take more bytes.  Each operation says how it
fails: a path is walked piece by piece, and the first piece that cannot be passed decides.  An operation
that fails changes nothing, with two exceptions: `makeDirectories` keeps the directories made before the
failure, and `write` leaves the first of the bytes where the disk takes no more.
-/

namespace Stencil

/-- Why an operation on files fails. -/
inductive FileFault where
  | notFound
  | alreadyExists
  | notADirectory
  | isADirectory
  | nameTooLong
  | nulByte
  | notUtf8
  | permissionDenied
  | noSpace
  /-- The entries of a directory cannot be listed. -/
  | unlisted (directory : Path) (cause : FileFault)
  | other (text : String)
deriving DecidableEq

def FileFault.message : FileFault → String
  | notFound => "No such file or directory (os error 2)"
  | alreadyExists => "File exists (os error 17)"
  | notADirectory => "Not a directory (os error 20)"
  | isADirectory => "Is a directory (os error 21)"
  | nameTooLong => "File name too long (os error 36)"
  | nulByte => "file name contained an unexpected NUL byte"
  | notUtf8 => "stream did not contain valid UTF-8"
  | permissionDenied => "Permission denied (os error 13)"
  | noSpace => "No space left on device (os error 28)"
  | unlisted directory cause => "IO error for operation on " ++ directory.text ++ ": " ++ cause.message
  | other text => text

/-- What the disk under a file system refuses. -/
structure Disk where
  /-- Why what is at a place cannot be read: a directory not listed, a file not opened. -/
  unreadable : Place → Option FileFault
  /-- Where a file cannot grow at will: how many bytes it can hold, and the fault of the next one. -/
  full : Place → Option (Nat × FileFault)

namespace Disk

/-- A disk that refuses nothing. -/
def healthy : Disk := ⟨fun _ => none, fun _ => none⟩

/-- The disk, where what is at a place cannot be read. -/
def refusing (disk : Disk) (place : Place) (fault : FileFault) : Disk :=
  { disk with unreadable := fun q => if q = place then some fault else disk.unreadable q }

/-- What a file holds once bytes are written to it from its start, and the fault if it does not hold
them all. -/
def store (disk : Disk) (place : Place) (content : ByteArray) : ByteArray × Option FileFault :=
  match disk.full place with
  | none => (content, none)
  | some (room, fault) =>
    if room < content.size then (content.extract 0 room, some fault) else (content, none)

end Disk

/-- A tree of entries and the current directory, on a disk. -/
structure FileSystem where
  root : Entry
  current : Place
  disk : Disk
  isRoot : root.isDirectory = true
  wellNamed : root.WellNamed

namespace FileSystem

/-! ## Walking -/

/-- Names of files have at most this many bytes. -/
def maxNameBytes : Nat := 255

/-- Paths have fewer bytes than this. -/
def maxPathBytes : Nat := 4096

/-- What is wrong with a path before any of it is walked. -/
def pathFault? (p : Path) : Option FileFault :=
  if p.text.toList.contains '\x00' then some .nulByte
  else if p.text = "" then some .notFound
  else if maxPathBytes ≤ p.text.utf8ByteSize then some .nameTooLong
  else none

/-- One piece further from a place, which must be a directory. -/
def step (root : Entry) (place : Place) (piece : String) : Except FileFault Place :=
  match root.get? place with
  | some (.directory children) =>
    if piece = "" || piece = "." then .ok place
    else if piece = ".." then .ok place.dropLast
    else if maxNameBytes < piece.utf8ByteSize then .error .nameTooLong
    else if (children.lookup piece).isSome then .ok (place ++ [piece])
    else .error .notFound
  | some (.file _) => .error .notADirectory
  | none => .error .notFound

/-- All pieces in turn. -/
def walk (root : Entry) : Place → List String → Except FileFault Place
  | place, [] => .ok place
  | place, piece :: pieces =>
    match step root place piece with
    | .ok place => walk root place pieces
    | .error fault => .error fault

/-- Where the walk of a path starts. -/
def start (fs : FileSystem) (p : Path) : Place := if p.isAbsolute then [] else fs.current

/-- The place that a path names where all that it passes are directories. -/
def placeOf (fs : FileSystem) (p : Path) : Place :=
  p.pieces.foldl (fun place piece =>
    if piece = "" || piece = "." then place
    else if piece = ".." then place.dropLast
    else place ++ [piece]) (fs.start p)

/-- The place that an existing path names. -/
def resolve (fs : FileSystem) (p : Path) : Except FileFault Place :=
  match pathFault? p with
  | some fault => .error fault
  | none => walk fs.root (fs.start p) p.pieces

/-- The entry that a path names. -/
def lookup (fs : FileSystem) (p : Path) : Except FileFault Entry :=
  match fs.resolve p with
  | .ok place =>
    match fs.root.get? place with
    | some e => .ok e
    | none => .error .notFound
  | .error fault => .error fault

def pathExists (fs : FileSystem) (p : Path) : Bool :=
  match fs.lookup p with
  | .ok _ => true
  | .error _ => false

def isDirectory (fs : FileSystem) (p : Path) : Bool :=
  match fs.lookup p with
  | .ok e => e.isDirectory
  | .error _ => false

/-! ## Reading -/

/-- The bytes of a file. -/
def read (fs : FileSystem) (p : Path) : Except FileFault ByteArray :=
  match fs.resolve p with
  | .error fault => .error fault
  | .ok place =>
    match fs.root.get? place, fs.disk.unreadable place with
    | none, _ => .error .notFound
    | some _, some fault => .error fault
    | some (.directory _), none => .error .isADirectory
    | some (.file content), none => .ok content

/-- The text of a file. -/
def readText (fs : FileSystem) (p : Path) : Except FileFault String :=
  match fs.read p with
  | .ok content =>
    match String.fromUTF8? content with
    | some text => .ok text
    | none => .error .notUtf8
  | .error fault => .error fault

/-- Why the entries of a directory cannot be listed, if they cannot. -/
def listingFault? (fs : FileSystem) (p : Path) : Option FileFault :=
  match fs.resolve p with
  | .error fault => some (.unlisted p fault)
  | .ok place => (fs.disk.unreadable place).map (.unlisted p)

/-! ## Changing -/

/-- Separators at the end do not count as pieces. -/
def dropTrailingEmpty (pieces : List String) : List String :=
  (pieces.reverse.dropWhile (· = "")).reverse

/-- Where a new entry of this path goes: the place of the directory and the name in it.  A path that
ends in `.` or `..` names no new entry, which is the fault `dots`; `slash` is the fault of a
separator at the end, if it is one. -/
def slot (fs : FileSystem) (p : Path) (dots : FileFault) (slash : Option FileFault) :
    Except FileFault (Place × FileName) :=
  match pathFault? p with
  | some fault => .error fault
  | none =>
    let pieces := dropTrailingEmpty p.pieces
    match walk fs.root (fs.start p) pieces.dropLast with
    | .error fault => .error fault
    | .ok place =>
      match fs.root.get? place, pieces.getLast? with
      | some (.file _), _ => .error .notADirectory
      | none, _ => .error .notFound
      | some (.directory _), none => .error dots
      | some (.directory _), some name =>
        if hname : Path.Ordinary name then
          if p.pieces.getLast? = some "" && slash.isSome then .error (slash.getD dots)
          else if maxNameBytes < name.utf8ByteSize then .error .nameTooLong
          else .ok (place, ⟨name, hname⟩)
        else .error dots

/-- The file system with an entry put into a directory that is there. -/
def put (fs : FileSystem) (place : Place) (name : FileName) (new : Entry) (hnew : new.WellNamed) :
    FileSystem :=
  { fs with
    root := Entry.set new (place ++ [name.val]) fs.root
    isRoot := (Entry.isDirectory_set new place name fs.root).trans fs.isRoot
    wellNamed := hnew.set fs.wellNamed name.property place }

/-- A new directory in an existing one. -/
def makeDirectory (fs : FileSystem) (p : Path) : Except FileFault FileSystem :=
  match fs.slot p .alreadyExists none with
  | .error fault => .error fault
  | .ok (place, name) =>
    if (fs.root.get? (place ++ [name.val])).isSome then .error .alreadyExists
    else .ok (fs.put place name (.directory []) Entry.wellNamed_empty)

/-- A file with this content, new or in place of the file of the same path.  The file is there and empty
before its first byte is written, so it stays behind where the disk does not take all of them. -/
def write (fs : FileSystem) (p : Path) (content : ByteArray) : FileSystem × Option FileFault :=
  match fs.slot p .isADirectory (some .isADirectory) with
  | .error fault => (fs, some fault)
  | .ok (place, name) =>
    match fs.root.get? (place ++ [name.val]) with
    | some (.directory _) => (fs, some .isADirectory)
    | _ =>
      let (stored, fault) := fs.disk.store (place ++ [name.val]) content
      (fs.put place name (.file stored) (Entry.wellNamed_file stored), fault)

/-- A fault that does not matter when a directory is wanted: it is there already. -/
def isThere (fs : FileSystem) (p : Path) (fault : FileFault) : Bool :=
  fault = .alreadyExists && fs.isDirectory p

/-- Upward from a path until a directory could be made or is there: the file system and the
directories still missing, outermost first. -/
def makeUpward (fs : FileSystem) : List Path → List Path → Except FileFault (FileSystem × List Path)
  | missing, [] => .ok (fs, missing)
  | missing, p :: outer =>
    if p.text = "" || p.parent?.isNone then .ok (fs, missing)
    else
      match fs.makeDirectory p with
      | .ok fs => .ok (fs, missing)
      | .error fault =>
        if fault = .notFound then makeUpward fs (p :: missing) outer
        else if fs.isThere p fault then .ok (fs, missing)
        else .error fault

/-- Downward over missing directories, outermost first; the first fault stops. -/
def makeDownward (fs : FileSystem) : List Path → FileSystem × Option FileFault
  | [] => (fs, none)
  | p :: inner =>
    match fs.makeDirectory p with
    | .ok fs => makeDownward fs inner
    | .error fault => if fs.isThere p fault then makeDownward fs inner else (fs, some fault)

/-- A directory with all the directories above it that are missing. -/
def makeDirectories (fs : FileSystem) (p : Path) : FileSystem × Option FileFault :=
  match fs.makeUpward [] p.ancestors with
  | .ok (fs, missing) => fs.makeDownward missing
  | .error fault => (fs, some fault)

/-- The file system without what a path names. -/
def remove (fs : FileSystem) (p : Path) : Except FileFault FileSystem :=
  match fs.resolve p with
  | .ok place =>
    .ok { fs with
      root := fs.root.erase place
      isRoot := (Entry.isDirectory_erase place fs.root).trans fs.isRoot
      wellNamed := fs.wellNamed.erase place }
  | .error fault => .error fault

/-- A file system on a healthy disk, with nothing in it. -/
def empty : FileSystem := ⟨.directory [], [], .healthy, rfl, Entry.wellNamed_empty⟩

/-- A file system that holds an empty current directory of this name. -/
def fresh (name : String) (hname : Path.Ordinary name := by decide) : FileSystem :=
  { empty.put [] ⟨name, hname⟩ (.directory []) Entry.wellNamed_empty with current := [name] }

end FileSystem

end Stencil
