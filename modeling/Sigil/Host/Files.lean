import Sigil.Host.Basic
import Sigil.Host.Path
import Sigil.Text.Bytes

/-!
# Files

Reading a file by its path gives its bytes or tells why there are none. A `FileTree` is a file
system held as data; a path leads through it step by step.
-/

namespace Sigil

/-- Why a file could not be read. -/
inductive FileFault where
  | missing
  | isDirectory
  | notDirectory
  | nameTooLong
  | nulInName
  | notText
  | other (reason : String)
deriving DecidableEq, Repr

namespace FileFault

/-- The reason in words. -/
def reason : FileFault → String
  | .missing => "No such file or directory (os error 2)"
  | .isDirectory => "Is a directory (os error 21)"
  | .notDirectory => "Not a directory (os error 20)"
  | .nameTooLong => "File name too long (os error 36)"
  | .nulInName => "file name contained an unexpected NUL byte"
  | .notText => "stream did not contain valid UTF-8"
  | .other reason => reason

/-- The fault as a loader tells it. -/
def toLoadFailure : FileFault → LoadFailure
  | .missing => .notFound
  | fault => .unreadable fault.reason

end FileFault

/-- Gives the bytes of the file at a path. -/
abbrev Files := Text → Except FileFault (List UInt8)

namespace Files

/-- The text that bytes hold in UTF-8. -/
def decode (bytes : List UInt8) : Except FileFault Text :=
  match String.fromUTF8? ⟨bytes.toArray⟩ with
  | some s => .ok s.toList
  | none => .error .notText

/-- The text of the file at a path. -/
def readText (files : Files) (path : Text) : Except FileFault Text := do
  decode (← files path)

/-- Whether there is a file at a path. -/
def isFile (files : Files) (path : Text) : Bool :=
  (files path).isOk

/-- A loader that looks for sources below a directory. -/
def loader (files : Files) (root : Text) : Loader := fun name =>
  (files.readText (Path.join root name)).mapError FileFault.toLoadFailure

/-- The files whose reading is already known. -/
def ofList (known : List (Text × Except FileFault (List UInt8))) : Files := fun path =>
  (known.lookup path).getD (.error .missing)

end Files

/-- What a file tree has at a place. -/
inductive FileItem where
  | file (bytes : List UInt8)
  | directory
deriving DecidableEq, Repr

/-- A place as seen from the base of a file tree: some levels up, then down by names. -/
structure FilePlace where
  levelsUp : Nat := 0
  names : List Text := []
deriving DecidableEq, Repr

/-- Where one more part of a path leads, without regard to what exists. -/
def FilePlace.follow (place : FilePlace) (part : Text) : FilePlace :=
  if part ≠ ['.', '.'] then
    { place with names := place.names ++ [part] }
  else if place.names.isEmpty then
    { place with levelsUp := place.levelsUp + 1 }
  else
    { place with names := place.names.dropLast }

/-- The places that parts of a path lead through, the last of them apart. -/
def FilePlace.passed (place : FilePlace) : List Text → List FilePlace
  | [] => []
  | part :: parts => place :: (place.follow part).passed parts

/-- A file system around one directory, its base: items by their places. The base and what is above
it are directories and need not be listed. -/
structure FileTree where
  items : List (FilePlace × FileItem)
deriving DecidableEq, Repr

/-- What a path has led to. -/
inductive Location where
  | known (place : FilePlace)
  /-- The top of the file system, of which nothing is known but that it is a directory. -/
  | top
deriving DecidableEq, Repr

namespace FileTree

/-- A tree from paths and their items. What a path leads through are directories, also where it
leads back from them. -/
def ofList (items : List (Text × FileItem)) : FileTree :=
  ⟨items.flatMap fun (path, item) =>
    let parts := Path.steps path
    (parts.foldl FilePlace.follow {}, item)
      :: (FilePlace.passed {} parts).map fun place => (place, .directory)⟩

/-- What is at a place. -/
def item? (tree : FileTree) (place : FilePlace) : Option FileItem :=
  if place.names.isEmpty then some .directory else tree.items.lookup place

/-- The longest name, in bytes, that a part of a path may have. -/
def maxNameLength : Nat := 255

/-- The greatest length, in bytes, of a path. -/
def maxPathLength : Nat := 4095

/-- Goes one step from a directory. -/
def descend (tree : FileTree) (location : Location) (part : Text) : Except FileFault Location :=
  if Path.isIdle part then
    .ok location
  else if maxNameLength < Text.byteLength part then
    .error .nameTooLong
  else
    match location with
    | .top => if part = ['.', '.'] then .ok .top else .error .missing
    | .known place =>
      if (tree.item? (place.follow part)).isSome then .ok (.known (place.follow part))
      else .error .missing

/-- What is at a location. -/
def itemAt (tree : FileTree) : Location → FileItem
  | .top => .directory
  | .known place => (tree.item? place).getD .directory

/-- Goes one step, which is possible only from a directory. -/
def step (tree : FileTree) (location : Location) (part : Text) : Except FileFault Location :=
  match tree.itemAt location with
  | .file _ => .error .notDirectory
  | .directory => tree.descend location part

/-- Follows a path. -/
def locate (tree : FileTree) (path : Text) : Except FileFault Location :=
  if path.contains '\x00' then
    .error .nulInName
  else if path.isEmpty then
    .error .missing
  else if maxPathLength < Text.byteLength path then
    .error .nameTooLong
  else
    (Text.split '/' path).foldlM tree.step (if Path.isAbsolute path then .top else .known {})

/-- Reading files of the tree. -/
def files (tree : FileTree) : Files := fun path => do
  match tree.itemAt (← tree.locate path) with
  | .file bytes => .ok bytes
  | .directory => .error .isDirectory

end FileTree

end Sigil
