import TableStore.Ensure
import TableStore.FileSystem.Path

namespace TableStore

namespace FileSystem

inductive Entry
  | directory
  | text (s : String)
  | binary (bytes : List UInt8)
  deriving DecidableEq

def Entry.isFile : Entry → Bool
  | .directory => false
  | _ => true

def Entry.ofBytes (bytes : List UInt8) : Entry :=
  match String.fromUTF8? ⟨bytes.toArray⟩ with
  | some s => .text s
  | none => .binary bytes

inductive Fault
  | notFound
  | exists
  | notDirectory
  | isDirectory
  | nameTooLong
  | nulInPath
  | notText
  deriving DecidableEq

def Fault.message : Fault → String
  | .notFound => "No such file or directory (os error 2)"
  | .exists => "File exists (os error 17)"
  | .notDirectory => "Not a directory (os error 20)"
  | .isDirectory => "Is a directory (os error 21)"
  | .nameTooLong => "File name too long (os error 36)"
  | .nulInPath => "file name contained an unexpected NUL byte"
  | .notText => "stream did not contain valid UTF-8"

/-- The names that lead to an entry from the working directory. Each step to a directory above that
one is a double dot; the top directory is `/`. -/
abbrev Location := List String

def maxNameSize : Nat := 255

def maxPathSize : Nat := 4095

/-- Whether a location leads up only, to a directory that is always there. -/
def isOutset (location : Location) : Bool := location.all (· = "..") || location = ["/"]

/-- One step up. The top is above itself. -/
def above (location : Location) : Location :=
  if location.all (· = "..") then location ++ [".."]
  else if location = ["/"] then location
  else location.dropLast

/-- A name that stands for a directory by its place alone, and cannot be given to a new entry. -/
def isPlace (name : String) : Bool := name = "." || name = ".." || name = "/"

end FileSystem

structure FileSystem where
  entries : List (FileSystem.Location × FileSystem.Entry)

namespace FileSystem

def empty : FileSystem := ⟨[]⟩

def lookup (files : FileSystem) (location : Location) : Option Entry :=
  if isOutset location then some .directory else files.entries.lookup location

def isDirectory (files : FileSystem) (location : Location) : Bool :=
  files.lookup location = some .directory

def put (files : FileSystem) (location : Location) (entry : Entry) : FileSystem :=
  ⟨(location, entry) :: files.entries.filter fun other ↦ other.1 ≠ location⟩

def remove (files : FileSystem) (location : Location) : FileSystem :=
  ⟨files.entries.filter fun other ↦ other.1 ≠ location⟩

def removeBelow (files : FileSystem) (location : Location) : FileSystem :=
  ⟨files.entries.filter fun other ↦ !location.isPrefixOf other.1⟩

/-- Goes along names from a location. Each step starts in a directory. -/
def walk (files : FileSystem) : Location → List String → Except Fault Location
  | location, [] => .ok location
  | location, name :: rest =>
    if !files.isDirectory location then .error .notDirectory
    else if name = "." then walk files location rest
    else if name = ".." then walk files (above location) rest
    else if maxNameSize < name.utf8ByteSize then .error .nameTooLong
    else if (files.lookup (location ++ [name])).isNone then .error .notFound
    else walk files (location ++ [name]) rest

def walkToLast (files : FileSystem) (names : List String) : Except Fault (Location × String) := do
  let location ← files.walk [] names.dropLast
  ensure (files.isDirectory location) .notDirectory
  return (location, names.getLastD ".")

def names (path : Path) : Except Fault (List String) :=
  if '\x00' ∈ path.text.toList then .error .nulInPath
  else if path.text = "" then .error .notFound
  else if maxPathSize < path.text.utf8ByteSize then .error .nameTooLong
  else .ok path.names

def find (files : FileSystem) (path : Path) : Except Fault (Location × Entry) := do
  let location ← files.walk [] (← names path)
  match files.lookup location with
  | some entry =>
    ensure (!(entry.isFile && path.endsInSlash)) .notDirectory
    return (location, entry)
  | none => throw .notFound

def entryExists (files : FileSystem) (path : Path) : Bool := (files.find path).isOk

def isFile (files : FileSystem) (path : Path) : Bool :=
  match files.find path with
  | .ok (_, entry) => entry.isFile
  | .error _ => false

def read (files : FileSystem) (path : Path) : Except Fault String := do
  match ← files.find path with
  | (_, .text s) => return s
  | (_, .binary _) => throw .notText
  | (_, .directory) => throw .isDirectory

def target (files : FileSystem) (path : Path) : Except Fault Location := do
  let (location, name) ← files.walkToLast (← names path)
  ensure (!(isPlace name || path.endsInSlash)) .isDirectory
  ensure (name.utf8ByteSize ≤ maxNameSize) .nameTooLong
  ensure (!files.isDirectory (location ++ [name])) .isDirectory
  return location ++ [name]

def write (files : FileSystem) (path : Path) (entry : Entry) : Except Fault FileSystem := do
  return files.put (← files.target path) entry

def removeFile (files : FileSystem) (path : Path) : Except Fault FileSystem := do
  let (location, entry) ← files.find path
  ensure entry.isFile .isDirectory
  return files.remove location

def removeDirectory (files : FileSystem) (path : Path) : Except Fault FileSystem := do
  let (location, entry) ← files.find path
  ensure (!entry.isFile) .notDirectory
  return files.removeBelow location

def nameIn? (directory : Location) (location : Location) : Option String :=
  if location.dropLast = directory then location.getLast? else none

def list (files : FileSystem) (path : Path) : Except Fault (List String) := do
  let (location, entry) ← files.find path
  ensure (!entry.isFile) .notDirectory
  return files.entries.filterMap fun other ↦ nameIn? location other.1

def makeDirectory (files : FileSystem) (names : List String) : Except Fault FileSystem := do
  let (location, name) ← files.walkToLast names
  ensure (!isPlace name) .exists
  ensure (name.utf8ByteSize ≤ maxNameSize) .nameTooLong
  ensure (files.lookup (location ++ [name])).isNone .exists
  return files.put (location ++ [name]) .directory

/-- Makes the directory that names lead to, unless it is there. -/
def provideDirectory (files : FileSystem) (names : List String) : Except Fault FileSystem :=
  match files.makeDirectory names with
  | .error .exists =>
    match files.walk [] names with
    | .ok location => if files.isDirectory location then .ok files else .error .exists
    | .error _ => .error .exists
  | result => result

/-- Makes the directory that the first names lead to. If part of the way is missing it makes those
above first, which stay when it fails. -/
def provideAll (files : FileSystem) : List (List String) → FileSystem × Option Fault
  | [] => (files, none)
  | names :: higher =>
    match files.provideDirectory names with
    | .ok files => (files, none)
    | .error .notFound =>
      match files.provideAll higher with
      | (files, none) =>
        match files.provideDirectory names with
        | .ok files => (files, none)
        | .error fault => (files, some fault)
      | failed => failed
    | .error fault => (files, some fault)

def createDirectories (files : FileSystem) (path : Path) : FileSystem × Option Fault :=
  if path.text = "" then (files, none)
  else
    match names path with
    | .ok _ => files.provideAll path.ascent
    | .error fault => (files, some fault)

end FileSystem

end TableStore
