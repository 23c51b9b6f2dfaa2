import DotLang.CommandLine.Path
import DotLang.OrderedMap

/-!
# Working directory

A directory with files, as far as a program that reads one file and writes one
file can see it. Folders exist as far as files lie in them. Outside of the
directory only the folders above it are known, which hold nothing.
-/

namespace DotLang.CommandLine

/-- What a program finds at a path. -/
inductive Lookup where
  /-- There is nothing. -/
  | nothing
  /-- There is something that cannot be read as a file. -/
  | unreadable
  /-- A file with its bytes. -/
  | file (bytes : List UInt8)

/-- The files of a working directory by their paths in it, without steps up. -/
abbrev Directory := OrderedMap (List String) (List UInt8)

/-- A place inside the working directory, or below one of the folders above it. -/
structure Location where
  isOutside : Bool := false
  names : List String := []
deriving DecidableEq, Repr

namespace Directory

/-- The longest name of a file in bytes. -/
def maxNameSize : Nat := 255

/-- The directory with the given files. -/
def ofFiles (files : List (String × List UInt8)) : Directory :=
  OrderedMap.ofList (files.map fun (name, bytes) => ((Path.ofText name).names, bytes))

/-- What is at a place. -/
def contentAt (directory : Directory) (location : Location) : Lookup :=
  if location.names.isEmpty then .unreadable
  else if location.isOutside then .nothing
  else
    match directory.get? location.names with
    | some bytes => .file bytes
    | none =>
        if directory.keys.any fun names => location.names.isPrefixOf names then .unreadable
        else .nothing

/-- The place where one more name of a path leads, or why it leads nowhere. -/
def step (directory : Directory) (location : Location) (name : String) :
    Except Lookup Location :=
  match directory.contentAt location with
  | .unreadable =>
      if maxNameSize < Utf8.size name then .error .unreadable
      else if name = ".." then
        if location.names.isEmpty then .ok { isOutside := true }
        else .ok { location with names := location.names.dropLast }
      else .ok { location with names := location.names ++ [name] }
  | _ => .error .nothing

/-- The least size of a path in bytes that is too long. -/
def pathSizeLimit : Nat := 4096

/-- The place where a path leads, or why it leads nowhere. No path with a NUL leads anywhere, and
none that cannot be encoded. -/
def locate (directory : Directory) (path : Path) : Except Lookup Location :=
  if path.unencodable?.isSome || path.toText.contains '\x00' then .error .nothing
  else if pathSizeLimit ≤ Utf8.size path.toText then .error .unreadable
  else path.names.foldlM directory.step { isOutside := !path.root.isEmpty }

/-- What is at the end of a path. -/
def lookup (directory : Directory) (path : String) : Lookup :=
  match directory.locate (Path.ofText path) with
  | .ok location => directory.contentAt location
  | .error found => found

/-- The place of the file that is written to a path, if a file can be written there. -/
def target? (directory : Directory) (path : String) : Option Location :=
  match directory.locate (Path.ofText path) with
  | .ok location =>
      match directory.contentAt location with
      | .unreadable => none
      | _ => some location
  | .error _ => none

/-- The name of the new file that is written to a path, if it comes to lie in the directory. -/
def newName? (directory : Directory) (path : String) : Option String :=
  match directory.target? path with
  | some location =>
      if location.isOutside || directory.contains location.names then none
      else some ("/".intercalate location.names)
  | none => none

end Directory

end DotLang.CommandLine
