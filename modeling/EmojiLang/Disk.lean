import EmojiLang.Text.Utf8

/-!
# Files and paths

A disk holds files and directories under their places; a place is the list of names that leads to it
from the working directory.  A path is a text with names divided by slashes.  It is resolved name by
name: every name but the last has to be a directory, `.` and an empty name stay where they are (and so
require a directory), and `..` goes up.  Names and paths may not be too long.

The directories above the working directory are named `..` in turn, and an absolute path begins at a
place of its own, named `/`.  These directories are always there, and nothing is known to be in them.

**Results.** `at?_put_self` says that a place just written holds what was written.
-/

namespace EmojiLang

/-- Why a file operation fails. -/
inductive FileError where
  | notFound
  | notDirectory
  | isDirectory
  | notText
  | nulByte
  | nameTooLong
deriving DecidableEq, Repr, Inhabited

namespace FileError

/-- The text of a failure. -/
def message : FileError → String
  | .notFound => "No such file or directory (os error 2)"
  | .notDirectory => "Not a directory (os error 20)"
  | .isDirectory => "Is a directory (os error 21)"
  | .notText => "stream did not contain valid UTF-8"
  | .nulByte => "file name contained an unexpected NUL byte"
  | .nameTooLong => "File name too long (os error 36)"

end FileError

/-- What stands at a place. -/
inductive Entry where
  | file (content : List UInt8)
  | directory
deriving DecidableEq, Repr, Inhabited

/-- The names that lead to a place. -/
abbrev Place := List String

namespace Place

/-- The directory above all others. -/
def top : Place := ["/"]

/-- The places that are always there: the working directory, those above it, and the top. -/
def isGiven (p : Place) : Bool := p.all (· == "..") || p == top

/-- The place above. -/
def parent (p : Place) : Place :=
  if p == top then top
  else if p.all (· == "..") then p ++ [".."]
  else p.dropLast

/-- A name that is no name of an entry: it leads to the place itself or to the one above. -/
def isStep (name : String) : Bool := name == "" || name == "." || name == ".."

/-- The place that a name leads to. -/
def next (p : Place) (name : String) : Place :=
  if name == ".." then parent p
  else if isStep name then p
  else p ++ [name]

end Place

namespace Path

/-- The texts between the slashes of a path. -/
def parts (path : String) : List String := (path.toList.splitOn '/').map String.ofList

/-- The names of a path, with the place where it begins. -/
def names (path : String) : Place × List String :=
  match parts path with
  | "" :: rest => if path.isEmpty then ([], [""]) else (Place.top, rest)
  | all => ([], all)

/-- The last name of a path, if it names a file: neither `.` nor a slash at the end count, and `..`
names none. -/
def fileName? (path : String) : Option String :=
  match ((names path).2.filter fun n => n != "" && n != ".").getLast? with
  | some ".." => none
  | other => other

/-- Splits a name at its last point.  A point at the front is part of the name. -/
def splitExtension (name : String) : String × Option String :=
  let reversed := name.toList.reverse
  let extension := reversed.takeWhile (· ≠ '.')
  match reversed.drop extension.length with
  | _ :: stem =>
      if stem.isEmpty then (name, none)
      else (String.ofList stem.reverse, some (String.ofList extension.reverse))
  | [] => (name, none)

/-- The extension of the file that a path names. -/
def extension? (path : String) : Option String :=
  (fileName? path).bind fun name => (splitExtension name).2

/-- The place that a path denotes if nothing is missing on the way. -/
def place (path : String) : Place :=
  let (start, all) := names path
  all.foldl Place.next start

/-- The path of a place. -/
def ofPlace : Place → String
  | "/" :: names => "/" ++ String.intercalate "/" names
  | names => String.intercalate "/" names

/-- A name in a directory. -/
def join (dir name : String) : String :=
  if dir.isEmpty then name
  else if dir.endsWith "/" then dir ++ name
  else dir ++ "/" ++ name

/-- The paths on the way to a path, from its first name on, and the path itself. -/
def along (path : String) : List String :=
  let all := parts path
  (List.range all.length).map fun n => String.intercalate "/" (all.take (n + 1))

/-- The largest number of bytes of a name. -/
def nameLimit : Nat := 255

/-- The number of bytes that a path has to stay below. -/
def pathLimit : Nat := 4096

/-- Why a path is refused before any of its names is looked at. -/
def refusal? (path : String) : Option FileError :=
  if path.isEmpty then some .notFound
  else if path.toList.contains '\x00' then some .nulByte
  else if pathLimit ≤ path.utf8ByteSize then some .nameTooLong
  else none

end Path

/-- Files and directories, each under its place.  Those of `Place.isGiven` are there without an entry. -/
structure Disk where
  entries : List (Place × Entry) := []
deriving DecidableEq, Repr, Inhabited

namespace Disk

/-- What stands at a place. -/
def at? (d : Disk) (p : Place) : Option Entry :=
  if Place.isGiven p then some .directory else d.entries.lookup p

/-- Puts an entry at a place, in place of what stood there. -/
def put (d : Disk) (p : Place) (e : Entry) : Disk :=
  ⟨(p, e) :: d.entries.filter fun other => other.1 != p⟩

/-- Removes what stands at a place. -/
def erase (d : Disk) (p : Place) : Disk :=
  ⟨d.entries.filter fun other => other.1 != p⟩

theorem at?_put_self (d : Disk) {p : Place} (e : Entry) (h : Place.isGiven p = false) :
    (d.put p e).at? p = some e := by
  simp [at?, put, h]

/-- Makes the directories on the way to a place. -/
def putParents (d : Disk) (p : Place) : Disk :=
  let make (d : Disk) (n : Nat) : Disk :=
    if (d.at? (p.take n)).isSome then d else d.put (p.take n) .directory
  (List.range p.length).foldl make d

/-- Adds a file, with the directories on the way to it. -/
def addFile (d : Disk) (path : String) (content : List UInt8) : Disk :=
  (d.putParents (Path.place path)).put (Path.place path) (.file content)

/-- Adds a directory, with the directories on the way to it. -/
def addDirectory (d : Disk) (path : String) : Disk :=
  let p := Path.place path
  if (d.at? p).isSome then d else (d.putParents p).put p .directory

section Resolution

/-- Goes from a place to one of its names. -/
def step (d : Disk) (p : Place) (name : String) : Except FileError Place :=
  match d.at? p with
  | none => .error .notFound
  | some (.file _) => .error .notDirectory
  | some .directory =>
      if Path.nameLimit < name.utf8ByteSize then .error .nameTooLong
      else if (d.at? (Place.next p name)).isSome then .ok (Place.next p name)
      else .error .notFound

/-- Goes from a place along several names. -/
def walk (d : Disk) : Place → List String → Except FileError Place
  | p, [] => .ok p
  | p, name :: rest =>
      match d.step p name with
      | .ok next => walk d next rest
      | .error e => .error e

/-- The place that a path leads to. -/
def resolve (d : Disk) (path : String) : Except FileError Place :=
  match Path.refusal? path with
  | some e => .error e
  | none =>
      let (start, names) := Path.names path
      d.walk start names

end Resolution

/-- The path leads to a file or a directory. -/
def contains (d : Disk) (path : String) : Bool :=
  match d.resolve path with
  | .ok _ => true
  | .error _ => false

/-- The bytes of a file. -/
def readBytes (d : Disk) (path : String) : Except FileError (List UInt8) :=
  match d.resolve path with
  | .error e => .error e
  | .ok p =>
      match d.at? p with
      | some (.file content) => .ok content
      | some .directory => .error .isDirectory
      | none => .error .notFound

/-- The text of a file. -/
def read (d : Disk) (path : String) : Except FileError String :=
  match d.readBytes path with
  | .error e => .error e
  | .ok bytes =>
      match Text.decode? bytes with
      | some text => .ok text
      | none => .error .notText

/-- The names in a directory, in no order that matters. -/
def list (d : Disk) (path : String) : Except FileError (List String) :=
  match d.resolve path with
  | .error e => .error e
  | .ok p =>
      match d.at? p with
      | some .directory =>
          .ok (d.entries.filterMap fun entry =>
            if !entry.1.isEmpty && entry.1.dropLast == p then entry.1.getLast? else none)
      | _ => .error .notDirectory

/-- Puts a file under a name of a place. -/
def putFile (d : Disk) (p : Place) (name text : String) : Except FileError Disk :=
  match d.at? p with
  | none => .error .notFound
  | some (.file _) => .error .notDirectory
  | some .directory =>
      if Place.isStep name then .error .isDirectory
      else if Path.nameLimit < name.utf8ByteSize then .error .nameTooLong
      else
        match d.at? (p ++ [name]) with
        | some .directory => .error .isDirectory
        | _ => .ok (d.put (p ++ [name]) (.file (Text.encode text)))

/-- Writes a text to a file, which is made if its directory exists. -/
def write (d : Disk) (path text : String) : Except FileError Disk :=
  match Path.refusal? path with
  | some e => .error e
  | none =>
      let (start, names) := Path.names path
      match d.walk start names.dropLast with
      | .error e => .error e
      | .ok parent => d.putFile parent (names.getLastD "") text

end Disk

end EmojiLang
