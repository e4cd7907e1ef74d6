import Codegen.CommandLine.Run

namespace Codegen.CommandLine

/-- A place in the tree: the names that lead to it from the root. -/
abbrev Place := List String

/-- What lies at a place. -/
inductive Entry where
  | file (contents : ByteArray)
  /-- A file that swallows everything and holds nothing. -/
  | sink
  | directory
  | vacant

/-- Files by place. -/
structure FileTree where
  files : List (Place × ByteArray) := []

namespace FileTree

/-- The directory in which paths start that do not start at the root. -/
def home : Place := ["tmp", "work"]

/-- The place of the sink. -/
def sinkPlace : Place := ["dev", "null"]

/-- What lies at a place. A directory exists when something lies in it; the home always exists. -/
def entry (t : FileTree) (place : Place) : Entry :=
  match t.files.lookup place with
  | some contents => .file contents
  | none =>
    if place = sinkPlace then .sink
    else if (home :: sinkPlace :: t.files.map Prod.fst).any place.isPrefixOf then .directory
    else .vacant

/-- The most bytes of a name. -/
def nameLimit : Nat := 255

/-- The most bytes of a path. -/
def pathLimit : Nat := 4095

/-- Follows one name from a place, which has to be a directory. The root is its own parent. -/
def step (t : FileTree) (place : Place) (name : String) : Except FileError Place :=
  match t.entry place with
  | .file _ | .sink => .error .notDirectory
  | .vacant => .error .notFound
  | .directory =>
    if name = "." then .ok place
    else if name = ".." then .ok place.dropLast
    else if nameLimit < name.utf8ByteSize then .error .nameTooLong
    else .ok (place ++ [name])

/-- Where a path starts. -/
def start (path : String) : Place :=
  if path.startsWith "/" then [] else home

/-- The names in a path. Slashes in a row count as one. -/
def names (path : String) : List String :=
  (path.splitOn "/").filter fun name => !name.isEmpty

/-- Follows the names of a path. -/
def walk (t : FileTree) (path : String) (names : List String) : Except FileError Place :=
  if pathLimit < path.utf8ByteSize then .error .nameTooLong
  else names.foldlM t.step (start path)

/-- The contents of a file. A slash at the end of a path asks for a directory. -/
def read (t : FileTree) (path : String) : Except FileError ByteArray := do
  match t.entry (← t.walk path (names path)), path.endsWith "/" with
  | .file contents, false => return contents
  | .sink, false => return ByteArray.empty
  | .file _, true | .sink, true => throw .notDirectory
  | .directory, _ => throw .isDirectory
  | .vacant, _ => throw .notFound

/-- Puts a file in place of what the place held before. -/
def put (t : FileTree) (place : Place) (text : String) : FileTree :=
  { t with files := (place, text.toUTF8) :: t.files.filter fun f => f.1 != place }

/-- Writes a file, instead of what it held before. A slash at the end of a path makes it the path of
a directory, whatever its last name leads to. -/
def write (t : FileTree) (path text : String) : Except FileError FileTree := do
  if path.endsWith "/" then
    let _ ← t.walk path ((names path).dropLast ++ ["."])
    throw .isDirectory
  else
    let place ← t.walk path (names path)
    match t.entry place with
    | .file _ | .vacant => return t.put place text
    | .sink => return t
    | .directory => throw .isDirectory

/-- A tree with some files in its home. -/
def ofFiles (files : List (String × ByteArray)) : FileTree :=
  { files := files.map fun (path, contents) => (home ++ names path, contents) }

/-- The files in the home, by their paths from there. -/
def homeFiles (t : FileTree) : List (String × ByteArray) :=
  t.files.filterMap fun (place, contents) =>
    if home.isPrefixOf place then some ("/".intercalate (place.drop home.length), contents)
    else none

/-- File operations on a tree in memory. -/
def access : Files (StateM FileTree) where
  read path := do return (← get).read path
  write path text := do
    match (← get).write path text with
    | .ok t =>
      set t
      return .ok ()
    | .error e => return .error e

end FileTree

end Codegen.CommandLine
