/-!
# File trees

A file tree holds files, with their bytes and the time of their last change in seconds, and directories. A path is
resolved from the working directory step by step: each of its parts but the last one has to lead into a directory, also
where a later `..` leads out of it again.
-/

namespace Stencil

/-- A file or a directory, by its last change. -/
inductive FileEntry
  | file (bytes : ByteArray) (modified : Int)
  | directory (modified : Int)

/-- The parts of an absolute path without dots. -/
abbrev Location := List String

/-- Files and directories. New directories are as old as the clock says. -/
structure FileTree where
  working : Location
  clock : Int
  entries : List (Location × FileEntry)

/-- The parts of a path. Two separators in a row enclose an empty part. -/
def pathParts (path : String) : List String := (path.toList.splitOn '/').map String.ofList

/-- The path starts at the root of all files. -/
def isAbsolute (path : String) : Bool := path.startsWith "/"

/-- A path below a directory. An absolute path is not changed, and an empty directory gives the bare path. -/
def joinPath (directory path : String) : String :=
  if isAbsolute path || directory.isEmpty then path
  else if directory.endsWith "/" then directory ++ path
  else directory ++ "/" ++ path

namespace FileTree

/-- What stands at a location. The root is a directory. -/
def entryAt? (t : FileTree) (l : Location) : Option FileEntry :=
  if l.isEmpty then some (.directory t.clock) else t.entries.lookup l

/-- There is a directory at the location. -/
def isDirectoryAt (t : FileTree) (l : Location) : Bool := (t.entryAt? l) matches some (.directory _)

/-- Where a path leads from a location. -/
def follow? (t : FileTree) : Location → List String → Option Location
  | l, [] => some l
  | l, part :: parts =>
    if t.isDirectoryAt l then
      match part with
      | "" | "." => follow? t l parts
      | ".." => follow? t l.dropLast parts
      | part => follow? t (l ++ [part]) parts
    else none

/-- Where a path leads. -/
def locate? (t : FileTree) (path : String) : Option Location :=
  if path.isEmpty then none
  else t.follow? (if isAbsolute path then [] else t.working) (pathParts path)

/-- What stands at the end of a path. -/
def look? (t : FileTree) (path : String) : Option FileEntry := (t.locate? path).bind t.entryAt?

/-- There is a file at the end of the path. -/
def isFile (t : FileTree) (path : String) : Bool := (t.look? path) matches some (.file _ _)

/-- The time of the last change of what stands at the end of a path. -/
def modified? (t : FileTree) (path : String) : Option Int :=
  match t.look? path with
  | some (.file _ modified) | some (.directory modified) => some modified
  | none => none

/-- The bytes of the file at the end of a path. -/
def bytes? (t : FileTree) (path : String) : Option ByteArray :=
  match t.look? path with
  | some (.file bytes _) => some bytes
  | _ => none

/-- The text of the file at the end of a path; none if its bytes are not UTF-8. -/
def text? (t : FileTree) (path : String) : Option String := (t.bytes? path).bind String.fromUTF8?

/-- Puts an entry at a location. -/
def put (t : FileTree) (l : Location) (e : FileEntry) : FileTree :=
  { t with entries := (l, e) :: t.entries.filter fun entry => entry.1 != l }

/-- Makes directories along the parts below a location, where there is nothing yet. -/
def makeBelow (t : FileTree) (l : Location) : List String → FileTree
  | [] => t
  | part :: parts =>
    let next := l ++ [part]
    makeBelow (if (t.entryAt? next).isSome then t else t.put next (.directory t.clock)) next parts

/-- Makes a directory and all that lead to it. -/
def makeDirectory (t : FileTree) (l : Location) : FileTree := t.makeBelow [] l

/-- The location of a path without dots below the working directory. -/
def below (t : FileTree) (path : String) : Location :=
  (pathParts path).foldl
    (fun l part => match part with | "" | "." => l | ".." => l.dropLast | part => l ++ [part])
    (if isAbsolute path then [] else t.working)

/-- Writes a file, and makes the directories that lead to it. -/
def write (t : FileTree) (path : String) (bytes : ByteArray) (modified : Int) : FileTree :=
  (t.makeDirectory (t.below path).dropLast).put (t.below path) (.file bytes modified)

/-- Removes the file at the end of a path. -/
def remove (t : FileTree) (path : String) : FileTree :=
  match t.locate? path with
  | some l => if t.isFile path then { t with entries := t.entries.filter fun entry => entry.1 != l } else t
  | none => t

/-- Nothing but the directories that lead to the working directory. -/
def empty (working : Location) (clock : Int) : FileTree := makeDirectory ⟨working, clock, []⟩ working

end FileTree

end Stencil
