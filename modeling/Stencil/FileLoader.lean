import Stencil.FileTree
import Stencil.Template

/-!
# Templates in files

The file of a template is named after the template, its format and an extension, and is looked for under the roots in
their order. A name that is an absolute path is taken as it is.
-/

namespace Stencil

/-- Where the files of templates of one format are looked for, and how they are written. -/
structure FileLoader where
  roots : List String
  format : String
  extension : String
  markup : Markup

namespace FileLoader

variable {σ : Type}

/-- The name of the file of a template. -/
def fileName (files : FileLoader) (name : String) : String := name ++ "." ++ files.format ++ "." ++ files.extension

/-- The paths at which the file of a template may be, in their order. -/
def candidates (files : FileLoader) (name : String) : List String :=
  if isAbsolute (files.fileName name) then [files.fileName name]
  else files.roots.map fun root => joinPath root (files.fileName name)

/-- The path of the file of a template. -/
def path? (files : FileLoader) (tree : FileTree) (name : String) : Option String :=
  (files.candidates name).find? tree.isFile

/-- Reads the file of a template. -/
def read (files : FileLoader) (tree : FileTree) (name : String) : Except Error Source :=
  match files.path? tree name with
  | none => .error (.unknownTemplate files.roots name)
  | some path =>
    match tree.text? path with
    | none => .error (.unreadable path)
    | some text => .ok ⟨name, path, text, some path, tree.modified? path⟩

/-- The sources in files. -/
def sources (files : FileLoader) (tree : FileTree) : Sources σ where
  markup := files.markup
  source name := Load.ofExcept (files.read tree name)

/-- Reads and compiles the file of a template whenever it is asked for. -/
def loader (files : FileLoader) (tree : FileTree) : Loader σ := .direct (files.sources tree)

end FileLoader

/-- The time of a last change is later than the one noted, or none is noted. -/
def isLater (current noted : Option Int) : Bool :=
  match current, noted with
  | some current, some noted => noted < current
  | some _, none => true
  | none, _ => false

/-- The file has changed since it was read. A file that is gone has not. -/
def Dependency.isStale (tree : FileTree) (d : Dependency) : Bool :=
  d.path.any fun path => isLater (tree.modified? path) d.modified

end Stencil
