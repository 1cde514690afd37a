import Stencil.CommandLine

/-!
# The program

Reads the files that a command line is about, runs it on them, and prints what that gives.
-/

namespace Stencil

/-- Reads a file into a tree, if there is one. -/
def readInto (tree : FileTree) (path : String) : IO FileTree := do
  try
    return tree.write path (← IO.FS.readBinFile path) 0
  catch _ => return tree

/-- Reads all files below a directory into a tree. -/
def readBelow (tree : FileTree) (directory : String) : IO FileTree := do
  let here ← IO.currentDir
  let mut tree := tree
  let mut waiting := [if directory.isEmpty then "." else directory]
  repeat
    match waiting with
    | [] => break
    | next :: rest =>
      waiting := rest
      tree := tree.makeDirectory (tree.below next)
      let found : Array IO.FS.DirEntry ← try (here / next).readDir catch _ => pure #[]
      for e in found do
        let path := joinPath next e.fileName
        if ← e.path.isDir then waiting := path :: waiting else tree ← readInto tree path
  return tree

/-- The files that a command line is about: those that it names, and those below the roots of its settings. -/
def readFor (tree : FileTree) (i : CommandLine.Invocation) : IO FileTree := do
  let named := match i.action with
    | .render _ data | .renderText _ data => data.toList
    | .convert path _ | .tokens path => [path]
    | .compile _ => []
  let mut tree := tree
  for path in i.config.toList.flatMap (fun path => [path, path ++ ".toml"]) ++ named do
    tree ← readInto tree path
  match i.settings tree with
  | .error _ => return tree
  | .ok s =>
    for root in s.roots do
      tree ← readBelow tree root
    return tree

end Stencil

open Stencil in
/-- Runs the command line given. -/
def main (arguments : List String) : IO UInt32 := do
  let working := (pathParts (← IO.currentDir).toString).filter (· ≠ "")
  let bare := FileTree.empty working 0
  let tree ← match CommandLine.Invocation.ofArguments? arguments with
    | none => pure bare
    | some i => readFor bare i
  let outcome := CommandLine.run tree arguments
  IO.print outcome.output
  unless outcome.complaint.isEmpty do
    IO.eprintln outcome.complaint
  return UInt32.ofNat outcome.code
