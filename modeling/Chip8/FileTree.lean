import Chip8.Rom

/-! # Files by path

A file tree is the content of a working directory: files by relative name, with the directories
that their names lead through. A path is looked up component by component; every component before
the last has to lead to a directory. Paths and components have a greatest size. Nothing is known of
what lies outside of the working directory.
-/

namespace Chip8

/-- Files by relative name; of several files at one place the last one counts. -/
structure FileTree where
  files : List (String × List UInt8)

namespace FileTree

/-- Where a lookup has arrived. -/
inductive Place where
  /-- A directory of the tree, by the components of its name. -/
  | directory (components : List String)
  | file (content : List UInt8)
  /-- A directory around the working directory. -/
  | outside

/-- Goes on by one component of a name. -/
def follow (above : List String) : String → List String
  | "" | "." => above
  | ".." => above.dropLast
  | component => above ++ [component]

/-- The place that the components of a relative name, or the first ones of them, lead to. -/
def arrive (components : List String) : List String := components.foldl follow []

/-- The place of the file of a name. -/
def fileOf (name : String) : List String := arrive (name.splitOn "/")

/-- The places of the directories that a name leads through. -/
def directoriesOf (name : String) : List (List String) :=
  let components := name.splitOn "/"
  (List.range components.length).map fun count => arrive (components.take count)

/-- What lies at a place of the tree. -/
def find? (tree : FileTree) (wanted : List String) : Option Place :=
  match tree.files.reverse.find? fun (name, _) => fileOf name == wanted with
  | some (_, content) => some (.file content)
  | none =>
    if tree.files.any fun (name, _) => (directoriesOf name).contains wanted then
      some (.directory wanted)
    else none

/-- The greatest number of bytes of a component. -/
def maxComponentSize : Nat := 255

/-- The greatest number of bytes of a path. -/
def maxPathSize : Nat := 4095

/-- Why a directory has nothing under a component. -/
def absence (component : String) : ReadError :=
  if maxComponentSize < component.utf8ByteSize then .nameTooLong else .missing

/-- Goes on by one component. -/
def enter (tree : FileTree) (place : Place) (component : String) : Except ReadError Place :=
  match place, component with
  | .file _, _ => .error .notDirectory
  | .outside, "" | .outside, "." | .outside, ".." => .ok .outside
  | .outside, component => .error (absence component)
  | .directory [], ".." => .ok .outside
  | .directory above, "" | .directory above, "." | .directory above, ".." =>
    .ok (.directory (follow above component))
  | .directory above, component =>
    match tree.find? (above ++ [component]) with
    | some place => .ok place
    | none => .error (absence component)

/-- Where a path starts. -/
def start (path : String) : Place := if path.startsWith "/" then .outside else .directory []

/-- The content of the file at a path. -/
def read (tree : FileTree) (path : String) : Except ReadError (List UInt8) :=
  if path.toList.contains '\x00' then .error .nulInName
  else if path = "" then .error .missing
  else if maxPathSize < path.utf8ByteSize then .error .nameTooLong
  else
    match (path.splitOn "/").foldlM tree.enter (start path) with
    | .ok (.file content) => .ok content
    | .ok (.directory _) | .ok .outside => .error .isDirectory
    | .error cause => .error cause

end FileTree

end Chip8
