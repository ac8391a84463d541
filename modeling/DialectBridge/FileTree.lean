import DialectBridge.Fault
import DialectBridge.Table
import DialectBridge.Utf8

/-!
# Files below a directory

A file tree is what can be read from one directory: files with their contents, named by the
directories that lead to them. A name is followed part by part. Empty parts and single dots stay
where they are, two dots go up, and every other part has to be a file or a directory of the tree; a
file can only be the last part. Above the directory, and at the root to which absolute names go,
nothing is known.
-/

set_option autoImplicit false

namespace DialectBridge

/-- Files with their contents, each named by the parts of its path. -/
structure FileTree where
  files : Table (List Text) (List UInt8) := {}

namespace FileTree

/-- The largest number of bytes in a part of a name. -/
def partLimit : Nat := 255

/-- The largest number of bytes in a name. -/
def nameLimit : Nat := 4095

/-- A part that leads nowhere else. -/
def staysHere (part : Text) : Bool := part.isEmpty || part == ['.']

/-- A part that leads up. -/
def goesUp (part : Text) : Bool := part == ['.', '.']

/-- The parts of a path within the tree, without detours. -/
def pathOf (name : Text) : List Text :=
  (Text.splitOn '/' name).foldl (fun path part =>
    if staysHere part then path else if goesUp part then path.dropLast else path ++ [part]) []

/-- The tree with the given files, the later one where two have the same path. -/
def ofList (files : List (String × List UInt8)) : FileTree :=
  ⟨.ofList (files.map fun file => (pathOf file.1.toList, file.2))⟩

/-- Whether a path is that of a directory of the tree. -/
def isDirectory (tree : FileTree) (path : List Text) : Bool :=
  tree.files.keys.any fun file => path.isPrefixOf file && path != file

/-- Follows the parts of a name from a directory of the tree, or from outside of it. -/
def follow (tree : FileTree) (here : Option (List Text)) : List Text → Except FileFlaw (List UInt8)
  | [] => .error .isDirectory
  | part :: rest =>
    if staysHere part then tree.follow here rest
    else if goesUp part then
      tree.follow (here.bind fun path => if path.isEmpty then none else some path.dropLast) rest
    else if partLimit < (Utf8.encode part).length then .error .nameTooLong
    else
      match here with
      | none => .error .missing
      | some path =>
        let path := path ++ [part]
        match tree.files.get? path with
        | some content => if rest.isEmpty then .ok content else .error .throughFile
        | none => if tree.isDirectory path then tree.follow (some path) rest else .error .missing

/-- The content of the file with a name. -/
def read (tree : FileTree) (name : String) : Except FileFlaw (List UInt8) :=
  let t := name.toList
  if t.contains '\x00' then .error .nullCharacter
  else if nameLimit < name.utf8ByteSize then .error .nameTooLong
  else tree.follow (if t.head? == some '/' then none else some []) (Text.splitOn '/' t)

end FileTree

end DialectBridge
