import Datalog.Data.SortedMap
import Datalog.Files.Path
import Datalog.Text.Bytes

/-!
# File trees

A tree of directories and files as a map from locations to nodes; the root is always a directory. A
location is the list of names that lead to a node, so listing the map lists every directory before
what it holds. The operations meet the obstacles that a file system has: names that are missing,
taken or too long, paths that are too long, files where a directory is needed, and directories where
a file is.
-/

namespace Datalog

/-- What stands at a location. -/
inductive Node where
  | dir
  | file (bytes : List UInt8)
  deriving DecidableEq, Inhabited

/-- A node for each location that has one. -/
abbrev FileTree := SortedMap (List String) Node

/-- Why a file operation failed. -/
inductive FileError where
  | notFound
  | alreadyExists
  | other
  deriving DecidableEq

namespace FileTree

/-- The longest name, in bytes. -/
def maxNameLength : Nat := 255

/-- The node at a location. -/
def node? (t : FileTree) (loc : List String) : Option Node := if loc = [] then some .dir else t.get? loc

/-- The location of a name within a directory. -/
def child (loc : List String) (name : String) : Except FileError (List String) :=
  if name = ".." then .ok loc.dropLast
  else if maxNameLength < name.utf8ByteSize then .error .other
  else .ok (loc ++ [name])

/-- The directory with a given name within a directory. -/
def enter (t : FileTree) (loc : List String) (name : String) : Except FileError (List String) := do
  let loc ← child loc name
  match t.node? loc with
  | some .dir => return loc
  | some (.file _) => throw .other
  | none => throw .notFound

/-- The directory at the end of a list of components. -/
def walk (t : FileTree) (loc : List String) : List String → Except FileError (List String)
  | [] => .ok loc
  | name :: names => do walk t (← t.enter loc name) names

/-- The location that a path leads to: all but the last component have to be directories, and the last
one need not exist unless it has to be a directory too. -/
def locate (t : FileTree) (p : Path) : Except FileError (List String) :=
  if !p.isValid || Path.isTooLong p.components then .error .other
  else if p.endsInDirectory then t.walk [] p.components
  else
    match p.components.getLast? with
    | none => .ok []
    | some name => do child (← t.walk [] p.components.dropLast) name

/-- The node that a path leads to. -/
def find (t : FileTree) (p : Path) : Except FileError Node := do
  match t.node? (← t.locate p) with
  | some n => return n
  | none => throw .notFound

/-- Whether a path leads to something. -/
def has (t : FileTree) (p : Path) : Bool := (t.find p).toOption.isSome

/-- Creates the directories that are missing on the way along the components, up to an obstacle. -/
def makeDirsFrom (t : FileTree) (loc : List String) : List String → Except FileError Unit × FileTree
  | [] => (.ok (), t)
  | name :: names =>
    match child loc name with
    | .error e => (.error e, t)
    | .ok loc =>
      match t.node? loc with
      | some .dir => t.makeDirsFrom loc names
      | some (.file _) => (.error .other, t)
      | none => makeDirsFrom (t.insert loc .dir) loc names

/-- Creates a directory and all that are missing above it. -/
def makeDirs (t : FileTree) (components : List String) : Except FileError Unit × FileTree :=
  t.makeDirsFrom [] components

/-- Creates an empty file where nothing is. -/
def createNew (t : FileTree) (p : Path) : Except FileError FileTree := do
  let loc ← t.locate p
  match t.node? loc with
  | some _ => throw .alreadyExists
  | none => return t.insert loc (.file [])

/-- Writes a file, in place of one that is there. -/
def write (t : FileTree) (p : Path) (bytes : List UInt8) : Except FileError FileTree := do
  let loc ← t.locate p
  match t.node? loc with
  | some .dir => throw .other
  | _ => return t.insert loc (.file bytes)

/-- Opens a file to write behind what it holds. A file that is missing is created. -/
def openForAppend (t : FileTree) (p : Path) : Except FileError FileTree := do
  let loc ← t.locate p
  match t.node? loc with
  | some .dir => throw .other
  | some (.file _) => return t
  | none => return t.insert loc (.file [])

/-- The bytes of a file. -/
def read (t : FileTree) (p : Path) : Except FileError (List UInt8) := do
  match ← t.find p with
  | .file bytes => return bytes
  | .dir => throw .other

/-- Removes a file. -/
def removeFile (t : FileTree) (p : Path) : Except FileError FileTree := do
  let loc ← t.locate p
  match t.node? loc with
  | some (.file _) => return t.erase loc
  | some .dir => throw .other
  | none => throw .notFound

/-- The entries at and below a location. -/
def below (t : FileTree) (loc : List String) : List (List String × Node) :=
  t.toList.filter fun e => loc.isPrefixOf e.1

/-- The tree without what is at and below a location. -/
def eraseTree (t : FileTree) (loc : List String) : FileTree := t.filter fun l _ => !loc.isPrefixOf l

/-- Whether a directory holds nothing. -/
def isEmptyDir (t : FileTree) (loc : List String) : Bool := (t.below loc).length ≤ 1

/-- Moves what is at one location to another. -/
def move (t : FileTree) (source target : List String) : FileTree :=
  (t.below source).foldl (fun t e => t.insert (target ++ e.1.drop source.length) e.2)
    ((t.eraseTree source).erase target)

/-- Renames a file or a directory. A file may take the place of a file, and a directory that of a
directory which holds nothing. -/
def rename (t : FileTree) (source target : Path) : Except FileError FileTree := do
  let src ← t.locate source
  let dst ← t.locate target
  match t.node? src, t.node? dst with
  | none, _ => throw .notFound
  | some (.file _), some .dir => throw .other
  | some .dir, some (.file _) => throw .other
  | some .dir, some .dir =>
    if src = dst then return t
    else if t.isEmptyDir dst && !src.isPrefixOf dst then return t.move src dst
    else throw .other
  | some .dir, none => if src.isPrefixOf dst then throw .other else return t.move src dst
  | some (.file _), _ => if src = dst then return t else return t.move src dst

/-- The entries directly within a directory, by name. -/
def list (t : FileTree) (p : Path) : Except FileError (List (String × Node)) := do
  let loc ← t.locate p
  match t.node? loc with
  | some .dir =>
    return (t.below loc).filterMap fun (l, n) =>
      match l.drop loc.length with
      | [name] => some (name, n)
      | _ => none
  | some (.file _) => throw .other
  | none => throw .notFound

end FileTree

end Datalog
