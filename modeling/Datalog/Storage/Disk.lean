import Datalog.Files
import Datalog.Error

/-!
# Staged writes

A file is written beside its place and then renamed into it. The file beside it must not be there
already: one that is belongs to another writer. Whatever fails after it was created removes it again,
so a write either replaces its target or leaves everything but new directories as it was.
-/

namespace Datalog

/-- An action on a file tree, which keeps what it did to the tree when it fails. -/
abbrev Disk := ExceptT StoreError (StateM FileTree)

namespace Disk

/-- Runs an operation that leaves the tree alone when it fails. -/
def attempt (f : FileTree → Except FileError FileTree) : Disk Unit := fun t =>
  match f t with
  | .ok t => (.ok (), t)
  | .error _ => (.error .file, t)

/-- Reads something from the tree. -/
def query {α : Type} (f : FileTree → α) : Disk α := fun t => (.ok (f t), t)

/-- Creates the directories that are missing along components. -/
def makeDirsAlong (components : List String) : Disk Unit := fun t =>
  if !Path.isValid components || Path.isTooLong components then (.error .file, t)
  else
    match t.makeDirs components with
    | (.ok (), t) => (.ok (), t)
    | (.error _, t) => (.error .file, t)

/-- Creates a directory and all that are missing above it. -/
def makeDirs (p : Path) : Disk Unit := makeDirsAlong p.components

/-- Creates the directory that a file is to lie in, and all that are missing above it. -/
def makeParent (p : Path) : Disk Unit := makeDirsAlong p.components.dropLast

/-- Creates a staging file, which must not be there yet. -/
def createStaging (p : Path) : Disk Unit := fun t =>
  match t.createNew p with
  | .ok t => (.ok (), t)
  | .error .alreadyExists => (.error (.concurrentWrite p.text), t)
  | .error _ => (.error .file, t)

/-- Removes a file, if it is there. -/
def removeIfPresent (p : Path) : Disk Unit := attempt fun t =>
  match t.removeFile p with
  | .error .notFound => .ok t
  | r => r

/-- Puts a file into the place of another, which is removed first. -/
def replaceFile (source target : Path) : Disk Unit := do
  removeIfPresent target
  attempt (·.rename source target)

/-- Fills a staging file and puts it into the place of the target. -/
def fillAndReplace (staging target : Path) (bytes : List UInt8) : Disk Unit := do
  attempt (·.write staging bytes)
  replaceFile staging target

/-- Fills a staging file and puts it into the place of the target, or else removes it. -/
def commit (staging target : Path) (bytes : List UInt8) : Disk Unit := fun t =>
  match fillAndReplace staging target bytes t with
  | (.ok (), t) => (.ok (), t)
  | (.error e, t) => (.error e, (removeIfPresent staging t).2)

/-- Writes the target by way of a staging file. The directories of both are created first. -/
def writeStaged (stagingDir staging target : Path) (bytes : List UInt8) : Disk Unit := do
  makeDirs stagingDir
  makeParent target
  createStaging staging
  commit staging target bytes

end Disk

end Datalog
