import Datalog.Text.Split

/-!
# Paths

A path is the list of the names that were pushed onto it, one after the other. A name may itself
hold slashes, and one that starts with a slash leaves out all that came before it; so a path has a
text and a list of components, both computed from the names.
-/

namespace Datalog

/-- The names pushed onto a path, first to last. -/
abbrev Path := List String

namespace Path

/-- Whether a name starts at the root. -/
def isAbsolute (name : String) : Bool := name.toList.head? == some '/'

/-- The text of a path with a further name. -/
def joinText (left name : String) : String :=
  if isAbsolute name then name
  else if left.isEmpty || left.toList.getLast? == some '/' then left ++ name
  else left ++ "/" ++ name

/-- The text of a path: names are divided by one slash. -/
def text : Path → String
  | [] => ""
  | name :: names => names.foldl joinText name

/-- The components of one name: empty ones and single dots count for nothing. -/
def nameComponents (name : String) : List String :=
  ((Text.splitOn '/' name.toList).map String.ofList).filter fun c => c ≠ "" && c ≠ "."

/-- The components that lead to the end of a path. -/
def components (p : Path) : List String :=
  p.foldl (fun cs name => if isAbsolute name then nameComponents name else cs ++ nameComponents name) []

/-- Whether a name can stand in a path of a file system. -/
def isValid (p : Path) : Bool := p.all fun name => name.toList.all (· ≠ '\x00')

/-- Whether a path can only lead to a directory: its text ends in a slash, or in a single dot. -/
def endsInDirectory (p : Path) : Bool :=
  let last := (Text.splitOn '/' p.text.toList).getLast?
  last == some [] || last == some ['.']

/-- The longest path, in bytes. -/
def maxLength : Nat := 4095

/-- Whether the components of a path, with a slash before each, are more bytes than a path may have. -/
def isTooLong (components : List String) : Bool :=
  maxLength < components.foldr (fun c n => c.utf8ByteSize + 1 + n) 0

end Path

end Datalog
