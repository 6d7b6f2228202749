import Datalog.Data.SortedSet
import Datalog.Term

/-!
# Tuples and relations

A tuple is a list of terms, one per column; a relation is a finite set of tuples listed in the
order of terms. Nothing forces the tuples of a relation to have one arity: the operations that
need it say so (`Relation.HasArity`).
-/

namespace Datalog

/-- A row: one term per column. -/
abbrev Tuple := List Term

namespace Tuple

/-- The number of columns. -/
def arity (t : Tuple) : Nat := t.length

/-- Whether no variable occurs in the tuple. -/
def isGround (t : Tuple) : Bool := t.all Term.isGround

/-- The chosen columns, in the order chosen; a column that the tuple lacks is left out. -/
def project (t : Tuple) (columns : List Nat) : Tuple := columns.filterMap (t[·]?)

/-- The variables of a tuple, in order of first appearance. -/
def varNames (t : Tuple) : List String := (t.flatMap Term.occurrences).eraseDups

/-- The text of a tuple, such as `(1, ?X)`. -/
def text (t : Tuple) : String := "(" ++ ", ".intercalate (t.map Term.text) ++ ")"

/-- The tuple of integer constants. -/
def ofInts (ns : List Int64) : Tuple := ns.map Term.int

end Tuple

/-- A finite set of tuples. -/
abbrev Relation := SortedSet Tuple

namespace Relation

/-- The relation whose one row has no columns: the neutral element of joining. -/
def seed : Relation := SortedSet.singleton []

/-- Every row has exactly `n` columns. -/
def HasArity (r : Relation) (n : Nat) : Prop := ∀ t ∈ r, t.arity = n

/-- The set of the rows that `f` makes of the rows of `r`. -/
def filterMap (f : Tuple → Option Tuple) (r : Relation) : Relation :=
  SortedSet.ofList (r.toList.filterMap f)

@[simp] theorem mem_seed {t : Tuple} : t ∈ seed ↔ t = [] := SortedSet.mem_singleton

@[simp] theorem mem_filterMap {f : Tuple → Option Tuple} {r : Relation} {t : Tuple} :
    t ∈ filterMap f r ↔ ∃ u ∈ r, f u = some t := by
  rw [filterMap, SortedSet.mem_ofList, List.mem_filterMap]
  rfl

end Relation

end Datalog
