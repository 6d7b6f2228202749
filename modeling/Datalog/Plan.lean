import Datalog.Data.SortedMap
import Datalog.Pattern

/-!
# Operator plans

A plan is a tree of relational operators over named inputs. Columns are positions; names of variables
appear only in the operators that match, compute or fill in terms. `Plan.rows` is the relation that a
plan denotes for given inputs.
-/

namespace Datalog

/-- A builtin applied to every row. -/
structure BuiltinCall where
  builtin : Builtin
  args : Tuple
  /-- The columns of the rows. -/
  schema : List String
  /-- The variable that the call computes, as a new last column. -/
  output : Option String
  /-- A negated call keeps the rows for which the builtin does not hold. -/
  negated : Bool
  deriving DecidableEq, Inhabited

namespace BuiltinCall

/-- The arguments of the call for a row; one that lacks a value is missing. -/
def arguments (c : BuiltinCall) (row : Tuple) : List (Option Term) :=
  c.args.map (Term.instantiate? (c.schema.zip row))

/-- The row that the call makes of a row, if it keeps the row. A call that cannot be applied holds of
nothing. -/
def apply (c : BuiltinCall) (row : Tuple) : Option Tuple :=
  let args := c.arguments row
  let completed := (c.builtin.apply args).toOption.join
  if c.negated then if completed.isNone then some row else none
  else do
    let values ← completed
    match c.output, args.idxOf? none with
    | some _, some i => values[i]?.map fun v => row ++ [v]
    | _, _ => some row

end BuiltinCall

/-- A tree of relational operators. -/
inductive Plan where
  /-- A named input, whose tuples have the given arity. -/
  | input (name : String) (arity : Nat)
  /-- The tuples that a constant filter accepts. -/
  | filter (source : Plan) (filter : ConstantFilter)
  /-- The rows of variable values for which a pattern becomes a tuple. -/
  | unify (source : Plan) (pattern : Pattern)
  /-- Each left row followed by the columns `keep` of each right row that agrees with it on the keys. -/
  | join (left right : Plan) (leftKeys rightKeys keep : List Nat)
  /-- The left rows that agree with no right row on the keys. -/
  | antijoin (left right : Plan) (leftKeys rightKeys : List Nat)
  /-- The rows that a builtin keeps, with the value it computes. -/
  | builtin (source : Plan) (call : BuiltinCall)
  /-- The tuples that a template becomes for the rows. -/
  | substitute (source : Plan) (template : Template)
  deriving DecidableEq, Inhabited

/-- Relations by name. -/
abbrev Sources := SortedMap String Relation

namespace Relation

/-- Each row of `l` followed by the columns `keep` of each row of `r` that agrees with it on the keys. -/
def join (l r : Relation) (leftKeys rightKeys keep : List Nat) : Relation :=
  let right := r.toList.map fun u => (u.project rightKeys, u.project keep)
  SortedSet.ofList <| l.toList.flatMap fun t =>
    let k := t.project leftKeys
    right.filterMap fun (k', u) => if k = k' then some (t ++ u) else none

/-- The rows of `l` that agree with no row of `r` on the keys. -/
def antijoin (l r : Relation) (leftKeys rightKeys : List Nat) : Relation :=
  let right := r.toList.map fun u => u.project rightKeys
  l.filter fun t => t.project leftKeys ∉ right

theorem mem_join {l r : Relation} {lk rk keep : List Nat} {t : Tuple} :
    t ∈ l.join r lk rk keep ↔
      ∃ a ∈ l, ∃ b ∈ r, a.project lk = b.project rk ∧ t = a ++ b.project keep := by
  rw [join, SortedSet.mem_ofList]
  simp only [List.mem_flatMap, List.mem_filterMap, List.mem_map]
  constructor
  · rintro ⟨a, ha, _, ⟨b, hb, rfl⟩, h⟩
    split at h
    · next hk => exact ⟨a, ha, b, hb, hk, (Option.some.inj h).symm⟩
    · cases h
  · rintro ⟨a, ha, b, hb, hk, rfl⟩
    exact ⟨a, ha, _, ⟨b, hb, rfl⟩, by simp [hk]⟩

theorem mem_antijoin {l r : Relation} {lk rk : List Nat} {t : Tuple} :
    t ∈ l.antijoin r lk rk ↔ t ∈ l ∧ ∀ b ∈ r, t.project lk ≠ b.project rk := by
  rw [antijoin, SortedSet.mem_filter, decide_eq_true_eq, List.mem_map]
  exact and_congr_right fun _ => ⟨fun h b hb e => h ⟨b, hb, e.symm⟩, fun h ⟨b, hb, e⟩ => h b hb e.symm⟩

end Relation

namespace Plan

/-- The relation that a plan denotes; an input that is not given is empty. -/
def rows (sources : Sources) : Plan → Relation
  | .input name _ => sources.getD name ∅
  | .filter p f => (p.rows sources).filter f.accepts
  | .unify p pattern => (p.rows sources).filterMap pattern.apply
  | .join l r lk rk keep => (l.rows sources).join (r.rows sources) lk rk keep
  | .antijoin l r lk rk => (l.rows sources).antijoin (r.rows sources) lk rk
  | .builtin p call => (p.rows sources).filterMap call.apply
  | .substitute p template => (p.rows sources).filterMap template.apply

/-- Every input node, from left to right. -/
def inputNodes : Plan → List (String × Nat)
  | .input name arity => [(name, arity)]
  | .filter p _ => p.inputNodes
  | .unify p _ => p.inputNodes
  | .join l r _ _ _ => l.inputNodes ++ r.inputNodes
  | .antijoin l r _ _ => l.inputNodes ++ r.inputNodes
  | .builtin p _ => p.inputNodes
  | .substitute p _ => p.inputNodes

/-- Keeps the first entry of every name. -/
def firstOfEachName : List (String × Nat) → List (String × Nat)
  | [] => []
  | e :: es => e :: (firstOfEachName es).filter fun e' => e'.1 ≠ e.1

/-- The inputs that a plan reads, with the arity that the first node of each name expects. -/
def inputs (p : Plan) : List (String × Nat) := firstOfEachName p.inputNodes

/-- The number of operators. -/
def size : Plan → Nat
  | .input _ _ => 1
  | .filter p _ => p.size + 1
  | .unify p _ => p.size + 1
  | .join l r _ _ _ => l.size + r.size + 1
  | .antijoin l r _ _ => l.size + r.size + 1
  | .builtin p _ => p.size + 1
  | .substitute p _ => p.size + 1

/-- A line of a description at the given depth. -/
def pad (depth : Nat) (line : String) : String := "".pushn ' ' (2 * depth) ++ line

/-- The lines that describe a plan, two blanks deeper for each level. -/
def lines (depth : Nat) : Plan → List String
  | .input name arity => [pad depth ("Input " ++ name ++ "/" ++ toString arity)]
  | .filter p f =>
    let constants := f.constants.map fun (i, c) => "$" ++ toString i ++ "=" ++ c.text
    pad depth ("Filter [" ++ ", ".intercalate constants ++ "]") :: p.lines (depth + 1)
  | .unify p pattern =>
    pad depth ("Match -> (" ++ ", ".intercalate pattern.schema ++ ")") :: p.lines (depth + 1)
  | .join l r lk rk _ =>
    pad depth ("Join " ++ columnsText lk ++ " = " ++ columnsText rk)
      :: l.lines (depth + 1) ++ r.lines (depth + 1)
  | .antijoin l r lk rk =>
    pad depth ("Antijoin " ++ columnsText lk ++ " = " ++ columnsText rk)
      :: l.lines (depth + 1) ++ r.lines (depth + 1)
  | .builtin p call =>
    pad depth ("Builtin " ++ (if call.negated then "NOT " else "") ++ call.builtin.name)
      :: p.lines (depth + 1)
  | .substitute p template =>
    pad depth ("Substitute " ++ template.terms.text) :: p.lines (depth + 1)

/-- The description of a plan, each line ended by a line break. -/
def text (p : Plan) : String := String.join ((p.lines 0).map (· ++ "\n"))

end Plan

end Datalog
