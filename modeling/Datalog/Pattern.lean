import Datalog.Error

/-!
# Patterns and templates

A pattern is a list of terms with variables: matching a tuple against it yields the row of values of
its variables, in order of first appearance (its schema). A template goes the other way: it fills the
row of a schema into a list of terms. A constant filter keeps the tuples that hold given terms at
given positions.
-/

namespace Datalog

/-- Values of variables; the first entry of a name counts. -/
abbrev Bindings := List (String × Term)

namespace Term

mutual

/-- Extends bindings so that the pattern becomes the value. -/
def unify? : Term → Term → Bindings → Option Bindings
  | .var x, v, σ =>
    match σ.lookup x with
    | some w => if w = v then some σ else none
    | none => some ((x, v) :: σ)
  | .const c, .const d, σ => if c = d then some σ else none
  | .app f ps, .app g vs, σ => if f = g then unifyList? ps vs σ else none
  | _, _, _ => none

/-- Extends bindings so that each pattern becomes the value at its place. -/
def unifyList? : List Term → List Term → Bindings → Option Bindings
  | [], [], σ => some σ
  | p :: ps, v :: vs, σ => (unify? p v σ).bind (unifyList? ps vs)
  | _, _, _ => none

end

mutual

/-- Puts values in place of variables; every variable needs a value. -/
def instantiate? (σ : Bindings) : Term → Option Term
  | .var x => σ.lookup x
  | .const c => some (.const c)
  | .app f ts => (instantiateList? σ ts).map (.app f)

/-- Puts values in place of the variables of each term. -/
def instantiateList? (σ : Bindings) : List Term → Option (List Term)
  | [] => some []
  | t :: ts => (instantiate? σ t).bind fun u => (instantiateList? σ ts).map (u :: ·)

end

@[simp] theorem instantiateList?_eq_mapM (σ : Bindings) (ts : List Term) :
    instantiateList? σ ts = ts.mapM (instantiate? σ) := by
  induction ts with
  | nil => rfl
  | cons t ts ih =>
    simp only [instantiateList?, ih, List.mapM_cons]
    cases instantiate? σ t with
    | none => rfl
    | some u => cases ts.mapM (instantiate? σ) <;> rfl

end Term

/-- A list of terms to match tuples against. -/
structure Pattern where
  terms : Tuple
  deriving DecidableEq, Inhabited

namespace Pattern

/-- The variables of the pattern, one column each. -/
def schema (p : Pattern) : List String := p.terms.varNames

/-- The row of values for which the pattern becomes the tuple. -/
def apply (p : Pattern) (t : Tuple) : Option Tuple := do
  let σ ← Term.unifyList? p.terms t []
  p.schema.mapM fun x => σ.lookup x

end Pattern

/-- A list of terms to fill rows of a schema into. -/
structure Template where
  terms : Tuple
  schema : List String
  deriving DecidableEq, Inhabited

namespace Template

/-- The variables of the template that the schema lacks. -/
def unboundVariables (t : Template) : List String := t.terms.varNames.filter (· ∉ t.schema)

/-- The tuple that the template becomes for a row. -/
def apply (t : Template) (row : Tuple) : Option Tuple :=
  Term.instantiateList? (t.schema.zip row) t.terms

end Template

/-- Terms that have to stand at given positions of a tuple of given arity. -/
structure ConstantFilter where
  arity : Nat
  constants : List (Nat × Term)
  deriving DecidableEq, Inhabited

namespace ConstantFilter

/-- A filter needs no more constants than the arity, all of them inside the tuple. -/
def ofConstants (arity : Nat) (constants : List (Nat × Term)) : Except ArityFault ConstantFilter :=
  if arity < constants.length then .error (.filterWidth constants.length arity)
  else
    match constants.find? fun c => arity ≤ c.1 with
    | some (position, _) => .error (.filterPosition position arity)
    | none => .ok ⟨arity, constants⟩

/-- The ground terms of a pattern, by position. -/
def groundTerms (ts : Tuple) : List (Nat × Term) :=
  (ts.zipIdx.filter fun (t, _) => t.isGround).map fun (t, i) => (i, t)

/-- The filter on the ground terms of a pattern. -/
def ofPattern (ts : Tuple) : Except ArityFault ConstantFilter := ofConstants ts.length (groundTerms ts)

/-- Whether a tuple passes the filter. -/
def accepts (f : ConstantFilter) (t : Tuple) : Bool :=
  t.length == f.arity && f.constants.all fun (i, c) => t[i]? == some c

end ConstantFilter

end Datalog
