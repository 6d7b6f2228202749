import Datalog.Error
import Datalog.Json.Document

/-!
# Fact records

One fact as one JSON document: an object with the terms, each term an object whose one key names its
kind. Reading is strict. An object may have members that the format does not know, which are skipped
whatever they are; a known member has to be there once. Instead of an object with known members an
array of just their values will do. What is not skipped nests at most `nestingLimit` containers.
-/

namespace Datalog.FactRecord

/-- The number of containers that a record may nest. -/
def nestingLimit : Nat := 127

/-- The name of the record format. -/
def format : String := "jsonl"

/-! ### Writing -/

/-- The document of a constant. -/
def ofValue : Value → Json
  | .int n => .obj [("Int", .int n.toInt)]
  | .str s => .obj [("Str", .str s)]
  | .bool b => .obj [("Bool", .bool b)]

mutual

/-- The document of a term. -/
def ofTerm : Term → Json
  | .var x => .obj [("Variable", .str x)]
  | .const v => .obj [("Constant", ofValue v)]
  | .app f ts => .obj [("Constructed", .obj [("functor", .str f), ("args", .arr (ofTerms ts))])]

/-- The documents of terms. -/
def ofTerms : List Term → List Json
  | [] => []
  | t :: ts => ofTerm t :: ofTerms ts

end

/-- The document of a tuple. -/
def ofTuple (t : Tuple) : Json := .obj [("terms", .arr (ofTerms t))]

/-- The record of a tuple, without any line break. -/
def encode (t : Tuple) : String := (ofTuple t).render

/-! ### Reading -/

/-- The one member with a known key; members with other keys are skipped. -/
def member? (k : String) (ms : List (String × Json)) : Option Json :=
  match Json.members k ms with
  | [j] => some j
  | _ => none

/-- The constant of a document. -/
def value? : Json → Option Value
  | .obj [(k, v)] =>
    if k = "Int" then do
      let n ← v.integer?
      return .int (← Word.ofInt? n)
    else if k = "Str" then v.text?.map .str
    else if k = "Bool" then
      match v with
      | .bool b => some (.bool b)
      | _ => none
    else none
  | _ => none

/-- The functor and the arguments of an application. -/
def application? : Json → Option (String × List Json)
  | .obj ms => do return (← (← member? "functor" ms).text?, ← (← member? "args" ms).items?)
  | .arr [f, args] => do return (← f.text?, ← args.items?)
  | _ => none

/-- The term of a document that nests at most the given number of containers. An application nests
three: the term, its members and its arguments. -/
def term? : Nat → Json → Option Term
  | b, .obj [(k, v)] =>
    if k = "Variable" then if 1 ≤ b then v.text?.map .var else none
    else if k = "Constant" then if 2 ≤ b then (value? v).map .const else none
    else if k = "Constructed" then
      match b with
      | b + 3 => do
        let (f, args) ← application? v
        return .app f (← args.mapM (term? b))
      | _ => none
    else none
  | _, _ => none

/-- The tuple of a document. -/
def tuple? : Json → Option Tuple
  | .obj ms => do (← (← member? "terms" ms).items?).mapM (term? (nestingLimit - 2))
  | .arr [terms] => do (← terms.items?).mapM (term? (nestingLimit - 2))
  | _ => none

/-- Reads the record of a fact of a predicate: a ground tuple of its arity. -/
def decode (p : Predicate) (record : String) : Except StoreError Tuple :=
  match (Json.parse? record).bind tuple? with
  | none => .error .record
  | some t =>
    if t.length ≠ p.arity then .error (.recordArity t.length p)
    else if !t.isGround then .error (.openRecord t p)
    else .ok t

end Datalog.FactRecord
