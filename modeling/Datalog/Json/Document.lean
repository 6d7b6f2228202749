import Datalog.Json.Token

/-!
# JSON documents

`Json.tokens` lists the tokens of a value and `Json.ofTokens?` reads exactly one value from a list
of tokens, keeping the containers that are still open on a stack. The stack never holds more than
`limit` containers, so nesting is bounded by the reader and not by the call stack.
-/

namespace Datalog.Json

mutual

/-- The tokens of a value, without blanks between them. -/
def tokens : Json → List Token
  | .null => [.null]
  | .bool b => [.bool b]
  | .num cs => [.num cs]
  | .str s => [.str s]
  | .garbled => [.garbled]
  | .arr [] => [.openArr, .closeArr]
  | .arr (j :: js) => .openArr :: tokens j ++ itemTokens js
  | .obj [] => [.openObj, .closeObj]
  | .obj ((k, j) :: ms) => .openObj :: .str k :: .colon :: tokens j ++ memberTokens ms

/-- The tokens of the further items of an array, to its end. -/
def itemTokens : List Json → List Token
  | [] => [.closeArr]
  | j :: js => .comma :: tokens j ++ itemTokens js

/-- The tokens of the further members of an object, to its end. -/
def memberTokens : List (String × Json) → List Token
  | [] => [.closeObj]
  | (k, j) :: ms => .comma :: .str k :: .colon :: tokens j ++ memberTokens ms

end

/-- The text of a value, without blanks. -/
def render (j : Json) : String := String.ofList (j.tokens.flatMap Token.spell)

/-- Members of an object that is still open, last first; a garbled key is missing. -/
abbrev Draft := List (Option String × Json)

/-- The object with given members. A garbled key garbles it. -/
def ofDraft (ms : Draft) : Json :=
  match ms.reverse.mapM fun (k, j) => k.map fun k => (k, j) with
  | some ms => .obj ms
  | none => .garbled

/-- A container that is still open, with what it holds so far, last first. -/
inductive Frame where
  | arr (items : List Json)
  | obj (members : Draft) (key : Option String)

/-- What the reader waits for. -/
inductive Wanted where
  | value
  | valueOrClose
  | keyOrClose (members : Draft)
  | key (members : Draft)
  | colon (members : Draft) (key : Option String)
  | next
  | done (value : Json)

/-- The open containers, innermost first, and what has to come next. For an object whose next key is
awaited the members stand in `wanted`. -/
structure Reader where
  stack : List Frame
  wanted : Wanted

/-- Puts a finished value into the innermost container. -/
def Reader.finish (j : Json) : List Frame → Reader
  | [] => ⟨[], .done j⟩
  | .arr js :: fs => ⟨.arr (j :: js) :: fs, .next⟩
  | .obj ms k :: fs => ⟨.obj ((k, j) :: ms) k :: fs, .next⟩

/-- A token where a value has to start. -/
def Reader.startValue? (limit : Nat) (stack : List Frame) : Token → Option Reader
  | .null => some (finish .null stack)
  | .bool b => some (finish (.bool b) stack)
  | .num cs => some (finish (.num cs) stack)
  | .str s => some (finish (.str s) stack)
  | .garbled => some (finish .garbled stack)
  | .openArr => if stack.length < limit then some ⟨.arr [] :: stack, .valueOrClose⟩ else none
  | .openObj => if stack.length < limit then some ⟨.obj [] none :: stack, .keyOrClose []⟩ else none
  | _ => none

/-- One token. -/
def Reader.step? (limit : Nat) (r : Reader) (t : Token) : Option Reader :=
  match r.wanted, r.stack, t with
  | .value, stack, t => startValue? limit stack t
  | .valueOrClose, .arr js :: fs, .closeArr => some (finish (.arr js.reverse) fs)
  | .valueOrClose, stack, t => startValue? limit stack t
  | .keyOrClose ms, _ :: fs, .closeObj => some (finish (ofDraft ms) fs)
  | .keyOrClose ms, stack, .str k => some ⟨stack, .colon ms (some k)⟩
  | .keyOrClose ms, stack, .garbled => some ⟨stack, .colon ms none⟩
  | .key ms, stack, .str k => some ⟨stack, .colon ms (some k)⟩
  | .key ms, stack, .garbled => some ⟨stack, .colon ms none⟩
  | .colon ms k, _ :: fs, .colon => some ⟨.obj ms k :: fs, .value⟩
  | .next, .arr js :: fs, .comma => some ⟨.arr js :: fs, .value⟩
  | .next, .arr js :: fs, .closeArr => some (finish (.arr js.reverse) fs)
  | .next, .obj ms k :: fs, .comma => some ⟨.obj ms k :: fs, .key ms⟩
  | .next, .obj ms _ :: fs, .closeObj => some (finish (ofDraft ms) fs)
  | _, _, _ => none

/-- Reads exactly one value that nests at most `limit` containers. -/
def ofTokens? (limit : Nat) (ts : List Token) : Option Json := do
  match (← ts.foldlM (Reader.step? limit) ⟨[], .value⟩).wanted with
  | .done j => some j
  | _ => none

/-- Reads a document that nests at most `limit` containers. -/
def parseWithin? (limit : Nat) (s : String) : Option Json := do ofTokens? limit (← Token.scan? s.toList)

/-- Reads a document. No text nests more containers than it has characters. -/
def parse? (s : String) : Option Json := parseWithin? s.length s

end Datalog.Json
