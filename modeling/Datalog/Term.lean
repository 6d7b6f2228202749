/-!
# Terms

A term is a variable, a constant, or a functor applied to terms. Lists are terms with the functor
`list`. Terms are totally ordered: variables, then constants, then applications; constants by kind
(integers, strings, booleans) and then by value; applications by functor and then by arguments,
where a proper initial segment comes first. The order decides equality (`Term.instLawfulEqOrd`).
-/

open Std (TransOrd LawfulEqOrd)

namespace Datalog

/-- A constant. Integers are 64-bit words. -/
inductive Value where
  | int (n : Int64)
  | str (s : String)
  | bool (b : Bool)
  deriving DecidableEq, Inhabited

namespace Value

/-- The integer that the constant is, if it is one. -/
def int? : Value → Option Int64
  | .int n => some n
  | _ => none

/-- The string that the constant is, if it is one. -/
def str? : Value → Option String
  | .str s => some s
  | _ => none

/-- The text of a constant; a string stands between quotes, its characters as they are. -/
def text : Value → String
  | .int n => toString n.toInt
  | .str s => "\"" ++ s ++ "\""
  | .bool b => if b then "true" else "false"

/-- Integers come before strings and strings before booleans. -/
def compare : Value → Value → Ordering
  | .int a, .int b => Ord.compare a b
  | .int _, _ => .lt
  | .str _, .int _ => .gt
  | .str a, .str b => Ord.compare a b
  | .str _, .bool _ => .lt
  | .bool a, .bool b => Ord.compare a b
  | .bool _, _ => .gt

instance instOrd : Ord Value := ⟨Value.compare⟩

theorem compare_def (a b : Value) : Ord.compare a b = Value.compare a b := rfl

instance instTransOrd : TransOrd Value where
  eq_swap {a b} := by
    cases a <;> cases b <;> simp [compare_def, Value.compare]
    all_goals exact Std.OrientedCmp.eq_swap
  isLE_trans {a b c} := by
    cases a <;> cases b <;> cases c <;> simp [compare_def, Value.compare]
    all_goals exact Std.TransCmp.isLE_trans

instance instLawfulEqOrd : LawfulEqOrd Value where
  compare_self {a} := by cases a <;> exact Std.ReflCmp.compare_self
  eq_of_compare {a b} := by
    cases a <;> cases b <;> simp [compare_def, Value.compare]

instance : ToString Value := ⟨text⟩

end Value

/-- A variable, a constant, or a functor applied to terms. -/
inductive Term where
  | var (name : String)
  | const (value : Value)
  | app (functor : String) (args : List Term)
  deriving Inhabited

namespace Term

/-- The functor of list terms. -/
def listFunctor : String := "list"

/-- An integer constant. -/
def int (n : Int64) : Term := .const (.int n)

/-- A string constant. -/
def str (s : String) : Term := .const (.str s)

/-- A boolean constant. -/
def bool (b : Bool) : Term := .const (.bool b)

/-- The name of a variable term. -/
def varName? : Term → Option String
  | .var x => some x
  | _ => none

/-- The constant that the term is, if it is one. -/
def value? : Term → Option Value
  | .const v => some v
  | _ => none

/-- The integer that the term is, if it is one. -/
def int? (t : Term) : Option Int64 := t.value?.bind Value.int?

/-- The string that the term is, if it is one. -/
def str? (t : Term) : Option String := t.value?.bind Value.str?

/-- Whether the term is a variable. -/
def isVar (t : Term) : Bool := t.varName?.isSome

mutual

/-- Whether no variable occurs in the term. -/
def isGround : Term → Bool
  | .var _ => false
  | .const _ => true
  | .app _ args => allGround args

/-- Whether no variable occurs in any of the terms. -/
def allGround : List Term → Bool
  | [] => true
  | t :: ts => isGround t && allGround ts

end

mutual

/-- Every occurrence of a variable, from left to right. -/
def occurrences : Term → List String
  | .var x => [x]
  | .const _ => []
  | .app _ args => occurrencesList args

/-- Every occurrence of a variable in a list of terms, from left to right. -/
def occurrencesList : List Term → List String
  | [] => []
  | t :: ts => occurrences t ++ occurrencesList ts

end

/-- The variables of a term, in order of first appearance. -/
def varNames (t : Term) : List String := t.occurrences.eraseDups

mutual

/-- The text of a term: `?X` for a variable, `f(a, b)` for an application. -/
def text : Term → String
  | .var x => "?" ++ x
  | .const v => v.text
  | .app f args => f ++ "(" ++ ", ".intercalate (texts args) ++ ")"

/-- The texts of a list of terms. -/
def texts : List Term → List String
  | [] => []
  | t :: ts => text t :: texts ts

end

instance : ToString Term := ⟨text⟩

@[simp] theorem texts_eq_map (ts : List Term) : texts ts = ts.map text := by
  induction ts with
  | nil => rfl
  | cons t ts ih => simp [texts, ih]

@[simp] theorem allGround_eq_all (ts : List Term) : allGround ts = ts.all isGround := by
  induction ts with
  | nil => rfl
  | cons t ts ih => simp [allGround, ih]

@[simp] theorem occurrencesList_eq_flatMap (ts : List Term) :
    occurrencesList ts = ts.flatMap occurrences := by
  induction ts with
  | nil => rfl
  | cons t ts ih => simp [occurrencesList, ih]

/-! ### The order -/

mutual

/-- Variables come before constants and constants before applications. -/
def compare : Term → Term → Ordering
  | .var x, .var y => Ord.compare x y
  | .var _, _ => .lt
  | .const _, .var _ => .gt
  | .const v, .const w => Ord.compare v w
  | .const _, .app _ _ => .lt
  | .app f ts, .app g us => (Ord.compare f g).then (compareList ts us)
  | .app _ _, _ => .gt

/-- Lists of terms compare at their first difference; an initial segment comes first. -/
def compareList : List Term → List Term → Ordering
  | [], [] => .eq
  | [], _ :: _ => .lt
  | _ :: _, [] => .gt
  | t :: ts, u :: us => (compare t u).then (compareList ts us)

end

instance instOrd : Ord Term := ⟨Term.compare⟩

theorem compare_def (a b : Term) : Ord.compare a b = Term.compare a b := rfl

@[simp] theorem compareList_eq (ts us : List Term) : compareList ts us = Ord.compare ts us := by
  induction ts generalizing us with
  | nil => cases us <;> rfl
  | cons t ts ih =>
    cases us with
    | nil => rfl
    | cons u us =>
      rw [compareList, ih]
      exact List.compareLex_cons_cons.symm

mutual

theorem eq_of_compare_eq : ∀ {t u : Term}, compare t u = .eq → t = u
  | .var x, .var y, h => congrArg var (Std.LawfulEqOrd.eq_of_compare h)
  | .const v, .const w, h => congrArg const (Std.LawfulEqOrd.eq_of_compare h)
  | .app f ts, .app g us, h => by
    rw [compare, Ordering.then_eq_eq] at h
    rw [Std.LawfulEqOrd.eq_of_compare h.1, eq_of_compareList_eq h.2]
  | .var _, .const _, h => by simp [compare] at h
  | .var _, .app _ _, h => by simp [compare] at h
  | .const _, .var _, h => by simp [compare] at h
  | .const _, .app _ _, h => by simp [compare] at h
  | .app _ _, .var _, h => by simp [compare] at h
  | .app _ _, .const _, h => by simp [compare] at h

theorem eq_of_compareList_eq : ∀ {ts us : List Term}, compareList ts us = .eq → ts = us
  | [], [], _ => rfl
  | [], _ :: _, h => by simp [compareList] at h
  | _ :: _, [], h => by simp [compareList] at h
  | t :: ts, u :: us, h => by
    rw [compareList, Ordering.then_eq_eq] at h
    rw [eq_of_compare_eq h.1, eq_of_compareList_eq h.2]

end

mutual

theorem compare_swap : ∀ t u : Term, compare t u = (compare u t).swap
  | .var x, .var y => (Std.OrientedCmp.eq_swap : Ord.compare x y = (Ord.compare y x).swap)
  | .const v, .const w => (Std.OrientedCmp.eq_swap : Ord.compare v w = (Ord.compare w v).swap)
  | .app f ts, .app g us => by
    have h : Ord.compare f g = (Ord.compare g f).swap := Std.OrientedCmp.eq_swap
    rw [compare, compare, Ordering.swap_then, ← compareList_swap, h]
  | .var _, .const _ => rfl
  | .var _, .app _ _ => rfl
  | .const _, .var _ => rfl
  | .const _, .app _ _ => rfl
  | .app _ _, .var _ => rfl
  | .app _ _, .const _ => rfl

theorem compareList_swap : ∀ ts us : List Term, compareList ts us = (compareList us ts).swap
  | [], [] => rfl
  | [], _ :: _ => rfl
  | _ :: _, [] => rfl
  | t :: ts, u :: us => by
    rw [compareList, compareList, Ordering.swap_then, ← compareList_swap, ← compare_swap]

end

mutual

theorem compare_lt_trans : ∀ {t u v : Term}, compare t u = .lt → compare u v = .lt → compare t v = .lt
  | .var x, .var y, .var z, h, h' => by
    change Ord.compare x y = .lt at h
    change Ord.compare x z = .lt
    exact Std.TransCmp.lt_trans h h'
  | .const x, .const y, .const z, h, h' => by
    change Ord.compare x y = .lt at h
    change Ord.compare x z = .lt
    exact Std.TransCmp.lt_trans h h'
  | .app f ts, .app g us, .app k vs, h, h' => by
    rw [compare, Ordering.then_eq_lt] at h h' ⊢
    rcases h with h | ⟨e, h⟩ <;> rcases h' with h' | ⟨e', h'⟩
    · exact .inl (Std.TransCmp.lt_trans h h')
    · exact .inl (Std.LawfulEqOrd.eq_of_compare e' ▸ h)
    · exact .inl (Std.LawfulEqOrd.eq_of_compare e ▸ h')
    · exact .inr ⟨Std.LawfulEqOrd.eq_of_compare e ▸ e', compareList_lt_trans h h'⟩
  | .var _, .var _, .const _, _, _ => rfl
  | .var _, _, .app _ _, _, _ => rfl
  | .var _, .const _, .const _, _, _ => rfl
  | .const _, .const _, .app _ _, _, _ => rfl
  | .const _, .app _ _, .app _ _, _, _ => rfl
  | .var _, .const _, .var _, _, h => by simp [compare] at h
  | .var _, .app _ _, .var _, _, h => by simp [compare] at h
  | .var _, .app _ _, .const _, _, h => by simp [compare] at h
  | .const _, .var _, _, h, _ => by simp [compare] at h
  | .const _, .const _, .var _, _, h => by simp [compare] at h
  | .const _, .app _ _, .var _, _, h => by simp [compare] at h
  | .const _, .app _ _, .const _, _, h => by simp [compare] at h
  | .app _ _, .var _, _, h, _ => by simp [compare] at h
  | .app _ _, .const _, _, h, _ => by simp [compare] at h
  | .app _ _, .app _ _, .var _, _, h => by simp [compare] at h
  | .app _ _, .app _ _, .const _, _, h => by simp [compare] at h

theorem compareList_lt_trans : ∀ {ts us vs : List Term},
    compareList ts us = .lt → compareList us vs = .lt → compareList ts vs = .lt
  | [], _, _ :: _, _, _ => rfl
  | _, _ :: _, [], _, h => by simp [compareList] at h
  | [], [], [], h, _ => by simp [compareList] at h
  | _ :: _, [], _, h, _ => by simp [compareList] at h
  | t :: ts, u :: us, v :: vs, h, h' => by
    rw [compareList, Ordering.then_eq_lt] at h h' ⊢
    rcases h with h | ⟨e, h⟩ <;> rcases h' with h' | ⟨e', h'⟩
    · exact .inl (compare_lt_trans h h')
    · exact .inl (eq_of_compare_eq e' ▸ h)
    · exact .inl (eq_of_compare_eq e ▸ h')
    · exact .inr ⟨eq_of_compare_eq e ▸ e', compareList_lt_trans h h'⟩

end

mutual

theorem compare_self : ∀ t : Term, compare t t = .eq
  | .var x => (Std.ReflCmp.compare_self : Ord.compare x x = .eq)
  | .const v => (Std.ReflCmp.compare_self : Ord.compare v v = .eq)
  | .app f ts => by simp [compare, -compareList_eq, compareList_self ts]

theorem compareList_self : ∀ ts : List Term, compareList ts ts = .eq
  | [] => rfl
  | t :: ts => by rw [compareList, compare_self t, compareList_self ts]; rfl

end

instance instLawfulEqOrd : LawfulEqOrd Term where
  compare_self {t} := compare_self t
  eq_of_compare h := eq_of_compare_eq h

instance instTransOrd : TransOrd Term where
  eq_swap {t u} := compare_swap t u
  isLE_trans {t u v} h h' := by
    simp only [compare_def] at *
    cases e : compare t u with
    | gt => simp [e] at h
    | eq => rw [eq_of_compare_eq e]; exact h'
    | lt =>
      cases e' : compare u v with
      | gt => simp [e'] at h'
      | eq => rw [← eq_of_compare_eq e', e]; rfl
      | lt => rw [compare_lt_trans e e']; rfl

instance instDecidableEq : DecidableEq Term := fun t u =>
  decidable_of_iff (Ord.compare t u = .eq) Std.LawfulEqOrd.compare_eq_iff_eq

end Term

end Datalog
