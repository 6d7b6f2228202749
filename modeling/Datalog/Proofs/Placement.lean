import Mathlib.Data.List.Perm.Basic
import Datalog.JoinOrder

/-!
# Merging literals into joins

How a body comes about one literal after the other (`Merges`): the first literal that waits and can be
placed stands next; when there is none the next join does; and after the last join those that still
wait end the body. `interleaveFrom` makes this body and no other is made (`merges_iff`), so what holds
of merged bodies is shown by induction on these three rules.
-/

namespace Datalog.JoinOrder

variable {bound : List String} {pending rest ls body : List Literal} {l : Literal}

/-! ### The literal that is placed next -/

theorem nextReady?_eq_none_iff :
    nextReady? bound ls = none ↔ ∀ l ∈ ls, placeable l bound = false := by
  induction ls with
  | nil => simp [nextReady?]
  | cons l ls ih =>
    rw [nextReady?, List.forall_mem_cons]
    cases ready : placeable l bound <;> simp [ih]

/-- What is placed next is the first literal that can be. -/
theorem nextReady?_eq_some_iff :
    nextReady? bound pending = some (l, rest) ↔ ∃ front back, pending = front ++ l :: back ∧
      rest = front ++ back ∧ placeable l bound = true ∧ ∀ m ∈ front, placeable m bound = false := by
  induction pending generalizing rest with
  | nil => simp [nextReady?]
  | cons m pending ih =>
    rw [nextReady?]
    split
    · next ready =>
      constructor
      · intro same
        cases same
        exact ⟨[], pending, rfl, rfl, ready, by simp⟩
      · rintro ⟨front, back, split, rfl, -, waits⟩
        rcases List.cons_eq_append_iff.1 split with ⟨rfl, same⟩ | ⟨front', rfl, -⟩
        · cases same
          rfl
        · rw [waits m List.mem_cons_self] at ready
          cases ready
    · next stuck =>
      rw [Bool.not_eq_true] at stuck
      constructor
      · intro found
        obtain ⟨⟨l', rest'⟩, later, same⟩ := Option.map_eq_some_iff.1 found
        cases same
        obtain ⟨front, back, rfl, rfl, ready, waits⟩ := ih.1 later
        exact ⟨m :: front, back, rfl, rfl, ready, List.forall_mem_cons.2 ⟨stuck, waits⟩⟩
      · rintro ⟨front, back, split, rfl, ready, waits⟩
        rcases List.cons_eq_append_iff.1 split with ⟨rfl, same⟩ | ⟨front', rfl, rfl⟩
        · cases same
          rw [ready] at stuck
          cases stuck
        · rw [ih.2 ⟨front', back, rfl, rfl, ready, (List.forall_mem_cons.1 waits).2⟩]
          rfl

theorem placeable_of_nextReady? (next : nextReady? bound pending = some (l, rest)) :
    placeable l bound = true := by
  obtain ⟨-, -, -, -, ready, -⟩ := nextReady?_eq_some_iff.1 next
  exact ready

theorem perm_of_nextReady? (next : nextReady? bound pending = some (l, rest)) :
    (l :: rest).Perm pending := by
  obtain ⟨front, back, rfl, rfl, -, -⟩ := nextReady?_eq_some_iff.1 next
  exact List.perm_middle.symm

/-! ### One literal after the other -/

theorem interleaveFrom_of_next (next : nextReady? bound pending = some (l, rest)) :
    interleaveFrom bound pending ls = l :: interleaveFrom (bound ++ bindings l) rest ls := by
  have length : pending.length = rest.length + 1 := (perm_of_nextReady? next).length_eq.symm
  cases ls <;> simp [interleaveFrom, length, placeReady, next]

theorem placeReady_of_none (none : nextReady? bound pending = none) (n : Nat) :
    placeReady n bound pending = ([], bound, pending) := by
  cases n with
  | zero => rfl
  | succ n => rw [placeReady, none]

theorem interleaveFrom_cons (none : nextReady? bound pending = none) :
    interleaveFrom bound pending (l :: ls) = l :: interleaveFrom (bound ++ l.varNames) pending ls := by
  rw [interleaveFrom, placeReady_of_none none]
  rfl

theorem interleaveFrom_nil (none : nextReady? bound pending = none) :
    interleaveFrom bound pending [] = pending := by
  rw [interleaveFrom, placeReady_of_none none]
  rfl

/-- How joins and the literals that wait become a body, where the variables of `bound` have values. -/
inductive Merges : List String → List Literal → List Literal → List Literal → Prop
  | place {bound : List String} {pending rest ls body : List Literal} {l : Literal}
      (next : nextReady? bound pending = some (l, rest))
      (merged : Merges (bound ++ bindings l) rest ls body) : Merges bound pending ls (l :: body)
  | join {bound : List String} {pending ls body : List Literal} {l : Literal}
      (none : nextReady? bound pending = none)
      (merged : Merges (bound ++ l.varNames) pending ls body) : Merges bound pending (l :: ls) (l :: body)
  | done {bound : List String} {pending : List Literal}
      (none : nextReady? bound pending = none) : Merges bound pending [] pending

theorem merges_interleaveFrom (bound : List String) (pending ls : List Literal) :
    Merges bound pending ls (interleaveFrom bound pending ls) := by
  -- Each step uses up a literal that waits or a join.
  induction steps : pending.length + ls.length generalizing bound pending ls with
  | zero =>
    rw [List.eq_nil_of_length_eq_zero (l := pending) (by omega),
      List.eq_nil_of_length_eq_zero (l := ls) (by omega), interleaveFrom_nil rfl]
    exact .done rfl
  | succ n ih =>
    cases next : nextReady? bound pending with
    | some found =>
      obtain ⟨l, rest⟩ := found
      have fewer : rest.length + 1 = pending.length := (perm_of_nextReady? next).length_eq
      rw [interleaveFrom_of_next next]
      exact .place next (ih _ _ _ (by omega))
    | none =>
      cases ls with
      | nil =>
        rw [interleaveFrom_nil next]
        exact .done next
      | cons l ls =>
        rw [interleaveFrom_cons next]
        rw [List.length_cons] at steps
        exact .join next (ih _ _ _ (by omega))

/-- The rules for a merged body make one body. -/
theorem merges_iff : Merges bound pending ls body ↔ body = interleaveFrom bound pending ls := by
  constructor
  · intro merges
    induction merges with
    | place next _ ih => rw [interleaveFrom_of_next next, ← ih]
    | join none _ ih => rw [interleaveFrom_cons none, ← ih]
    | done none => rw [interleaveFrom_nil none]
  · rintro rfl
    exact merges_interleaveFrom bound pending ls

/-- Merging drops none of the literals. -/
theorem Merges.perm (merges : Merges bound pending ls body) : body.Perm (ls ++ pending) := by
  induction merges with
  | place next _ ih =>
    exact ((ih.cons _).trans List.perm_middle.symm).trans ((perm_of_nextReady? next).append_left _)
  | join _ _ ih => exact ih.cons _
  | done _ => exact .refl _

end Datalog.JoinOrder
