import Datalog.Data.Ascending

/-!
# Finite sets as strictly ascending lists

A `SortedSet` lists its members in strictly ascending order, so two sets with the same members
are equal (`SortedSet.ext_mem`) and listing a set needs no further sorting. Every operation has
one membership lemma; nothing else about the representation is used elsewhere.
-/

open Std (TransOrd LawfulEqOrd)

namespace Datalog

/-- A finite set, listed in strictly ascending order. -/
structure SortedSet (α : Type) [Ord α] where
  toList : List α
  sorted : toList.Pairwise fun a b => compare a b = .lt

namespace SortedSet

variable {α β : Type} [Ord α] [Ord β]

/-- Puts `a` at its place in an ascending list, unless it is there already. -/
def insertList (a : α) : List α → List α
  | [] => [a]
  | b :: l =>
    match compare a b with
    | .lt => a :: b :: l
    | .eq => b :: l
    | .gt => b :: insertList a l

instance : Membership α (SortedSet α) := ⟨fun s a => a ∈ s.toList⟩

theorem mem_def {a : α} {s : SortedSet α} : a ∈ s ↔ a ∈ s.toList := Iff.rfl

instance [DecidableEq α] (a : α) (s : SortedSet α) : Decidable (a ∈ s) :=
  inferInstanceAs (Decidable (a ∈ s.toList))

instance [DecidableEq α] : DecidableEq (SortedSet α) := fun s t =>
  decidable_of_iff (s.toList = t.toList) ⟨fun h => by cases s; cases t; simp_all, fun h => h ▸ rfl⟩

/-- The set with no member. -/
def empty : SortedSet α := ⟨[], .nil⟩

instance : EmptyCollection (SortedSet α) := ⟨empty⟩

instance : Inhabited (SortedSet α) := ⟨∅⟩

/-- The set with the one member `a`. -/
def singleton (a : α) : SortedSet α := ⟨[a], List.pairwise_singleton _ _⟩

/-- The number of members. -/
def size (s : SortedSet α) : Nat := s.toList.length

/-- Whether there is no member. -/
def isEmpty (s : SortedSet α) : Bool := s.toList.isEmpty

/-- The members that pass the test `p`. -/
def filter (p : α → Bool) (s : SortedSet α) : SortedSet α := ⟨s.toList.filter p, s.sorted.filter p⟩

/-- The members of `s` that are not members of `t`. -/
def diff [DecidableEq α] (s t : SortedSet α) : SortedSet α := s.filter fun a => a ∉ t

@[simp] theorem toList_empty : (∅ : SortedSet α).toList = [] := rfl

@[simp] theorem not_mem_empty {a : α} : ¬a ∈ (∅ : SortedSet α) := List.not_mem_nil

@[simp] theorem mem_singleton {a b : α} : a ∈ singleton b ↔ a = b := List.mem_singleton

@[simp] theorem mem_filter {a : α} {p : α → Bool} {s : SortedSet α} :
    a ∈ s.filter p ↔ a ∈ s ∧ p a = true := List.mem_filter

@[simp] theorem mem_diff [DecidableEq α] {a : α} {s t : SortedSet α} :
    a ∈ s.diff t ↔ a ∈ s ∧ a ∉ t := by simp [diff]

theorem isEmpty_iff {s : SortedSet α} : s.isEmpty = true ↔ ∀ a, a ∉ s := by
  simp only [isEmpty, List.isEmpty_iff, mem_def]
  exact List.eq_nil_iff_forall_not_mem

theorem isEmpty_eq_false_iff {s : SortedSet α} : s.isEmpty = false ↔ ∃ a, a ∈ s := by
  rw [← Bool.not_eq_true, isEmpty_iff, Classical.not_forall_not]

variable [LawfulEqOrd α]

theorem mem_insertList {a b : α} {l : List α} : a ∈ insertList b l ↔ a = b ∨ a ∈ l := by
  induction l with
  | nil => simp [insertList]
  | cons c l ih =>
    simp only [insertList]
    split
    · simp
    · next h => simp [Std.LawfulEqOrd.eq_of_compare h]
    · simp only [List.mem_cons, ih]
      grind

variable [TransOrd α]

theorem pairwise_insertList {a : α} {l : List α} (h : l.Pairwise fun a b => compare a b = .lt) :
    (insertList a l).Pairwise fun a b => compare a b = .lt := by
  induction l with
  | nil => simp [insertList]
  | cons b l ih =>
    rw [List.pairwise_cons] at h
    simp only [insertList]
    split
    · next hab =>
      refine List.pairwise_cons.2 ⟨?_, List.pairwise_cons.2 h⟩
      intro c hc
      rcases List.mem_cons.1 hc with rfl | hc
      · exact hab
      · exact Std.TransCmp.lt_trans hab (h.1 c hc)
    · exact List.pairwise_cons.2 h
    · next hab =>
      refine List.pairwise_cons.2 ⟨?_, ih h.2⟩
      intro c hc
      rcases mem_insertList.1 hc with rfl | hc
      · exact Std.OrientedCmp.gt_iff_lt.1 hab
      · exact h.1 c hc

/-- The set with `a` added. -/
def insert (a : α) (s : SortedSet α) : SortedSet α :=
  ⟨insertList a s.toList, pairwise_insertList s.sorted⟩

/-- The set of the members of a list. -/
def ofList (l : List α) : SortedSet α := l.foldr insert ∅

/-- The members of either set. -/
def union (s t : SortedSet α) : SortedSet α := t.toList.foldr insert s

@[simp] theorem mem_insert {a b : α} {s : SortedSet α} : a ∈ s.insert b ↔ a = b ∨ a ∈ s :=
  mem_insertList

theorem mem_foldr_insert {a : α} {l : List α} {s : SortedSet α} :
    a ∈ l.foldr insert s ↔ a ∈ l ∨ a ∈ s := by
  induction l with
  | nil => simp
  | cons b l ih => simp [ih, or_assoc]

@[simp] theorem mem_ofList {a : α} {l : List α} : a ∈ ofList l ↔ a ∈ l := by
  simp [ofList, mem_foldr_insert]

@[simp] theorem mem_union {a : α} {s t : SortedSet α} : a ∈ s.union t ↔ a ∈ s ∨ a ∈ t := by
  rw [union, mem_foldr_insert, or_comm]
  rfl

omit [LawfulEqOrd α] in
/-- Sets with the same members are equal. -/
theorem ext_mem {s t : SortedSet α} (h : ∀ a, a ∈ s ↔ a ∈ t) : s = t := by
  have := eq_of_pairwise_of_mem_iff not_compare_lt_swap s.sorted t.sorted h
  cases s; cases t; simp_all

end SortedSet

end Datalog
