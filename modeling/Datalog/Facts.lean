import Datalog.Data.SortedMap
import Datalog.Error

/-!
# Fact stores

`Facts` holds a relation for every predicate that was ever inserted into, even if no tuple came with
it. Facts are themselves a store, the one kept in memory; a store of another kind is anything whose
facts can be read and that takes new tuples (`FactStore`), where taking them may fail.
-/

namespace Datalog

/-- A relation for each predicate. -/
abbrev Facts := SortedMap Predicate Relation

namespace Facts

/-- The tuples of a predicate. -/
def scan (f : Facts) (p : Predicate) : Relation := f.getD p ∅

/-- Adds tuples to a predicate, which is listed from then on. -/
def add (f : Facts) (p : Predicate) (r : Relation) : Facts := f.insert p ((f.scan p).union r)

/-- The predicates, ascending. -/
def predicates (f : Facts) : List Predicate := f.keys

/-- Adds every relation of a list to the predicate that stands beside it. -/
def ofList (l : List (Predicate × Relation)) : Facts := l.foldl (fun f (p, r) => f.add p r) ∅

@[simp] theorem scan_empty (p : Predicate) : scan ∅ p = ∅ := rfl

@[simp] theorem scan_add_self (f : Facts) (p : Predicate) (r : Relation) :
    (f.add p r).scan p = (f.scan p).union r := by
  simp [scan, add, SortedMap.getD]

theorem scan_add_of_ne (f : Facts) {p q : Predicate} (r : Relation) (h : q ≠ p) :
    (f.add p r).scan q = f.scan q := by
  rw [scan, add, SortedMap.getD, SortedMap.get?_insert_of_ne h]
  rfl

theorem scan_of_mem_toList {f : Facts} {p : Predicate} {r : Relation} (h : (p, r) ∈ f.toList) :
    f.scan p = r := by
  rw [scan, SortedMap.getD, SortedMap.mem_toList_iff.1 h]
  rfl

theorem mem_toList_of_mem_scan {f : Facts} {p : Predicate} {t : Tuple} (h : t ∈ f.scan p) :
    (p, f.scan p) ∈ f.toList := by
  rw [SortedMap.mem_toList_iff]
  cases found : f.get? p with
  | none =>
    rw [scan, SortedMap.getD, found] at h
    exact absurd h SortedSet.not_mem_empty
  | some r => rw [scan_of_mem_toList (SortedMap.mem_toList_iff.2 found)]

theorem mem_predicates_add {f : Facts} {p q : Predicate} {r : Relation} :
    q ∈ (f.add p r).predicates ↔ q = p ∨ q ∈ f.predicates := SortedMap.mem_keys_insert

theorem mem_predicates_of_mem_scan {f : Facts} {p : Predicate} {t : Tuple} (h : t ∈ f.scan p) :
    p ∈ f.predicates := List.mem_map.2 ⟨_, mem_toList_of_mem_scan h, rfl⟩

end Facts

/-- Something that holds facts and takes new ones. -/
class FactStore (τ : Type) where
  /-- The facts held. -/
  facts : τ → Facts
  /-- Adds tuples to a predicate. The answer holds those that were new. -/
  insert : τ → Predicate → Relation → Except StoreError Relation × τ

/-- Facts in memory take any tuples. -/
instance : FactStore Facts where
  facts f := f
  insert f p r := (.ok (r.diff (f.scan p)), f.add p r)

end Datalog
