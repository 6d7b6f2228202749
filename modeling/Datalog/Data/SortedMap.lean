import Datalog.Data.Ascending

/-!
# Finite maps as key-ascending lists

A `SortedMap` lists its entries by strictly ascending key, so the listing order of a map is a
function of its contents and maps with the same entries are equal (`SortedMap.ext_get?`). The view
is `get?`; every operation says what it does to that view.
-/

open Std (TransOrd LawfulEqOrd)

namespace Datalog

/-- A finite map, listed by strictly ascending key. -/
structure SortedMap (κ β : Type) [Ord κ] where
  toList : List (κ × β)
  sorted : toList.Pairwise fun a b => compare a.1 b.1 = .lt

namespace SortedMap

variable {κ β γ : Type} [Ord κ]

/-- The value that the first entry with key `k` holds. -/
def getList? (k : κ) : List (κ × β) → Option β
  | [] => none
  | e :: l => if compare k e.1 = .eq then some e.2 else getList? k l

/-- Puts `k ↦ v` at its place in a key-ascending list, replacing an entry with that key. -/
def insertList (k : κ) (v : β) : List (κ × β) → List (κ × β)
  | [] => [(k, v)]
  | e :: l =>
    match compare k e.1 with
    | .lt => (k, v) :: e :: l
    | .eq => (k, v) :: l
    | .gt => e :: insertList k v l

/-- The map with no entry. -/
def empty : SortedMap κ β := ⟨[], .nil⟩

instance : EmptyCollection (SortedMap κ β) := ⟨empty⟩

instance : Inhabited (SortedMap κ β) := ⟨∅⟩

instance [DecidableEq κ] [DecidableEq β] : DecidableEq (SortedMap κ β) := fun s t =>
  decidable_of_iff (s.toList = t.toList) ⟨fun h => by cases s; cases t; simp_all, fun h => h ▸ rfl⟩

/-- The value at key `k`. -/
def get? (m : SortedMap κ β) (k : κ) : Option β := getList? k m.toList

/-- The value at key `k`, or `d` where there is none. -/
def getD (m : SortedMap κ β) (k : κ) (d : β) : β := (m.get? k).getD d

/-- Whether there is an entry with key `k`. -/
def contains (m : SortedMap κ β) (k : κ) : Bool := (m.get? k).isSome

/-- The keys, ascending. -/
def keys (m : SortedMap κ β) : List κ := m.toList.map Prod.fst

/-- The values, by ascending key. -/
def values (m : SortedMap κ β) : List β := m.toList.map Prod.snd

/-- The number of entries. -/
def size (m : SortedMap κ β) : Nat := m.toList.length

/-- Whether there is no entry. -/
def isEmpty (m : SortedMap κ β) : Bool := m.toList.isEmpty

/-- The entries that pass the test `p`. -/
def filter (p : κ → β → Bool) (m : SortedMap κ β) : SortedMap κ β :=
  ⟨m.toList.filter fun e => p e.1 e.2, m.sorted.filter _⟩

/-- Applies `f` to every value. -/
def map (f : κ → β → γ) (m : SortedMap κ β) : SortedMap κ γ :=
  ⟨m.toList.map fun e => (e.1, f e.1 e.2), List.pairwise_map.2 m.sorted⟩

/-- The map without an entry for key `k`. -/
def erase (m : SortedMap κ β) (k : κ) : SortedMap κ β := m.filter fun k' _ => compare k k' != .eq

@[simp] theorem get?_empty {k : κ} : (∅ : SortedMap κ β).get? k = none := rfl

@[simp] theorem getD_empty {k : κ} {d : β} : (∅ : SortedMap κ β).getD k d = d := rfl

theorem mem_insertList {k : κ} {v : β} {e : κ × β} {l : List (κ × β)}
    (h : e ∈ insertList k v l) : e = (k, v) ∨ e ∈ l := by
  induction l with
  | nil => simpa [insertList] using h
  | cons e' l ih =>
    rw [insertList] at h
    split at h <;> grind

variable [LawfulEqOrd κ]

theorem getList?_eq_some_mem {k : κ} {v : β} {l : List (κ × β)} (h : getList? k l = some v) :
    (k, v) ∈ l := by
  induction l with
  | nil => simp [getList?] at h
  | cons e l ih =>
    rw [getList?] at h
    split at h
    · next hk =>
      cases Std.LawfulEqOrd.eq_of_compare hk
      cases Option.some.inj h
      exact List.mem_cons_self
    · exact List.mem_cons_of_mem _ (ih h)

theorem getList?_insertList {k k' : κ} {v : β} {l : List (κ × β)} :
    getList? k' (insertList k v l) = if compare k' k = .eq then some v else getList? k' l := by
  induction l with
  | nil => simp [insertList, getList?]
  | cons e l ih =>
    simp only [insertList]
    split
    · rfl
    · next h =>
      cases Std.LawfulEqOrd.eq_of_compare h
      simp only [getList?]
      split <;> simp_all
    · next h =>
      simp only [getList?, ih]
      split
      · next h₁ =>
        cases Std.LawfulEqOrd.eq_of_compare h₁
        split
        · next h₂ =>
          cases Std.LawfulEqOrd.eq_of_compare h₂
          simp at h
        · rfl
      · rfl

theorem getList?_eq_some_iff {k : κ} {v : β} {l : List (κ × β)}
    (h : l.Pairwise fun a b => compare a.1 b.1 = .lt) : getList? k l = some v ↔ (k, v) ∈ l := by
  refine ⟨getList?_eq_some_mem, fun hm => ?_⟩
  induction l with
  | nil => simp at hm
  | cons e l ih =>
    rw [List.pairwise_cons] at h
    rw [getList?]
    rcases List.mem_cons.1 hm with rfl | hm
    · simp
    · have := h.1 _ hm
      rw [if_neg, ih h.2 hm]
      intro hk
      cases Std.LawfulEqOrd.eq_of_compare hk
      simp at this

/-- An entry is listed exactly when looking up its key finds its value. -/
theorem mem_toList_iff {m : SortedMap κ β} {k : κ} {v : β} :
    (k, v) ∈ m.toList ↔ m.get? k = some v := (getList?_eq_some_iff m.sorted).symm

@[simp] theorem get?_map {m : SortedMap κ β} {f : κ → β → γ} {k : κ} :
    (m.map f).get? k = (m.get? k).map (f k) := by
  cases h : m.get? k with
  | some v =>
    rw [← mem_toList_iff] at h
    exact mem_toList_iff.1 (List.mem_map.2 ⟨_, h, rfl⟩)
  | none =>
    cases h' : (m.map f).get? k with
    | none => rfl
    | some w =>
      obtain ⟨e, he, heq⟩ := List.mem_map.1 (mem_toList_iff.2 h')
      obtain ⟨rfl, rfl⟩ := Prod.mk.inj heq
      rw [mem_toList_iff.1 he] at h
      cases h

@[simp] theorem get?_filter {m : SortedMap κ β} {p : κ → β → Bool} {k : κ} :
    (m.filter p).get? k = (m.get? k).filter (p k) := by
  refine Option.ext fun v => ?_
  rw [← mem_toList_iff, Option.filter_eq_some_iff, ← mem_toList_iff]
  exact List.mem_filter

theorem get?_erase {m : SortedMap κ β} {k k' : κ} :
    (m.erase k).get? k' = if compare k k' = .eq then none else m.get? k' := by
  rw [erase, get?_filter]
  split
  · next h => cases m.get? k' <;> simp [Option.filter, h]
  · next h => cases m.get? k' <;> simp [Option.filter, h]

theorem mem_keys_iff {m : SortedMap κ β} {k : κ} : k ∈ m.keys ↔ m.get? k ≠ none := by
  rw [Option.ne_none_iff_exists']
  constructor
  · intro h
    obtain ⟨⟨k', v⟩, member, rfl⟩ := List.mem_map.1 h
    exact ⟨v, mem_toList_iff.1 member⟩
  · rintro ⟨v, found⟩
    exact List.mem_map.2 ⟨(k, v), mem_toList_iff.2 found, rfl⟩

theorem nodup_keys (m : SortedMap κ β) : m.keys.Nodup := by
  refine List.pairwise_map.2 (m.sorted.imp fun h same => ?_)
  rw [same] at h
  simp at h

variable [TransOrd κ]

theorem pairwise_insertList {k : κ} {v : β} {l : List (κ × β)}
    (h : l.Pairwise fun a b => compare a.1 b.1 = .lt) :
    (insertList k v l).Pairwise fun a b => compare a.1 b.1 = .lt := by
  induction l with
  | nil => simp [insertList]
  | cons e l ih =>
    rw [List.pairwise_cons] at h
    simp only [insertList]
    split
    · next hke =>
      refine List.pairwise_cons.2 ⟨?_, List.pairwise_cons.2 h⟩
      intro c hc
      rcases List.mem_cons.1 hc with rfl | hc
      · exact hke
      · exact Std.TransCmp.lt_trans hke (h.1 c hc)
    · next hke =>
      cases Std.LawfulEqOrd.eq_of_compare hke
      exact List.pairwise_cons.2 ⟨fun c hc => h.1 c hc, h.2⟩
    · next hke =>
      refine List.pairwise_cons.2 ⟨?_, ih h.2⟩
      intro c hc
      rcases mem_insertList hc with rfl | hc
      · exact Std.OrientedCmp.gt_iff_lt.1 hke
      · exact h.1 c hc

/-- The map with `v` at key `k`. -/
def insert (m : SortedMap κ β) (k : κ) (v : β) : SortedMap κ β :=
  ⟨insertList k v m.toList, pairwise_insertList m.sorted⟩

/-- The map with the value at key `k` replaced by what `f` makes of it. -/
def alter (m : SortedMap κ β) (k : κ) (f : Option β → β) : SortedMap κ β := m.insert k (f (m.get? k))

/-- The map of a list of entries, where a later entry replaces an earlier one. -/
def ofList (l : List (κ × β)) : SortedMap κ β := l.foldl (fun m e => m.insert e.1 e.2) ∅

@[simp] theorem get?_insert {m : SortedMap κ β} {k k' : κ} {v : β} :
    (m.insert k v).get? k' = if compare k' k = .eq then some v else m.get? k' :=
  getList?_insertList

theorem get?_insert_self {m : SortedMap κ β} {k : κ} {v : β} : (m.insert k v).get? k = some v := by
  simp

theorem get?_insert_of_ne {m : SortedMap κ β} {k k' : κ} {v : β} (h : k' ≠ k) :
    (m.insert k v).get? k' = m.get? k' := by
  rw [get?_insert, if_neg fun h' => h (Std.LawfulEqOrd.eq_of_compare h')]

theorem mem_keys_insert {m : SortedMap κ β} {k k' : κ} {v : β} :
    k' ∈ (m.insert k v).keys ↔ k' = k ∨ k' ∈ m.keys := by
  rw [mem_keys_iff, mem_keys_iff]
  by_cases h : k' = k
  · subst h
    simp
  · rw [get?_insert_of_ne h]
    simp [h]

/-- Maps with the same view are equal. -/
theorem ext_get? {m n : SortedMap κ β} (h : ∀ k, m.get? k = n.get? k) : m = n := by
  have := eq_of_pairwise_of_mem_iff (fun a b => not_compare_lt_swap a.1 b.1) m.sorted n.sorted
    fun (k, v) => by rw [mem_toList_iff, mem_toList_iff, h k]
  cases m; cases n; simp_all

end SortedMap

end Datalog
