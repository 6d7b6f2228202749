import Mathlib.Data.Int.Order.Basic
import Mathlib.Data.List.Lex
import Mathlib.Data.List.Perm.Basic
import Mathlib.Data.Nat.Factorial.Basic
import Datalog.JoinOrder

/-!
# The search for an order of the joins

The search goes through the orders of the joins in the lexicographic order of their positions, each of
them once (`orders`), and the score that it adds up on its way is that of the whole order
(`paths_eq_map_orders`). It keeps the first order of highest score (`isFirstBest_best`). So the order
that it ends with (`chosen`) is the lexicographically first among those that score highest
(`exists_chosen_eq`).
-/

namespace Datalog

namespace JoinOrder

/-! ### Orders by position -/

section Orders

variable {α β : Type} {l : List α} {n : Nat}

/-- Every order of a list of length `n`, by position. -/
def orders : Nat → List α → List (List α)
  | 0, _ => [[]]
  | n + 1, l => (choices l).flatMap fun (a, rest) => (orders n rest).map (a :: ·)

theorem length_choices (l : List α) : (choices l).length = l.length := by
  induction l with
  | nil => rfl
  | cons a l ih => rw [choices, List.length_cons, List.length_map, ih, List.length_cons]

theorem perm_of_mem_choices {a : α} {rest : List α} (h : (a, rest) ∈ choices l) :
    (a :: rest).Perm l := by
  induction l generalizing rest with
  | nil => cases h
  | cons b l ih =>
    rw [choices, List.mem_cons] at h
    rcases h with first | later
    · cases first
      exact .refl _
    · obtain ⟨⟨a', rest'⟩, chosen, same⟩ := List.mem_map.1 later
      cases same
      exact (List.Perm.swap b a rest').trans ((ih chosen).cons b)

theorem length_of_mem_choices {e : α × List α} (h : e ∈ choices l) : l.length = e.2.length + 1 :=
  (perm_of_mem_choices h).length_eq.symm

theorem sublist_of_mem_choices {e : α × List α} (h : e ∈ choices l) : e.2.Sublist l := by
  induction l generalizing e with
  | nil => cases h
  | cons b l ih =>
    rw [choices, List.mem_cons] at h
    rcases h with rfl | later
    · exact List.sublist_cons_self b l
    · obtain ⟨e', chosen, rfl⟩ := List.mem_map.1 later
      exact (ih chosen).cons_cons b

theorem exists_mem_choices {a : α} (h : a ∈ l) : ∃ rest, (a, rest) ∈ choices l := by
  induction l with
  | nil => cases h
  | cons b l ih =>
    rcases List.mem_cons.1 h with rfl | later
    · exact ⟨l, List.mem_cons_self⟩
    · obtain ⟨rest, chosen⟩ := ih later
      exact ⟨b :: rest, List.mem_cons_of_mem _ (List.mem_map.2 ⟨_, chosen, rfl⟩)⟩

theorem choices_map (f : α → β) (l : List α) :
    choices (l.map f) = (choices l).map fun e => (f e.1, e.2.map f) := by
  induction l with
  | nil => rfl
  | cons a l ih => simp [choices, ih]

/-- The members of an increasing list are chosen in increasing order. -/
theorem pairwise_choices {l : List Nat} (increasing : l.Pairwise (· < ·)) :
    (choices l).Pairwise fun e e' => e.1 < e'.1 := by
  induction l with
  | nil => exact .nil
  | cons a l ih =>
    obtain ⟨first, others⟩ := List.pairwise_cons.1 increasing
    rw [choices, List.pairwise_cons, List.pairwise_map]
    refine ⟨fun e he => ?_, ih others⟩
    obtain ⟨e', chosen, rfl⟩ := List.mem_map.1 he
    exact first e'.1 ((perm_of_mem_choices chosen).subset List.mem_cons_self)

/-- There are as many orders as the factorial says. -/
theorem length_orders (length : l.length = n) : (orders n l).length = n.factorial := by
  induction n generalizing l with
  | zero => rfl
  | succ n ih =>
    have each : ∀ e ∈ choices l, ((orders n e.2).map (e.1 :: ·)).length = n.factorial := by
      intro e he
      have shorter : e.2.length = n := Nat.succ.inj ((length_of_mem_choices he).symm.trans length)
      rw [List.length_map, ih shorter]
    rw [orders, List.length_flatMap, List.map_congr_left each, List.map_const', List.sum_replicate_nat,
      length_choices, length, Nat.factorial_succ]

theorem mem_orders_iff {o : List α} (length : l.length = n) : o ∈ orders n l ↔ o.Perm l := by
  induction n generalizing l o with
  | zero =>
    rw [List.eq_nil_of_length_eq_zero length, orders, List.mem_singleton, List.perm_nil]
  | succ n ih =>
    have shorter {a : α} {rest : List α} (chosen : (a, rest) ∈ choices l) : rest.length = n :=
      Nat.succ.inj ((length_of_mem_choices chosen).symm.trans length)
    rw [orders, List.mem_flatMap]
    constructor
    · rintro ⟨⟨a, rest⟩, chosen, ho⟩
      obtain ⟨o', ho', rfl⟩ := List.mem_map.1 ho
      exact (((ih (shorter chosen)).1 ho').cons a).trans (perm_of_mem_choices chosen)
    · intro perm
      cases o with
      | nil => simp [← perm.length_eq] at length
      | cons a o =>
        obtain ⟨rest, chosen⟩ := exists_mem_choices (perm.subset List.mem_cons_self)
        have others : o.Perm rest := (perm.trans (perm_of_mem_choices chosen).symm).cons_inv
        exact ⟨_, chosen, List.mem_map.2 ⟨o, (ih (shorter chosen)).2 others, rfl⟩⟩

/-- The first order is the list itself. -/
theorem head?_orders (length : l.length = n) : (orders n l).head? = some l := by
  induction n generalizing l with
  | zero => rw [List.eq_nil_of_length_eq_zero length, orders, List.head?_cons]
  | succ n ih =>
    obtain ⟨a, l, rfl⟩ := List.exists_cons_of_length_eq_add_one length
    have first := ih (Nat.succ.inj length)
    rw [orders, choices, List.flatMap_cons, List.head?_append, List.head?_map, first]
    rfl

theorem orders_map (f : α → β) (n : Nat) (l : List α) :
    orders n (l.map f) = (orders n l).map (List.map f) := by
  induction n generalizing l with
  | zero => rfl
  | succ n ih => simp [orders, choices_map, List.flatMap_map, List.map_flatMap, ih,
    Function.comp_def]

/-- The orders of an increasing list come in lexicographic order. -/
theorem pairwise_orders {l : List Nat} (increasing : l.Pairwise (· < ·)) :
    (orders n l).Pairwise (· < ·) := by
  induction n generalizing l with
  | zero => exact List.pairwise_singleton _ _
  | succ n ih =>
    rw [orders, List.pairwise_flatMap]
    constructor
    · intro e he
      rw [List.pairwise_map]
      refine (ih (increasing.sublist (sublist_of_mem_choices he))).imp fun less => ?_
      exact List.cons_lt_cons_iff.2 (.inr ⟨rfl, less⟩)
    · refine (pairwise_choices increasing).imp fun first => ?_
      intro o ho o' ho'
      obtain ⟨_, -, rfl⟩ := List.mem_map.1 ho
      obtain ⟨_, -, rfl⟩ := List.mem_map.1 ho'
      exact List.cons_lt_cons_iff.2 (.inl first)

end Orders

/-- The scores that the search adds up are those of the orders. -/
theorem paths_eq_map_orders (n depth : Nat) (bound : List String) (ls : List Literal) :
    paths n depth bound ls = (orders n ls).map fun o => (o, scoreFrom depth bound o) := by
  induction n generalizing depth bound ls with
  | zero => rfl
  | succ n ih => simp [paths, orders, ih, List.map_flatMap, scoreFrom, Function.comp_def]

theorem allPaths_eq (ls : List Literal) :
    allPaths ls = (orders ls.length ls).map fun o => (o, score o) := paths_eq_map_orders _ _ _ _

theorem length_allPaths (ls : List Literal) : (allPaths ls).length = ls.length.factorial := by
  rw [allPaths_eq, List.length_map, length_orders rfl]

theorem mem_allPaths_iff {ls : List Literal} {e : List Literal × Int} :
    e ∈ allPaths ls ↔ e.1.Perm ls ∧ e.2 = score e.1 := by
  simp only [allPaths_eq, List.mem_map, mem_orders_iff rfl]
  constructor
  · rintro ⟨o, perm, rfl⟩
    exact ⟨perm, rfl⟩
  · rintro ⟨perm, same⟩
    exact ⟨e.1, perm, Prod.ext rfl same.symm⟩

section Arrange

variable {α β : Type}

/-- The members of a list at the positions that an order lists. -/
def arrange (ls : List α) (order : List Nat) : List α := order.filterMap (ls[·]?)

theorem map_arrange (f : α → β) (ls : List α) (order : List Nat) :
    (arrange ls order).map f = arrange (ls.map f) order := by
  simp [arrange, List.map_filterMap]

variable [Inhabited α]

theorem arrange_eq_map {ls : List α} {order : List Nat} (within : ∀ i ∈ order, i < ls.length) :
    arrange ls order = order.map fun i => ls.getD i default := by
  unfold arrange
  rw [← List.filterMap_eq_map]
  refine List.filterMap_congr fun i hi => ?_
  simp [within i hi]

theorem arrange_range (ls : List α) : arrange ls (List.range ls.length) = ls := by
  rw [arrange_eq_map fun i hi => List.mem_range.1 hi]
  refine List.ext_getElem (by simp) fun i hi hi' => ?_
  simp [hi']

theorem perm_arrange {ls : List α} {order : List Nat} (perm : order.Perm (List.range ls.length)) :
    (arrange ls order).Perm ls := by
  have arranged : (arrange ls order).Perm (arrange ls (List.range ls.length)) := perm.filterMap _
  rwa [arrange_range] at arranged

end Arrange

/-- The orders of literals come from those of their positions. -/
theorem orders_eq_map_arrange (ls : List Literal) :
    orders ls.length ls = (orders ls.length (List.range ls.length)).map (arrange ls) := by
  have positions := orders_map (fun i => ls.getD i default) ls.length (List.range ls.length)
  rw [← arrange_eq_map fun i hi => List.mem_range.1 hi, arrange_range] at positions
  rw [positions]
  refine List.map_congr_left fun order ho => (arrange_eq_map fun i hi => ?_).symm
  exact List.mem_range.1 (((mem_orders_iff List.length_range).1 ho).subset hi)

/-! ### The first order of highest score -/

/-- The entry has the highest score, and comes before all others that have it. -/
def IsFirstBest (ps : List (List Literal × Int)) (e : List Literal × Int) : Prop :=
  ∃ before after, ps = before ++ e :: after ∧ (∀ b ∈ before, b.2 < e.2) ∧ ∀ a ∈ after, a.2 ≤ e.2

theorem IsFirstBest.le {ps : List (List Literal × Int)} {e p : List Literal × Int}
    (first : IsFirstBest ps e) (member : p ∈ ps) : p.2 ≤ e.2 := by
  obtain ⟨before, after, rfl, lower, others⟩ := first
  rcases List.mem_append.1 member with hp | hp
  · exact le_of_lt (lower p hp)
  · rcases List.mem_cons.1 hp with rfl | hp
    · exact le_rfl
    · exact others p hp

/-- A strict comparison keeps the first of equals. -/
theorem isFirstBest_foldl (p : List Literal × Int) (ps : List (List Literal × Int)) :
    IsFirstBest (p :: ps) (best p ps) := by
  induction ps generalizing p with
  | nil => exact ⟨[], [], rfl, by simp, by simp⟩
  | cons q ps ih =>
    show IsFirstBest (p :: q :: ps) (best (if p.2 < q.2 then q else p) ps)
    split
    · next higher =>
      obtain ⟨before, after, split, lower, others⟩ := ih q
      have top : q.2 ≤ (best q ps).2 := (ih q).le List.mem_cons_self
      refine ⟨p :: before, after, by rw [split, List.cons_append], ?_, others⟩
      exact List.forall_mem_cons.2 ⟨lt_of_lt_of_le higher top, lower⟩
    · next kept =>
      obtain ⟨before, after, split, lower, others⟩ := ih p
      rcases List.cons_eq_append_iff.1 split with ⟨rfl, same⟩ | ⟨before', rfl, same⟩
      · obtain ⟨here, rest⟩ := List.cons.inj same
        rw [here] at others ⊢
        rw [rest] at others
        exact ⟨[], q :: ps, rfl, by simp, List.forall_mem_cons.2 ⟨not_lt.1 kept, others⟩⟩
      · obtain ⟨first, rest⟩ := List.forall_mem_cons.1 lower
        refine ⟨p :: q :: before', after, congrArg (p :: q :: ·) same, ?_, others⟩
        exact List.forall_mem_cons.2 ⟨first,
          List.forall_mem_cons.2 ⟨lt_of_le_of_lt (not_lt.1 kept) first, rest⟩⟩

theorem isFirstBest_best {ps : List (List Literal × Int)} (some_path : ps ≠ [])
    (d : List Literal × Int) : IsFirstBest ps (best (ps.headD d) ps) := by
  obtain ⟨p, rest, rfl⟩ := List.exists_cons_of_ne_nil some_path
  have once : best p (p :: rest) = best p rest := by
    show best (if p.2 < p.2 then p else p) rest = _
    rw [if_neg (lt_irrefl _)]
  rw [List.headD_cons, once]
  exact isFirstBest_foldl p rest

/-- The entry that the search of the joins `ls` ends with. -/
def chosen (ls : List Literal) : List Literal × Int :=
  best ((allPaths ls).headD (ls, score ls)) (allPaths ls)

theorem isFirstBest_chosen (ls : List Literal) : IsFirstBest (allPaths ls) (chosen ls) := by
  refine isFirstBest_best (List.ne_nil_of_length_pos ?_) _
  rw [length_allPaths]
  exact Nat.factorial_pos _

theorem chosen_mem (ls : List Literal) :
    (chosen ls).1.Perm ls ∧ (chosen ls).2 = score (chosen ls).1 := by
  obtain ⟨before, after, split, -⟩ := isFirstBest_chosen ls
  refine mem_allPaths_iff.1 ?_
  rw [split]
  exact List.mem_append_right _ List.mem_cons_self

theorem score_le_chosen {ls o : List Literal} (perm : o.Perm ls) : score o ≤ (chosen ls).2 :=
  (isFirstBest_chosen ls).le (p := (o, score o)) (mem_allPaths_iff.2 ⟨perm, rfl⟩)

/-- Literals in an order of highest score are left in it. -/
theorem chosen_eq_self {ls : List Literal} (highest : (chosen ls).2 ≤ score ls) :
    chosen ls = (ls, score ls) := by
  obtain ⟨before, after, split, lower, -⟩ := isFirstBest_chosen ls
  have first : (allPaths ls).head? = some (ls, score ls) := by
    rw [allPaths_eq, List.head?_map, head?_orders rfl]
    rfl
  rw [split] at first
  cases before with
  | nil => exact Option.some.inj first
  | cons p before =>
    have same : p = (ls, score ls) := Option.some.inj first
    have less := lower p List.mem_cons_self
    rw [same] at less
    exact absurd highest (not_le.2 less)

/-- Searched again, the chosen order stays. -/
theorem chosen_chosen (ls : List Literal) : chosen (chosen ls).1 = chosen ls := by
  obtain ⟨perm, score_eq⟩ := chosen_mem ls
  obtain ⟨perm', score_eq'⟩ := chosen_mem (chosen ls).1
  have highest : (chosen (chosen ls).1).2 ≤ score (chosen ls).1 := by
    rw [score_eq', ← score_eq]
    exact score_le_chosen (perm'.trans perm)
  rw [chosen_eq_self highest, ← score_eq]

/-- The chosen order is the lexicographically first among those of highest score. -/
theorem exists_chosen_eq (ls : List Literal) :
    ∃ order : List Nat, order.Perm (List.range ls.length) ∧
      chosen ls = (arrange ls order, score (arrange ls order)) ∧
      ∀ other : List Nat, other.Perm (List.range ls.length) →
        score (arrange ls other) ≤ score (arrange ls order) ∧
        (score (arrange ls other) = score (arrange ls order) → order ≤ other) := by
  obtain ⟨before, after, split, lower, others⟩ := isFirstBest_chosen ls
  rw [allPaths_eq, orders_eq_map_arrange, List.map_map] at split
  obtain ⟨earlier, rest, listed, rfl, found⟩ := List.map_eq_append_iff.1 split
  obtain ⟨order, later, rfl, entry, rfl⟩ := List.map_eq_cons_iff.1 found
  have increasing := pairwise_orders (n := ls.length) (List.pairwise_lt_range (n := ls.length))
  rw [listed, List.pairwise_append, List.pairwise_cons] at increasing
  have mem (o : List Nat) : o ∈ earlier ++ order :: later ↔ o.Perm (List.range ls.length) := by
    rw [← listed, mem_orders_iff List.length_range]
  refine ⟨order, (mem order).1 (by simp), entry.symm, fun other perm => ?_⟩
  rw [← entry] at lower others
  rcases List.mem_append.1 ((mem other).2 perm) with hother | hother
  · have less : score (arrange ls other) < score (arrange ls order) :=
      lower _ (List.mem_map_of_mem hother)
    exact ⟨le_of_lt less, fun same => absurd same (ne_of_lt less)⟩
  · rcases List.mem_cons.1 hother with rfl | hother
    · exact ⟨le_rfl, fun _ => le_rfl⟩
    · exact ⟨others _ (List.mem_map_of_mem hother),
        fun _ => le_of_lt (increasing.2.1.1 other hother)⟩

end JoinOrder

end Datalog
