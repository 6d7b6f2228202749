/-!
# Splitting at a separator

Cuts a list at every occurrence of a separator, or at the last one. There is always one piece more than
there are separators cut at.
-/

namespace Datalog.Text

/-- The pieces of a list between separators. -/
def splitOn {α : Type} [DecidableEq α] (sep : α) : List α → List (List α)
  | [] => [[]]
  | a :: l =>
    if a = sep then [] :: splitOn sep l
    else
      match splitOn sep l with
      | [] => [[a]]
      | w :: ws => (a :: w) :: ws

/-- Cuts a list at the last occurrence of a separator. -/
def splitLast? {α : Type} [DecidableEq α] (sep : α) : List α → Option (List α × List α)
  | [] => none
  | a :: l =>
    match splitLast? sep l with
    | some (front, back) => some (a :: front, back)
    | none => if a = sep then some ([], l) else none

theorem splitOn_ne_nil {α : Type} [DecidableEq α] (sep : α) (l : List α) : splitOn sep l ≠ [] := by
  cases l with
  | nil => simp [splitOn]
  | cons a l =>
    rw [splitOn]
    split
    · simp
    · split <;> simp

theorem splitOn_of_not_mem {α : Type} [DecidableEq α] {sep : α} {l : List α} (h : sep ∉ l) :
    splitOn sep l = [l] := by
  induction l with
  | nil => rfl
  | cons a l ih =>
    have ha : a ≠ sep := fun e => h (e ▸ List.mem_cons_self)
    rw [splitOn, if_neg ha, ih fun hm => h (List.mem_cons_of_mem _ hm)]

end Datalog.Text
