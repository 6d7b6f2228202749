/-!
# Strictly ascending lists

A list that is pairwise related by an asymmetric relation is determined by its members.
-/

namespace Datalog

/-- Two lists that ascend along an asymmetric relation and have the same members are equal. -/
theorem eq_of_pairwise_of_mem_iff {α : Type} {r : α → α → Prop} (asymm : ∀ a b, r a b → ¬r b a)
    {l m : List α} (hl : l.Pairwise r) (hm : m.Pairwise r) (h : ∀ a, a ∈ l ↔ a ∈ m) : l = m := by
  induction l generalizing m with
  | nil => exact (List.eq_nil_iff_forall_not_mem.2 fun a ha => by simpa using (h a).2 ha).symm
  | cons a l ih =>
    cases m with
    | nil => simpa using (h a).1 List.mem_cons_self
    | cons b m =>
      rw [List.pairwise_cons] at hl hm
      have hab : a = b := by
        rcases List.mem_cons.1 ((h a).1 List.mem_cons_self) with hab | ha
        · exact hab
        · rcases List.mem_cons.1 ((h b).2 List.mem_cons_self) with hba | hb
          · exact hba.symm
          · exact absurd (hm.1 a ha) (asymm _ _ (hl.1 b hb))
      subst hab
      congr 1
      refine ih hl.2 hm.2 fun c => ⟨fun hc => ?_, fun hc => ?_⟩
      · rcases List.mem_cons.1 ((h c).1 (List.mem_cons_of_mem _ hc)) with rfl | h'
        · exact absurd (hl.1 _ hc) (asymm _ _ (hl.1 _ hc))
        · exact h'
      · rcases List.mem_cons.1 ((h c).2 (List.mem_cons_of_mem _ hc)) with rfl | h'
        · exact absurd (hm.1 _ hc) (asymm _ _ (hm.1 _ hc))
        · exact h'

/-- Nothing is below something that is below it. -/
theorem not_compare_lt_swap {α : Type} [Ord α] [Std.TransOrd α] (a b : α) (h : compare a b = .lt) :
    ¬compare b a = .lt := fun h' => by
  have := Std.TransCmp.lt_trans h h'
  simp [Std.ReflCmp.compare_self] at this

end Datalog
