import Mathlib.Logic.Function.Basic
import Datalog.Proofs.Operators

/-!
# Matching and filling in are inverse

The schema of a pattern names each of its variables once, so a row with one column per name is the row of
values of a substitution (`exists_map_eq`). A pattern therefore matches a tuple with a row exactly when the
template of the same terms, filled with the row, is the tuple (`Pattern.apply_eq_some_iff_fills`). What a
pattern matches holds its ground terms, so looking for these first changes nothing
(`Pattern.filterMap_filter_accepts`).
-/

namespace Datalog

/-- Dropping repetitions leaves none. -/
theorem nodup_eraseDups : ∀ l : List String, l.eraseDups.Nodup
  | [] => List.nodup_nil
  | a :: l => by
    rw [List.eraseDups_cons, List.nodup_cons]
    refine ⟨?_, nodup_eraseDups (l.filter fun b => !b == a)⟩
    rw [List.mem_eraseDups, List.mem_filter]
    rintro ⟨-, other⟩
    simp at other
  termination_by l => l.length
  decreasing_by exact Nat.lt_succ_of_le (List.length_filter_le _ _)

/-- A row with one column for each of several names holds the values of a substitution. -/
theorem exists_map_eq {S : List String} (distinct : S.Nodup) {row : Tuple}
    (width : row.length = S.length) : ∃ σ : Substitution, S.map σ = row := by
  induction S generalizing row with
  | nil => exact ⟨.var, (List.eq_nil_of_length_eq_zero width).symm⟩
  | cons x S ih =>
    cases row with
    | nil => cases width
    | cons v row =>
      rw [List.nodup_cons] at distinct
      obtain ⟨σ, rfl⟩ := ih distinct.2 (Nat.succ.inj width)
      refine ⟨Function.update σ x v, ?_⟩
      rw [List.map_cons, Function.update_self]
      refine congrArg _ (List.map_congr_left fun y hy => ?_)
      apply Function.update_of_ne
      rintro rfl
      exact distinct.1 hy

namespace ConstantFilter

/-- The ground terms of a pattern are as many as it has places for, and stand at such places. -/
theorem ofPattern_eq (ts : Tuple) : ofPattern ts = .ok ⟨ts.length, groundTerms ts⟩ := by
  have few : (groundTerms ts).length ≤ ts.length := by
    rw [groundTerms, List.length_map]
    refine (List.length_filter_le _ _).trans ?_
    rw [List.length_zipIdx]
  have inside : ((groundTerms ts).find? fun c => ts.length ≤ c.1) = none := by
    rw [List.find?_eq_none]
    intro c hc
    rw [groundTerms, List.mem_map] at hc
    obtain ⟨⟨t, i⟩, listed, rfl⟩ := hc
    have at_place : ts[i]? = some t := List.mem_zipIdx_iff_getElem?.1 (List.mem_filter.1 listed).1
    obtain ⟨short, -⟩ := List.getElem?_eq_some_iff.1 at_place
    simpa using short
  rw [ofPattern, ofConstants, if_neg (Nat.not_lt.2 few), inside]

end ConstantFilter

namespace Pattern

variable {p : Pattern} {t row : Tuple}

/-- The template of the terms of a pattern, over its schema. -/
def template (p : Pattern) : Template := ⟨p.terms, p.schema⟩

theorem nodup_schema (p : Pattern) : p.schema.Nodup := nodup_eraseDups _

/-- Filling the values of a substitution into the template gives the instance of the pattern. -/
theorem template_apply_map (p : Pattern) (σ : Substitution) :
    p.template.apply (p.schema.map σ) = some (p.terms.subst σ) :=
  Template.apply_map (t := p.template) (fun _ hx => hx) σ

/-- A row is what the pattern yields for a tuple when it has the columns of the schema and fills the
template to the tuple. -/
theorem apply_eq_some_iff_fills :
    p.apply t = some row ↔ row.length = p.schema.length ∧ p.template.apply row = some t := by
  rw [apply_eq_some_iff]
  constructor
  · rintro ⟨σ, rfl, rfl⟩
    exact ⟨List.length_map .., p.template_apply_map σ⟩
  · rintro ⟨width, fills⟩
    obtain ⟨σ, rfl⟩ := exists_map_eq p.nodup_schema width
    rw [template_apply_map] at fills
    exact ⟨σ, Option.some.inj fills, rfl⟩

/-- A tuple that is matched passes the filter on the ground terms. -/
theorem accepts_of_apply {ts : Tuple} (h : (Pattern.mk ts).apply t = some row) :
    ConstantFilter.accepts ⟨ts.length, ConstantFilter.groundTerms ts⟩ t = true := by
  obtain ⟨σ, rfl, -⟩ := apply_eq_some_iff.1 h
  exact Operator.accepts_subst ts σ

/-- Filtering by the ground terms before matching changes no result. -/
theorem filterMap_filter_accepts (ts : Tuple) (r : Relation) :
    Relation.filterMap (Pattern.mk ts).apply
        (r.filter (ConstantFilter.accepts ⟨ts.length, ConstantFilter.groundTerms ts⟩)) =
      Relation.filterMap (Pattern.mk ts).apply r := by
  refine SortedSet.ext_mem fun row => ?_
  rw [Relation.mem_filterMap, Relation.mem_filterMap]
  constructor
  · rintro ⟨t, ht, matched⟩
    exact ⟨t, (SortedSet.mem_filter.1 ht).1, matched⟩
  · rintro ⟨t, ht, matched⟩
    exact ⟨t, SortedSet.mem_filter.2 ⟨ht, accepts_of_apply matched⟩, matched⟩

/-- The scan of an atom denotes what matching all facts denotes. -/
theorem rows_scan (a : Atom) (sources : Sources) :
    (Operator.scan a).rows sources =
      (Plan.unify (.input Operator.source a.predicate.arity) ⟨a.terms⟩).rows sources := by
  unfold Operator.scan
  dsimp only
  split
  · rfl
  · exact filterMap_filter_accepts a.terms _

/-- **Matching and filling in are inverse, and filtering first is redundant.** For all terms: matching a
tuple yields a row exactly when the row has one column for each variable and filling it in gives the tuple;
so there is at most one such row. There is always a filter on the ground terms; it accepts all that the
pattern matches, and a plan that filters before it matches denotes the same rows as one that does not. So
does the scan of an atom with these terms. -/
theorem matching_exact (ts : Tuple) :
    (∀ t row, (Pattern.mk ts).apply t = some row ↔
      row.length = (Pattern.mk ts).schema.length ∧
        Template.apply ⟨ts, (Pattern.mk ts).schema⟩ row = some t) ∧
    (∀ t row row', row.length = (Pattern.mk ts).schema.length →
      row'.length = (Pattern.mk ts).schema.length →
      Template.apply ⟨ts, (Pattern.mk ts).schema⟩ row = some t →
      Template.apply ⟨ts, (Pattern.mk ts).schema⟩ row' = some t → row = row') ∧
    ∃ f, ConstantFilter.ofPattern ts = .ok f ∧
      (∀ t, ((Pattern.mk ts).apply t).isSome = true → f.accepts t = true) ∧
      (∀ (sources : Sources) (plan : Plan),
        (Plan.unify (.filter plan f) ⟨ts⟩).rows sources = (Plan.unify plan ⟨ts⟩).rows sources) ∧
      ∀ (sources : Sources) (p : Predicate), (Operator.scan ⟨p, ts⟩).rows sources =
        (Plan.unify (.input Operator.source p.arity) ⟨ts⟩).rows sources := by
  refine ⟨fun t row => apply_eq_some_iff_fills, ?_, _, ConstantFilter.ofPattern_eq ts, ?_, ?_, ?_⟩
  · intro t row row' width width' fills fills'
    have matched : (Pattern.mk ts).apply t = some row := apply_eq_some_iff_fills.2 ⟨width, fills⟩
    have matched' : (Pattern.mk ts).apply t = some row' := apply_eq_some_iff_fills.2 ⟨width', fills'⟩
    exact Option.some.inj (matched.symm.trans matched')
  · intro t some_row
    obtain ⟨row, matched⟩ := Option.isSome_iff_exists.1 some_row
    exact accepts_of_apply matched
  · intro sources plan
    exact filterMap_filter_accepts ts (plan.rows sources)
  · intro sources p
    exact rows_scan ⟨p, ts⟩ sources

/-- The terms `f(?X, ?Y), ?X, "c"`: a variable stands twice, and inside an application. -/
def nestedTerms : Tuple := [.app "f" [.var "X", .var "Y"], .var "X", .str "c"]

/-- The value of a variable may be an application; the two places of `?X` are one column. -/
theorem nestedTerms_matched :
    let t : Tuple := [.app "f" [.app "g" [.int 1], .int 2], .app "g" [.int 1], .str "c"]
    let row : Tuple := [.app "g" [.int 1], .int 2]
    (Pattern.mk nestedTerms).apply t = some row ∧ row.length = (Pattern.mk nestedTerms).schema.length ∧
      Template.apply ⟨nestedTerms, (Pattern.mk nestedTerms).schema⟩ row = some t := by
  intro t row
  have matched : (Pattern.mk nestedTerms).apply t = some row := by decide +kernel
  obtain ⟨width, fills⟩ := ((matching_exact nestedTerms).1 t row).1 matched
  exact ⟨matched, width, fills⟩

end Pattern

end Datalog
