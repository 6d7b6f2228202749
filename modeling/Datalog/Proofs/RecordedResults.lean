import Datalog.Proofs.CachedCounts
import Datalog.Proofs.ResultFiles

/-!
# No result overwrites another

What a stratum derives is recorded predicate by predicate, under a context that names the first of its
rules for the predicate. So predicates of one stratum have different contexts even when they share a
symbol, and different strata have different contexts anyway (`Reasoner.resultContext_inj`). As later
strata write facts and results of their own only, every result of a run is there at its end
(`Reasoner.results_recorded`).
-/

namespace Datalog

open FileTree

/-! ### Runs over a directory -/

section Runs

variable {σ : Type} {rules : List (EvaluableRule σ)} {limits : Limits} {d : Directory}

/-- The store is the directory with other facts, and files have changed at locations with the given
property only. -/
def Directory.Becomes (d : Directory) (At : List String → Prop) (s : Store) (d' : Directory) : Prop :=
  s = .directory d' ∧ d'.layout = d.layout ∧ d.files.ChangesOnly At d'.files

/-- A call writes facts only. -/
theorem Run.perform_becomes {run : Run σ Store} {d₁ : Directory} {rule : EvaluableRule σ}
    (no_slash : '/' ∉ rule.head.symbol.toList) (before : d.Becomes d.layout.InFacts run.store d₁)
    (c : Call) : ∃ d', d.Becomes d.layout.InFacts (run.perform rule c).1.store d' := by
  obtain ⟨stored, layout, changes⟩ := before
  unfold perform
  rcases answer : rule.call c.context c.deltas (FactStore.facts run.store) run.env with ⟨e | out, env⟩
  · exact ⟨d₁, stored, layout, changes⟩
  · obtain ⟨files, inserted, written⟩ := Directory.insert_changesOnly changes.wellFormed no_slash out
    have told : FactStore.insert run.store rule.head out =
        ((Directory.insert rule.head out d₁).1,
          .directory { d₁ with facts := d₁.facts.add rule.head out, files }) := by
      rw [stored, ← inserted]
      rfl
    rw [layout] at written
    dsimp only
    rw [told]
    cases (Directory.insert rule.head out d₁).1 with
    | error e => exact ⟨_, rfl, layout, changes.trans written⟩
    | ok added => exact ⟨_, rfl, layout, changes.trans written⟩

/-- A run writes facts only, also one that fails. -/
theorem Strategy.becomes_of_evaluate (no_slash : ∀ rule ∈ rules, '/' ∉ rule.head.symbol.toList)
    (wf : d.files.WellFormed) {strategy : Strategy} {fuel stratum : Nat} {env : σ} {run : Run σ Store}
    (h : strategy.evaluate fuel limits stratum rules (.directory d) env = some run) :
    ∃ d', d.Becomes d.layout.InFacts run.store d' := by
  refine Strategy.evaluate_keeps (P := fun run => ∃ d', d.Becomes d.layout.InFacts run.store d')
    ⟨d, rfl, rfl, .refl wf _⟩ ?_ (fun _ kept => kept) h
  intro run rule c ok member kept
  obtain ⟨d₁, before⟩ := kept
  exact Run.perform_becomes (no_slash rule (List.mem_of_getElem? member)) before c

/-- The report of a run is about its stratum, and lists heads of its rules. -/
structure Run.Tells {τ : Type} (rules : List (EvaluableRule σ)) (stratum : Nat) (run : Run σ τ) :
    Prop where
  in_stratum : run.report.stratum = stratum
  heads : ∀ q ∈ run.report.derived.keys, ∃ rule ∈ rules, rule.head = q

/-- A call tells of the head of its rule. -/
theorem Run.Tells.perform {τ : Type} [FactStore τ] {stratum : Nat} {run : Run σ τ}
    (tells : run.Tells rules stratum) {rule : EvaluableRule σ} (member : rule ∈ rules) (c : Call) :
    (run.perform rule c).1.Tells rules stratum := by
  refine ⟨(Run.iterations_perform run rule c).1.trans tells.in_stratum, fun q listed => ?_⟩
  unfold Run.perform at listed
  dsimp only at listed
  split at listed
  · exact tells.heads q listed
  · split at listed
    · exact tells.heads q listed
    · simp only [Report.absorb] at listed
      split at listed
      · exact tells.heads q listed
      · rcases Facts.mem_predicates_add.1 listed with rfl | before
        · exact ⟨rule, member, rfl⟩
        · exact tells.heads q before

theorem Strategy.tells_of_evaluate {τ : Type} [FactStore τ] {strategy : Strategy} {fuel stratum : Nat}
    {store : τ} {env : σ} {run : Run σ τ}
    (h : strategy.evaluate fuel limits stratum rules store env = some run) : run.Tells rules stratum := by
  refine Strategy.evaluate_keeps (P := fun run => run.Tells rules stratum) ⟨rfl, fun q listed => ?_⟩
    (fun run rule c _ member tells => tells.perform (List.mem_of_getElem? member) c)
    (fun run tells => ⟨tells.in_stratum, tells.heads⟩) h
  cases listed

end Runs

/-- Results that are recorded in a directory are written there. -/
theorem Store.recordResult_ok {d : Directory} {name : String} {ctx : Context} {r : Relation}
    {kept : Option Path} {s : Store} (h : (Store.directory d).recordResult name ctx r = (.ok kept, s)) :
    ∃ path d', Directory.writeInference name ctx.flowId r d = (.ok path, d') ∧ s = .directory d' := by
  have told : (Store.directory d).recordResult name ctx r =
      Store.runDirectory (Directory.writeInference name ctx.flowId r >>= fun path => pure (some path)) d :=
    rfl
  rw [told, Store.runDirectory, bind_apply] at h
  rcases done : Directory.writeInference name ctx.flowId r d with ⟨e | path, d'⟩
  · rw [done] at h
    cases h
  · rw [done] at h
    cases h
    exact ⟨path, d', rfl, rfl⟩

/-! ### Contexts of results -/

namespace Reasoner

variable {r r' : Reasoner} {d : Directory}

/-- The rule that a context names is one for its predicate. -/
theorem rule_of_resultContext {rules : Program} {q : Predicate}
    (head : ∃ rule ∈ rules, rule.headPredicate = q) (k i : Nat) :
    ∃ rule, rules[(resultContext k i rules q).rule]? = some rule ∧ rule.headPredicate = q := by
  obtain ⟨rule, member, own⟩ := head
  have found : (rules.findIdx? fun rule => rule.headPredicate = q).isSome := by
    rw [List.findIdx?_isSome, List.any_eq_true]
    exact ⟨rule, member, decide_eq_true own⟩
  obtain ⟨j, first⟩ := Option.isSome_iff_exists.1 found
  obtain ⟨inside, own, -⟩ := List.findIdx?_eq_some_iff_getElem.1 first
  refine ⟨rules[j], ?_, of_decide_eq_true own⟩
  rw [resultContext, first, Option.getD_some]
  exact List.getElem?_eq_getElem inside

/-- Different predicates that rules of a stratum derive have different contexts. -/
theorem resultContext_inj {rules : Program} {q q' : Predicate}
    (head : ∃ rule ∈ rules, rule.headPredicate = q) (head' : ∃ rule ∈ rules, rule.headPredicate = q')
    {k i k' i' : Nat} (same : resultContext k i rules q = resultContext k' i' rules q') : q = q' := by
  obtain ⟨rule, named, own⟩ := rule_of_resultContext head k i
  obtain ⟨rule', named', own'⟩ := rule_of_resultContext head' k' i'
  rw [same, named'] at named
  cases named
  exact own.symm.trans own'

/-- So what is listed for heads of a stratum is listed under different contexts. -/
theorem pairwise_resultContext {rules : Program} {derived : Facts}
    (heads : ∀ q ∈ derived.keys, ∃ rule ∈ rules, rule.headPredicate = q) (k i : Nat) :
    derived.toList.Pairwise fun e e' => resultContext k i rules e.1 ≠ resultContext k i rules e'.1 := by
  have distinct := List.pairwise_map.1 derived.nodup_keys
  refine distinct.imp_of_mem fun listed listed' other same => ?_
  apply other
  exact resultContext_inj (heads _ (List.mem_map_of_mem listed)) (heads _ (List.mem_map_of_mem listed')) same

/-- A compiled rule has the head of a rule. -/
theorem exists_rule_of_compiled {rules : Program} {compiled : List CompiledRule}
    (mapped : rules.mapM r.compile = .ok compiled) {evaluable : EvaluableRule Engine}
    (member : evaluable ∈ compiled.map CompiledRule.toEvaluable) :
    ∃ rule ∈ rules, rule.headPredicate = evaluable.head := by
  obtain ⟨c, hc, rfl⟩ := List.mem_map.1 member
  obtain ⟨rule, hrule, compiles⟩ := (mem_of_mapM mapped).1 c hc
  exact ⟨rule, hrule, (head_of_compile compiles).symm⟩

/-! ### Recording -/

/-- What is listed stands in the files of the results. -/
def Holds (t : FileTree) (l : Layout) (context : Predicate → Context)
    (derived : List (Predicate × Relation)) : Prop :=
  ∀ e ∈ derived, t.read (l.inferenceFile e.1.symbol (context e.1).flowId) = .ok (FactFile.write e.2)

/-- Facts, or results under contexts whose stratum has the given property. -/
def Written (l : Layout) (At : Nat → Prop) (loc : List String) : Prop :=
  l.InFacts loc ∨ ∃ name c, At c.stratum ∧ loc = l.resultLocation name c

theorem not_written {l : Layout} {At : Nat → Prop} {name : String} {c : Context}
    (other : ¬At c.stratum) : ¬Written l At (l.resultLocation name c) := by
  rintro (facts | ⟨name', c', own, same⟩)
  · exact Layout.not_inFacts_resultLocation c facts
  · obtain ⟨-, rfl⟩ := Layout.resultLocation_inj same
    exact other own

theorem Written.mono {l : Layout} {At At' : Nat → Prop} (more : ∀ k, At k → At' k) {loc : List String}
    (written : Written l At loc) : Written l At' loc :=
  written.imp_right fun ⟨name, c, own, same⟩ => ⟨name, c, more _ own, same⟩

/-- Results stay where nothing is written under their contexts. -/
theorem Holds.mono {t t' : FileTree} {l : Layout} {context : Predicate → Context}
    {derived : List (Predicate × Relation)} (holds : Holds t l context derived)
    (plain : ∀ e ∈ derived, Path.PlainName e.1.symbol) {At : List String → Prop}
    (changes : t.ChangesOnly At t')
    (aside : ∀ e ∈ derived, ¬At (l.resultLocation e.1.symbol (context e.1))) :
    Holds t' l context derived := by
  intro e member
  refine changes.read (holds e member) ?_
  rw [Layout.resolve_inferenceFile (plain e member)]
  exact aside e member

/-- Of results under different contexts all are there in the end. -/
theorem recordDerived_holds {context : Predicate → Context} {derived : List (Predicate × Relation)}
    (stored : r.store = .directory d) (wf : d.files.WellFormed)
    (plain : ∀ e ∈ derived, Path.PlainName e.1.symbol)
    (apart : derived.Pairwise fun e e' => context e.1 ≠ context e'.1)
    (h : r.recordDerived context derived = (.ok (), r')) :
    ∃ files, r'.store = .directory { d with files } ∧
      d.files.ChangesOnly (fun loc => ∃ e ∈ derived,
        loc = d.layout.resultLocation e.1.symbol (context e.1)) files ∧
      Holds files d.layout context derived := by
  induction derived generalizing r d with
  | nil =>
    cases h
    exact ⟨d.files, stored, .refl wf _, fun e listed => by cases listed⟩
  | cons e rest ih =>
    obtain ⟨p, tuples⟩ := e
    obtain ⟨plain_first, plain_rest⟩ := List.forall_mem_cons.1 plain
    obtain ⟨apart_first, apart_rest⟩ := List.pairwise_cons.1 apart
    rw [recordDerived, stored] at h
    rcases recorded : Store.recordResult (.directory d) p.symbol (context p) tuples with ⟨e | kept, store⟩
    · rw [recorded] at h
      cases h
    · rw [recorded] at h
      obtain ⟨path, d₁, written, rfl⟩ := Store.recordResult_ok recorded
      obtain ⟨files, rfl, changes, read⟩ := Directory.writeInference_ok wf plain_first written
      obtain ⟨files', stored', changes', holds⟩ := ih rfl changes.wellFormed plain_rest apart_rest h
      refine ⟨files', stored', ?_, List.forall_mem_cons.2 ⟨?_, holds⟩⟩
      · refine .trans (changes.mono ?_) (changes'.mono ?_)
        · intro loc own
          exact ⟨(p, tuples), List.mem_cons_self, own⟩
        · intro loc later
          obtain ⟨e, member, own⟩ := later
          exact ⟨e, List.mem_cons_of_mem _ member, own⟩
      · refine changes'.read read ?_
        rw [Layout.resolve_inferenceFile plain_first]
        intro later
        obtain ⟨e, member, same⟩ := later
        exact apart_first e member (Layout.resultLocation_inj same).2

/-! ### One stratum -/

/-- What an evaluated stratum leaves: the facts have grown by what is reported, for heads of its rules,
and that is what the files of its results hold. -/
structure Leaves (d : Directory) (k : Nat) (rules : Program) (report : Report) (d' : Directory) :
    Prop where
  layout : d'.layout = d.layout
  number : report.stratum = k
  heads : ∀ q ∈ report.derived.keys, ∃ rule ∈ rules, rule.headPredicate = q
  grown : d.facts.model ≤ d'.facts.model
  gained : report.derived = d'.facts.since d.facts
  changes : d.files.ChangesOnly (Written d.layout (· = k)) d'.files
  results : Holds d'.files d.layout (resultContext k report.iterations rules) report.derived.toList

/-- **A stratum records what it derived**, each predicate in a file of its own. -/
theorem leaves_of_evaluateStratum {rules : Program}
    (names : ∀ rule ∈ rules, Path.PlainName rule.headPredicate.symbol) (stored : r.store = .directory d)
    (wf : d.files.WellFormed) {fuel k : Nat} {report : Report}
    (h : r.evaluateStratum fuel k rules = some (.ok report, r')) :
    ∃ d', r'.store = .directory d' ∧ Leaves d k rules report d' := by
  obtain ⟨compiled, run, mapped, evaluated, ok, rfl, recorded⟩ := evaluateStratum_ok h
  rw [stored] at evaluated
  have plain_of {q : Predicate} (head : ∃ rule ∈ rules, rule.headPredicate = q) :
      Path.PlainName q.symbol := by
    obtain ⟨rule, hrule, rfl⟩ := head
    exact names rule hrule
  have tells := Strategy.tells_of_evaluate evaluated
  have heads : ∀ q ∈ run.report.derived.keys, ∃ rule ∈ rules, rule.headPredicate = q := by
    intro q listed
    obtain ⟨evaluable, member, rfl⟩ := tells.heads q listed
    exact exists_rule_of_compiled mapped member
  have no_slash : ∀ rule ∈ compiled.map CompiledRule.toEvaluable, '/' ∉ rule.head.symbol.toList := by
    intro rule member
    exact (plain_of (exists_rule_of_compiled mapped member)).no_slash
  obtain ⟨d₁, stored₁, layout, run_changes⟩ := Strategy.becomes_of_evaluate no_slash wf evaluated
  obtain ⟨files, stored', changes, results⟩ := recordDerived_holds stored₁ run_changes.wellFormed
    (fun e listed => plain_of (heads e.1 (List.mem_map_of_mem listed)))
    (pairwise_resultContext heads _ _) recorded
  have accounted := Strategy.accounted_of_evaluate Store.faithful evaluated ok
  have facts : run.facts = d₁.facts := congrArg FactStore.facts stored₁
  rw [layout] at changes results
  refine ⟨_, stored', layout, tells.in_stratum, heads, facts ▸ accounted.contains, ?_, ?_, results⟩
  · rw [accounted.derived, facts]
    rfl
  · refine .trans (run_changes.mono fun loc => .inl) (changes.mono ?_)
    intro loc own
    obtain ⟨e, -, rfl⟩ := own
    exact .inr ⟨_, _, rfl, rfl⟩

/-- The results of a stratum stay when later ones write facts and results of their own. -/
theorem Leaves.results_kept {k : Nat} {rules : Program} {report : Report} {d₁ : Directory}
    (left : Leaves d k rules report d₁) (names : ∀ rule ∈ rules, Path.PlainName rule.headPredicate.symbol)
    {files : FileTree} (changes : d₁.files.ChangesOnly (Written d.layout (k + 1 ≤ ·)) files) :
    Holds files d.layout (resultContext k report.iterations rules) report.derived.toList := by
  refine left.results.mono ?_ changes ?_
  · intro e member
    obtain ⟨rule, hrule, same⟩ := left.heads e.1 (List.mem_map_of_mem member)
    rw [← same]
    exact names rule hrule
  · intro e member
    exact not_written (Nat.not_succ_le_self k)

/-! ### All strata -/

/-- The context under which the results of a predicate are recorded that a stratum reports. -/
def reportContext (p : Program) (s : Predicate → Nat) (report : Report) (q : Predicate) : Context :=
  resultContext report.stratum report.iterations
    (p.filter fun rule => s rule.headPredicate = report.stratum) q

/-- What strata gained, as they report it: from the facts before stratum `k` to those after the last one
that has rules, each of a higher number than the one before. A stratum reports what its facts have beyond
the facts before it, for heads of rules of the stratum. -/
inductive Gains (p : Program) (s : Predicate → Nat) : Nat → Facts → List Report → Facts → Prop
  | done {k : Nat} {f : Facts} : Gains p s k f [] f
  | stratum {k : Nat} {f g f' : Facts} {report : Report} {reports : List Report}
      (number : k ≤ report.stratum)
      (heads : ∀ q ∈ report.derived.keys, ∃ rule ∈ p,
        rule.headPredicate = q ∧ s q = report.stratum)
      (grown : f.model ≤ g.model) (gained : report.derived = g.since f)
      (rest : Gains p s (report.stratum + 1) g reports f') : Gains p s k f (report :: reports) f'

theorem Gains.mono {p : Program} {s : Predicate → Nat} {k k' : Nat} {f f' : Facts} {reports : List Report}
    (gains : Gains p s k f reports f') (lower : k' ≤ k) : Gains p s k' f reports f' := by
  cases gains with
  | done => exact .done
  | stratum number heads grown gained rest =>
    exact .stratum (Nat.le_trans lower number) heads grown gained rest

/-- A listed predicate is the head of a rule of the stratum that reports it. -/
theorem Gains.head_of_listed {p : Program} {s : Predicate → Nat} {k : Nat} {f f' : Facts}
    {reports : List Report} (gains : Gains p s k f reports f') {report : Report}
    (member : report ∈ reports) {q : Predicate} (listed : q ∈ report.derived.keys) :
    ∃ rule ∈ p.filter fun rule => s rule.headPredicate = report.stratum, rule.headPredicate = q := by
  induction gains with
  | done => cases member
  | stratum number heads grown gained rest ih =>
    rcases List.mem_cons.1 member with rfl | later
    · obtain ⟨rule, hrule, rfl, own⟩ := heads q listed
      exact ⟨rule, List.mem_filter.2 ⟨hrule, decide_eq_true own⟩, rfl⟩
    · exact ih later

/-- The strata from `k` on record what they gain, and write facts and results of their own only. -/
theorem recorded_of_evaluateStrata {p : Program} {s : Predicate → Nat} {k : Nat} {strata : List Program}
    (listed : ListsStrata p s k strata) (names : ∀ rule ∈ p, Path.PlainName rule.headPredicate.symbol)
    (stored : r.store = .directory d) (wf : d.files.WellFormed) {fuel : Nat} {reports : List Report}
    (h : evaluateStrata fuel (strata.zipIdx k) r = some (.ok reports, r')) :
    ∃ d', r'.store = .directory d' ∧ d'.layout = d.layout ∧ Gains p s k d.facts reports d'.facts ∧
      d.files.ChangesOnly (Written d.layout (k ≤ ·)) d'.files ∧
      ∀ report ∈ reports, Holds d'.files d.layout (reportContext p s report) report.derived.toList := by
  induction strata generalizing k r d reports with
  | nil =>
    cases h
    exact ⟨d, stored, rfl, .done, .refl wf _, fun report member => by cases member⟩
  | cons rules strata ih =>
    have own := listed.first
    have later (l : List String) : Written d.layout (k + 1 ≤ ·) l → Written d.layout (k ≤ ·) l :=
      Written.mono fun _ => Nat.le_of_succ_le
    rw [List.zipIdx_cons] at h
    by_cases empty : rules = []
    · subst empty
      obtain ⟨d', stored', layout, gains, changes, results⟩ := ih listed.rest stored wf h
      exact ⟨d', stored', layout, gains.mono (Nat.le_succ k), changes.mono later, results⟩
    · obtain ⟨report, r₁, reports', evaluated, rest, rfl⟩ := evaluateStrata_cons empty h
      obtain ⟨d₁, stored₁, left⟩ := leaves_of_evaluateStratum
        (fun rule member => names rule (listed.mem member).1) stored wf evaluated
      obtain ⟨d', stored', layout, gains, changes, results⟩ :=
        ih listed.rest stored₁ left.changes.wellFormed rest
      rw [left.layout] at layout changes results
      have heads : ∀ q ∈ report.derived.keys, ∃ rule ∈ p,
          rule.headPredicate = q ∧ s q = report.stratum := by
        intro q member
        obtain ⟨rule, hrule, rfl⟩ := left.heads q member
        exact ⟨rule, (listed.mem hrule).1, rfl, (listed.mem hrule).2.trans left.number.symm⟩
      have first : Holds d'.files d.layout (reportContext p s report) report.derived.toList := by
        have kept := left.results_kept (fun rule member => names rule (listed.mem member).1) changes
        rw [own, ← left.number] at kept
        exact kept
      refine ⟨d', stored', layout, ?_, ?_, List.forall_mem_cons.2 ⟨first, results⟩⟩
      · exact .stratum left.number.ge heads left.grown left.gained (left.number ▸ gains)
      · refine .trans (left.changes.mono ?_) (changes.mono later)
        intro l
        apply Written.mono
        rintro k' rfl
        exact Nat.le_refl k'

/-- The results of what strata report, each in a directory of its own. -/
structure Recorded (p : Program) (s : Predicate → Nat) (reports : List Report) (d : Directory) :
    Prop where
  /-- The directory of a result is named by the symbol and the flow id, below one of the symbol. -/
  place : ∀ a ∈ reports, ∀ q ∈ a.derived.keys,
    (d.layout.inferenceDir q.symbol (reportContext p s a q).flowId).components =
      d.layout.project.components ++
        ["inferences", q.symbol, q.symbol ++ (reportContext p s a q).flowId]
  /-- Only results of one predicate in one stratum share a directory. -/
  apart : ∀ a ∈ reports, ∀ q ∈ a.derived.keys, ∀ b ∈ reports, ∀ q' ∈ b.derived.keys,
    resolve [] (d.layout.inferenceDir q.symbol (reportContext p s a q).flowId).components =
      resolve [] (d.layout.inferenceDir q'.symbol (reportContext p s b q').flowId).components →
    a.stratum = b.stratum ∧ q = q'
  /-- The part file holds the records of the tuples that were new and no others, one a line. -/
  part : ∀ a ∈ reports, ∀ q ∈ a.derived.keys, ∃ bytes,
    d.files.read (d.layout.inferenceFile q.symbol (reportContext p s a q).flowId) = .ok bytes ∧
      FactFile.lines bytes =
        (a.derived.scan q).toList.map (fun t => Text.bytes (FactRecord.encode t)) ∧
      ∀ t, Text.bytes (FactRecord.encode t) ∈ FactFile.lines bytes ↔ t ∈ a.derived.scan q

/-- What strata gained and put into files is recorded, each result in a directory of its own. -/
theorem Gains.recorded {p : Program} {s : Predicate → Nat} {k : Nat} {f f' : Facts}
    {reports : List Report} (gains : Gains p s k f reports f')
    (names : ∀ rule ∈ p, Path.PlainName rule.headPredicate.symbol)
    (results : ∀ report ∈ reports,
      Holds d.files d.layout (reportContext p s report) report.derived.toList) :
    Recorded p s reports d := by
  have plain {a : Report} (ha : a ∈ reports) {q : Predicate} (hq : q ∈ a.derived.keys) :
      Path.PlainName q.symbol := by
    obtain ⟨rule, hrule, rfl⟩ := gains.head_of_listed ha hq
    exact names rule (List.mem_filter.1 hrule).1
  refine ⟨fun a ha q hq => ?_, fun a ha q hq b hb q' hq' same => ?_, fun a ha q hq => ?_⟩
  · exact Layout.components_inferenceDir (plain ha hq) _
  · rw [Layout.resolve_inferenceDir (plain ha hq), Layout.resolve_inferenceDir (plain hb hq')] at same
    obtain ⟨-, context⟩ := Layout.resultsAt_inj same
    have number : a.stratum = b.stratum := congrArg Context.stratum context
    have head := gains.head_of_listed ha hq
    have head' := gains.head_of_listed hb hq'
    unfold reportContext at context
    rw [number] at head context
    exact ⟨number, resultContext_inj head head' context⟩
  · obtain ⟨e, listed, rfl⟩ := List.mem_map.1 hq
    obtain ⟨q, tuples⟩ := e
    rw [Facts.scan_of_mem_toList listed]
    exact ⟨_, results a ha _ listed, FactFile.lines_write tuples, fun t => FactFile.mem_lines_write⟩

/-- **No result of a run overwrites another.** After a program whose head symbols are plain names was
evaluated over a directory, by either strategy and within any limits, each predicate that gained tuples in
a stratum has a directory of its own, whatever its arity, and the file in there lists the tuples that it
gained in that stratum. -/
theorem results_recorded {p : Program} (names : ∀ rule ∈ p, Path.PlainName rule.headPredicate.symbol)
    (stored : r.store = .directory d) (wf : d.files.WellFormed) {fuel : Nat} {report : ProgramReport}
    (h : r.evaluate fuel p = some (.ok report, r')) :
    ∃ s d', IsLeast {s | p.LayeredBy s} s ∧ r'.store = .directory d' ∧ d'.layout = d.layout ∧
      Gains p s 0 d.facts report.strata d'.facts ∧ Recorded p s report.strata d' := by
  rcases evaluate_cases h with ⟨-, e, refused, -⟩ | ⟨strat, reports, -, stratified, evaluated, answered⟩
  · cases refused
  · cases reports with
    | error e => cases answered
    | ok reports =>
      cases answered
      obtain ⟨d', stored', layout, gains, -, results⟩ :=
        recorded_of_evaluateStrata (r := { r with counts := r.storedCounts })
          (listsStrata_of_stratify stratified) names stored wf evaluated
      rw [← layout] at results
      exact ⟨strat.stratumOf, d', Program.isLeast_stratumOf stratified, stored', layout, gains,
        gains.recorded names results⟩

/-- Three predicates of one symbol, the last in a stratum above the others. -/
def reachesOfThreeArities : Program :=
  [⟨.ofVars "reach" ["X"], [.pos (.ofVars "start" ["X"])]⟩,
    ⟨.ofVars "reach" ["X", "Y"], [.pos (.ofVars "reach" ["X"]), .pos (.ofVars "road" ["X", "Y"])]⟩,
    ⟨.ofVars "reach" ["X", "Y", "X"],
      [.pos (.ofVars "road" ["X", "Y"]), .neg (.ofVars "reach" ["X", "Y"])]⟩]

/-- The roads, in a project directory that is otherwise empty. -/
def roadProject : Directory where
  layout := ⟨["p"]⟩
  partitions := ⟨1024, []⟩
  facts := roads
  files := (∅ : FileTree).insert ["p"] .dir

/-- The results of the three predicates lie in three directories. -/
theorem reachesOfThreeArities_recorded :
    (∀ rule ∈ reachesOfThreeArities, Path.PlainName rule.headPredicate.symbol) ∧
    roadProject.files.WellFormed ∧
    ∃ report r', ({ townReasoner with store := .directory roadProject } : Reasoner).evaluate 9
        reachesOfThreeArities = some (.ok report, r') ∧
      (report.strata.map fun a => a.derived.keys) = [[⟨"reach", 1⟩, ⟨"reach", 2⟩], [⟨"reach", 3⟩]] ∧
      ∃ s d', r'.store = .directory d' ∧ Gains reachesOfThreeArities s 0 roads report.strata d'.facts ∧
        Recorded reachesOfThreeArities s report.strata d' := by
  have names : ∀ rule ∈ reachesOfThreeArities, Path.PlainName rule.headPredicate.symbol := by
    have plain : Path.PlainName "reach" := ⟨by decide, by decide, by decide, by decide, by decide⟩
    simp [reachesOfThreeArities, Rule.headPredicate, Atom.ofVars, plain]
  have wf : roadProject.files.WellFormed := by decide +kernel
  have evaluated : ((({ townReasoner with store := .directory roadProject } : Reasoner).evaluate 9
      reachesOfThreeArities).map fun answer =>
        answer.1.toOption.map fun report => report.strata.map fun a => a.derived.keys) =
      some (some [[⟨"reach", 1⟩, ⟨"reach", 2⟩], [⟨"reach", 3⟩]]) := by decide +kernel
  obtain ⟨⟨result, r'⟩, h, answered⟩ := Option.map_eq_some_iff.1 evaluated
  cases result with
  | error e => cases answered
  | ok report =>
    obtain ⟨s, d', -, stored, -, gains, recorded⟩ := results_recorded names rfl wf h
    exact ⟨names, wf, report, r', h, Option.some.inj answered, s, d', stored, gains, recorded⟩

end Reasoner

end Datalog
