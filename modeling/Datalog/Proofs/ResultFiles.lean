import Datalog.Proofs.AllOrNothing

/-!
# Where results are kept

The flow id of a context falls apart at its underscores into the three numbers of the context
(`Context.splitOn_flowId`), so contexts with one flow id are equal. The file of the results of a predicate
lies below the directory of its symbol, in one that is named by symbol and flow id (`Layout.resultsAt`,
`Layout.resultLocation`); no facts are kept there. A write of the facts of a predicate therefore touches
no results, and a write of results touches no others (`Directory.insert_changesOnly`,
`Directory.writeInference_ok`).
-/

namespace Datalog

/-! ### Flow ids -/

namespace Context

/-- Between its underscores a flow id holds the numbers of its context. -/
theorem splitOn_flowId (c : Context) : Text.splitOn '_' c.flowId.toList =
    [[], 's' :: Nat.toDigits 10 c.stratum, 'i' :: Nat.toDigits 10 c.iteration,
      'r' :: Nat.toDigits 10 c.rule] := by
  have clean {mark : Char} (other : '_' ≠ mark) (n : Nat) : '_' ∉ mark :: Nat.toDigits 10 n := by
    rw [List.mem_cons, not_or]
    exact ⟨other, fun digit => absurd (Decimal.isDigit_of_mem_toDigits digit) (by decide)⟩
  have text : c.flowId.toList = [] ++ '_' :: (('s' :: Nat.toDigits 10 c.stratum) ++ '_' ::
      (('i' :: Nat.toDigits 10 c.iteration) ++ '_' :: ('r' :: Nat.toDigits 10 c.rule))) := by
    simp [flowId]
  rw [text, Text.splitOn_append_cons List.not_mem_nil, Text.splitOn_append_cons (clean (by decide) _),
    Text.splitOn_append_cons (clean (by decide) _), Text.splitOn_of_not_mem (clean (by decide) _)]

theorem flowId_injective : Function.Injective flowId := by
  intro c c' same
  have number {n n' : Nat} (digits : Nat.toDigits 10 n = Nat.toDigits 10 n') : n = n' := by
    have read := Decimal.readNat?_toDigits n
    rw [digits, Decimal.readNat?_toDigits] at read
    exact (Option.some.inj read).symm
  have pieces := congrArg (fun s : String => Text.splitOn '_' s.toList) same
  simp only [splitOn_flowId, List.cons.injEq, true_and, and_true] at pieces
  obtain ⟨stratum, iteration, rule⟩ := pieces
  cases c
  cases c'
  rw [mk.injEq]
  exact ⟨number stratum, number iteration, number rule⟩

/-- A flow id is made of digits and a few letters. -/
theorem not_mem_flowId (c : Context) {a : Char} (digit : a.isDigit = false)
    (other : a ∉ ['_', 's', 'i', 'r']) : a ∉ c.flowId.toList := by
  have digits (n : Nat) : a ∉ Nat.toDigits 10 n := by
    intro member
    rw [Decimal.isDigit_of_mem_toDigits member] at digit
    cases digit
  simp only [List.mem_cons, List.not_mem_nil, or_false, not_or] at other
  simp [flowId, digits, other]

end Context

/-- A plain name followed by a flow id is a plain name. -/
theorem Path.PlainName.append_flowId {name : String} (plain : PlainName name) (c : Context) :
    PlainName (name ++ c.flowId) := by
  have no_slash : '/' ∉ (name ++ c.flowId).toList :=
    slash_not_mem_append plain.no_slash (c.not_mem_flowId (by decide) (by decide))
  have long : 2 < (name ++ c.flowId).toList.length := by
    simp [Context.flowId]
    omega
  have other {s : String} (short : s.toList.length ≤ 2) : name ++ c.flowId ≠ s := by
    rintro rfl
    omega
  refine ⟨other (by decide), other (by decide), other (by decide), no_slash, ?_⟩
  rw [String.toList_append, List.mem_append]
  exact not_or.2 ⟨plain.no_nul, c.not_mem_flowId (by decide) (by decide)⟩

/-! ### Changes at some locations only -/

namespace FileTree

variable {t t' t'' : FileTree} {At At' : List String → Prop}

/-- Directories stay, and no file changes but at locations with the given property. -/
structure ChangesOnly (t : FileTree) (At : List String → Prop) (t' : FileTree) : Prop where
  wellFormed : t'.WellFormed
  kept : ∀ l, t.node? l = some .dir → t'.node? l = some .dir
  others : ∀ l, ¬At l → t'.file? l = t.file? l

namespace ChangesOnly

theorem refl (wf : t.WellFormed) (At : List String → Prop) : t.ChangesOnly At t :=
  ⟨wf, fun _ => id, fun _ _ => rfl⟩

theorem trans (first : t.ChangesOnly At t') (second : t'.ChangesOnly At t'') : t.ChangesOnly At t'' where
  wellFormed := second.wellFormed
  kept l dir := second.kept l (first.kept l dir)
  others l aside := (second.others l aside).trans (first.others l aside)

theorem mono (changes : t.ChangesOnly At t') (more : ∀ l, At l → At' l) : t.ChangesOnly At' t' :=
  ⟨changes.wellFormed, changes.kept, fun l aside => changes.others l fun here => aside (more l here)⟩

/-- A file elsewhere is still read. -/
theorem read (changes : t.ChangesOnly At t') {p : Path} {bytes : List UInt8} (h : t.read p = .ok bytes)
    (aside : ¬At (resolve [] p.components)) : t'.read p = .ok bytes := by
  obtain ⟨loc, found, node⟩ := of_read h
  rw [← eq_resolve_of_locate found] at aside
  have file : t'.node? loc = some (.file bytes) := by
    rw [← file?_eq_some_iff, changes.others loc aside, file?_eq_some_iff, node]
  rw [read_eq (locate_mono changes.kept found), file]

end ChangesOnly

end FileTree

open FileTree

/-- A staged write changes a file at the end of its path only, and has written it if it succeeds. -/
theorem Disk.writeStaged_changesOnly {t : FileTree} (wf : t.WellFormed) (stagingDir staging target : Path)
    (bytes : List UInt8) :
    t.ChangesOnly (· = resolve [] target.components) (writeStaged stagingDir staging target bytes t).2 ∧
      ((writeStaged stagingDir staging target bytes t).1 = .ok () →
        (writeStaged stagingDir staging target bytes t).2.read target = .ok bytes) := by
  rcases writeStaged_spec wf stagingDir staging target bytes with
    ⟨e, t', failed, changes⟩ | ⟨loc, t', found, done, changes⟩
  · rw [failed]
    refine ⟨⟨changes.wellFormed, changes.kept, fun l _ => by rw [changes.files_eq]⟩, fun ok => ?_⟩
    cases ok
  · rw [done]
    have ends := eq_resolve_of_locate found
    refine ⟨⟨changes.wellFormed, changes.kept, fun l aside => ?_⟩, fun _ => ?_⟩
    · rw [changes.files_eq, ends, Function.update_of_ne aside]
    · have file : t'.node? loc = some (.file bytes) := by
        rw [← file?_eq_some_iff, changes.files_eq, Function.update_self]
      rw [read_eq found, file]

/-! ### The places of facts and of results -/

namespace Layout

variable {l : Layout} {name : String}

/-- Below the directory of facts. -/
def InFacts (l : Layout) (loc : List String) : Prop := ∃ rest, loc = l.root ++ "facts" :: rest

/-- The location of the directory with the results of a predicate under a context. -/
def resultsAt (l : Layout) (name : String) (c : Context) : List String :=
  l.root ++ ["inferences", name, name ++ c.flowId]

/-- The location of the results of a predicate under a context. -/
def resultLocation (l : Layout) (name : String) (c : Context) : List String :=
  l.resultsAt name c ++ ["part-00000.jsonl"]

theorem resultsAt_inj {name' : String} {c c' : Context} (same : l.resultsAt name c = l.resultsAt name' c') :
    name = name' ∧ c = c' := by
  have names := List.append_cancel_left same
  simp only [List.cons.injEq, true_and, and_true] at names
  obtain ⟨rfl, dir⟩ := names
  have ids := congrArg String.toList dir
  rw [String.toList_append, String.toList_append] at ids
  exact ⟨rfl, Context.flowId_injective (String.toList_inj.1 (List.append_cancel_left ids))⟩

theorem resultLocation_inj {name' : String} {c c' : Context}
    (same : l.resultLocation name c = l.resultLocation name' c') : name = name' ∧ c = c' :=
  resultsAt_inj (List.append_cancel_right same)

theorem not_inFacts_resultLocation (c : Context) : ¬l.InFacts (l.resultLocation name c) := by
  rintro ⟨rest, same⟩
  rw [resultLocation, resultsAt, List.append_assoc] at same
  have first := (List.cons.inj (List.append_cancel_left same)).1
  exact absurd first (by decide)

theorem inFacts_factFile (location : Int32) {p : Predicate} (no_slash : '/' ∉ p.symbol.toList) :
    l.InFacts (resolve [] (l.factFile location p).components) := by
  have file : '/' ∉ (factFileName p).toList := not_mem_factFileName no_slash (by decide) (by decide)
  have long : 2 < (factFileName p).toList.length := Nat.lt_trans (by decide) (length_factFileName p)
  have partition := Directory.plain_of_isPartitionName (Directory.isPartitionName_toString location)
  have down : ".." ∉ ["facts", toString location.toInt, factFileName p] := by
    simp only [List.mem_cons, List.not_mem_nil, or_false, not_or]
    exact ⟨by decide, Ne.symm partition.ne_dots, Ne.symm (Path.nameComponents_of_long file long).2⟩
  rw [components_factFile l location no_slash, List.append_assoc, resolve_append]
  exact ⟨_, resolve_of_down down⟩

theorem components_inferenceDir (plain : Path.PlainName name) (c : Context) :
    (l.inferenceDir name c.flowId).components =
      l.project.components ++ ["inferences", name, name ++ c.flowId] := by
  refine Path.components_append ?_
  simp only [List.forall_mem_cons, List.not_mem_nil, false_imp_iff, implies_true, and_true]
  exact ⟨plain_inferences, plain, plain.append_flowId c⟩

theorem resolve_inferenceDir (plain : Path.PlainName name) (c : Context) :
    resolve [] (l.inferenceDir name c.flowId).components = l.resultsAt name c := by
  have names : ∀ n ∈ ["inferences", name, name ++ c.flowId], Path.PlainName n := by
    simp only [List.forall_mem_cons, List.not_mem_nil, false_imp_iff, implies_true, and_true]
    exact ⟨plain_inferences, plain, plain.append_flowId c⟩
  rw [components_inferenceDir plain, resolve_append]
  exact resolve_of_plain names

theorem resolve_inferenceFile (plain : Path.PlainName name) (c : Context) :
    resolve [] (l.inferenceFile name c.flowId).components = l.resultLocation name c := by
  have last : ∀ n ∈ ["part-00000.jsonl"], Path.PlainName n := by
    intro n hn
    rw [List.mem_singleton.1 hn]
    exact ⟨by decide, by decide, by decide, by decide, by decide⟩
  have file : (l.inferenceFile name c.flowId).components =
      (l.inferenceDir name c.flowId).components ++ ["part-00000.jsonl"] := Path.components_append last
  rw [file, resolve_append, resolve_inferenceDir plain]
  exact resolve_of_plain last

end Layout

/-! ### The writes of a store -/

namespace Directory

variable {d d' : Directory} {name : String}

theorem persist_of_writeStaged {p : Predicate} {result : Except StoreError Unit} {files : FileTree}
    (written : Disk.writeStaged d.layout.stagingDir (d.layout.stagingFile (Layout.factFileName p))
      (d.factFile p) (FactFile.write (d.facts.scan p)) d.files = (result, files)) :
    persist p d = (result, { d with files }) := by
  rw [persist_eq, written]

/-- Inserting touches nothing but facts, whether it succeeds or not. -/
theorem insert_changesOnly (wf : d.files.WellFormed) {p : Predicate} (no_slash : '/' ∉ p.symbol.toList)
    (r : Relation) : ∃ files, (insert p r d).2 = { d with facts := d.facts.add p r, files } ∧
      d.files.ChangesOnly d.layout.InFacts files := by
  have inside : d.layout.InFacts (resolve [] (d.factFile p).components) :=
    Layout.inFacts_factFile _ no_slash
  have written := (Disk.writeStaged_changesOnly wf d.layout.stagingDir
    (d.layout.stagingFile (Layout.factFileName p)) (d.factFile p)
    (FactFile.write ((d.facts.add p r).scan p))).1.mono fun l here => here ▸ inside
  rw [insert_eq]
  split
  · exact ⟨d.files, rfl, .refl wf _⟩
  · rcases done : Disk.writeStaged d.layout.stagingDir (d.layout.stagingFile (Layout.factFileName p))
      (d.factFile p) (FactFile.write ((d.facts.add p r).scan p)) d.files with ⟨result, files⟩
    rw [done] at written
    have told : persist p { d with facts := d.facts.add p r } =
        (result, { d with facts := d.facts.add p r, files }) := persist_of_writeStaged done
    rw [told]
    cases result with
    | error e => exact ⟨files, rfl, written⟩
    | ok u => exact ⟨files, rfl, written⟩

/-- Results that are recorded stand in the file of their own, and no other file has changed. -/
theorem writeInference_ok (wf : d.files.WellFormed) (plain : Path.PlainName name) {c : Context}
    {r : Relation} {path : Path} (h : writeInference name c.flowId r d = (.ok path, d')) :
    ∃ files, d' = { d with files } ∧
      d.files.ChangesOnly (· = d.layout.resultLocation name c) files ∧
      files.read (d.layout.inferenceFile name c.flowId) = .ok (FactFile.write r) := by
  have written := Disk.writeStaged_changesOnly wf d.layout.stagingDir
    (d.layout.stagedInference name c.flowId) (d.layout.inferenceFile name c.flowId) (FactFile.write r)
  rw [Layout.resolve_inferenceFile plain] at written
  rw [writeInference_eq] at h
  rcases done : Disk.writeStaged d.layout.stagingDir (d.layout.stagedInference name c.flowId)
      (d.layout.inferenceFile name c.flowId) (FactFile.write r) d.files with ⟨e | u, files⟩
  · rw [done] at h
    cases h
  · rw [done] at h written
    cases h
    exact ⟨files, rfl, written.1, written.2 rfl⟩

end Directory

end Datalog
