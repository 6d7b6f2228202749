import Datalog.Proofs.Meaning
import Datalog.Proofs.ProjectPaths

/-!
# Opening a project

Opening lists the directory of facts and reads what it finds under the names of partitions and fact
files. It changes nothing but the directories on the way, succeeds exactly when all that has such a name
can be read, and then holds what was read (`Directory.load_spec`). Where nothing was before, it finds
nothing (`Directory.opened_of_fresh`).
-/

namespace Datalog

namespace FileTree

variable {t : FileTree} {loc l : List String}

/-- A directory lists what lies directly in it. -/
theorem list_eq {p : Path} (found : t.locate p = .ok loc) :
    ∃ es : List (String × Node), (∀ name n, (name, n) ∈ es ↔ t.node? (loc ++ [name]) = some n) ∧
      t.list p =
        match t.node? loc with
        | some .dir => .ok es
        | some (.file _) => .error .other
        | none => .error .notFound := by
  refine ⟨_, fun name n => ?_, by rw [list, found]; rfl⟩
  have node : t.node? (loc ++ [name]) = t.get? (loc ++ [name]) := if_neg (by simp)
  rw [node, List.mem_filterMap]
  constructor
  · rintro ⟨⟨l, n'⟩, below, h⟩
    obtain ⟨got, rest, rfl⟩ := mem_below_iff.1 below
    dsimp only at h
    rw [List.drop_left] at h
    split at h
    · cases h
      exact got
    · cases h
  · intro got
    refine ⟨(loc ++ [name], n), mem_below_iff.2 ⟨got, List.prefix_append _ _⟩, ?_⟩
    dsimp only
    rw [List.drop_left]

theorem list_of_locate {p : Path} (found : t.locate p = .ok loc) (dir : t.node? loc = some .dir) :
    ∃ es, t.list p = .ok es ∧ ∀ name n, (name, n) ∈ es ↔ t.node? (loc ++ [name]) = some n := by
  obtain ⟨es, members, listed⟩ := list_eq found
  rw [dir] at listed
  exact ⟨es, listed, members⟩

theorem of_list {p : Path} {es : List (String × Node)} (h : t.list p = .ok es) :
    ∃ loc, t.locate p = .ok loc ∧ ∀ name n, (name, n) ∈ es ↔ t.node? (loc ++ [name]) = some n := by
  cases found : t.locate p with
  | error e =>
    rw [list, found] at h
    cases h
  | ok loc =>
    obtain ⟨es', members, listed⟩ := list_eq found
    rw [h] at listed
    refine ⟨loc, rfl, ?_⟩
    split at listed
    · cases listed
      exact members
    · cases listed
    · cases listed

theorem of_read {p : Path} {bytes : List UInt8} (h : t.read p = .ok bytes) :
    ∃ loc, t.locate p = .ok loc ∧ t.node? loc = some (.file bytes) := by
  cases found : t.locate p with
  | error e =>
    rw [read, find, found] at h
    cases h
  | ok loc =>
    rw [read_eq found] at h
    refine ⟨loc, rfl, ?_⟩
    split at h
    · next node =>
      cases h
      exact node
    · cases h
    · cases h

/-- Directories that are there are not made again. -/
theorem makeDirsFrom_of_walk {names : List String} (h : t.walk loc names = .ok l) :
    t.makeDirsFrom loc names = (.ok (), t) := by
  induction names generalizing loc with
  | nil => rfl
  | cons name names ih =>
    obtain ⟨l', found, dir, rest⟩ := walk_cons_eq_ok_iff.1 h
    rw [makeDirsFrom, found]
    dsimp only
    rw [dir]
    exact ih rest

/-- The locations that names lead through are made of these names. -/
theorem mem_of_mem_passed {names : List String} (h : l ∈ passed loc names) {c : String} (hc : c ∈ l) :
    c ∈ loc ∨ c ∈ names ∧ c ≠ ".." := by
  induction names generalizing loc with
  | nil => cases h
  | cons name names ih =>
    have stepped {c : String} (hc : c ∈ next loc name) : c ∈ loc ∨ c ∈ name :: names ∧ c ≠ ".." := by
      unfold next at hc
      split at hc
      · exact .inl ((List.dropLast_sublist loc).subset hc)
      · next down =>
        rcases List.mem_append.1 hc with before | last
        · exact .inl before
        · rw [List.mem_singleton.1 last]
          exact .inr ⟨List.mem_cons_self, down⟩
    rcases List.mem_cons.1 h with rfl | later
    · exact stepped hc
    · rcases ih later with before | ⟨after, down⟩
      · exact stepped before
      · exact .inr ⟨List.mem_cons_of_mem _ after, down⟩

end FileTree

open FileTree

/-! ### Reading facts -/

/-- Facts with the relations that were found, each added to its predicate. -/
structure Facts.Gathered (facts : Facts) (found : Predicate → Relation → Prop) (facts' : Facts) : Prop where
  scan : ∀ p x, x ∈ facts'.scan p ↔ x ∈ facts.scan p ∨ ∃ r, found p r ∧ x ∈ r
  listed : ∀ p, p ∈ facts'.predicates ↔ p ∈ facts.predicates ∨ ∃ r, found p r

/-- An action that adds facts it reads from a tree: it leaves the tree as it is, succeeds if all is good,
and then adds what there is to be found. -/
structure Disk.Loads (t : FileTree) (act : Facts → Disk Facts) (good : Prop)
    (found : Predicate → Relation → Prop) : Prop where
  ok : good → ∀ facts, ∃ facts', act facts t = (.ok facts', t) ∧ facts.Gathered found facts'
  error : ¬good → ∀ facts, ∃ e, act facts t = (.error e, t)

theorem Disk.Loads.foldlM {α : Type} {t : FileTree} {act : Facts → α → Disk Facts} {good : α → Prop}
    {found : α → Predicate → Relation → Prop} {xs : List α}
    (each : ∀ a ∈ xs, Loads t (fun facts => act facts a) (good a) (found a)) :
    Loads t (fun facts => xs.foldlM act facts) (∀ a ∈ xs, good a) fun p r => ∃ a ∈ xs, found a p r := by
  induction xs with
  | nil =>
    refine ⟨fun _ facts => ⟨facts, rfl, fun p x => ?_, fun p => ?_⟩, fun bad => absurd nofun bad⟩
    · simp
    · simp
  | cons a xs ih =>
    obtain ⟨first, others⟩ := List.forall_mem_cons.1 each
    have rest := ih others
    constructor
    · intro good facts
      obtain ⟨here, later⟩ := List.forall_mem_cons.1 good
      obtain ⟨facts₁, done, gathered⟩ := first.ok here facts
      obtain ⟨facts₂, done', gathered'⟩ := rest.ok later facts₁
      refine ⟨facts₂, ?_, fun p x => ?_, fun p => ?_⟩
      · rw [List.foldlM_cons, bind_apply, done]
        exact done'
      · rw [gathered'.scan, gathered.scan, or_assoc]
        exact or_congr Iff.rfl (by simp [or_and_right, exists_or])
      · rw [gathered'.listed, gathered.listed, or_assoc]
        exact or_congr Iff.rfl (by simp [exists_or])
    · intro bad facts
      rw [List.foldlM_cons, bind_apply]
      by_cases here : good a
      · obtain ⟨facts₁, done, -⟩ := first.ok here facts
        rw [done]
        exact rest.error (fun later => bad (List.forall_mem_cons.2 ⟨here, later⟩)) facts₁
      · obtain ⟨e, failed⟩ := first.error here facts
        rw [failed]
        exact ⟨e, rfl⟩

theorem Facts.Gathered.congr {facts facts' : Facts} {found found' : Predicate → Relation → Prop}
    (gathered : facts.Gathered found facts') (same : ∀ p r, found p r ↔ found' p r) :
    facts.Gathered found' facts' := by
  have eq : found = found' := funext fun p => funext fun r => propext (same p r)
  exact eq ▸ gathered

namespace Layout

/-- A name within a partition is that of a fact file of the predicate, which can be read. -/
def Reads (l : Layout) (t : FileTree) (dir name : String) (p : Predicate) (r : Relation) : Prop :=
  parseFactFileName? name = some p ∧
    ∃ bytes, t.read (l.factsRoot ++ [dir] ++ [name]) = .ok bytes ∧ FactFile.read p bytes = .ok r

/-- All that has the name of a fact file in a partition can be read. -/
def PartitionReads (l : Layout) (t : FileTree) (dir : String) : Prop :=
  ∃ es, t.list (l.factsRoot ++ [dir]) = .ok es ∧
    ∀ e ∈ es, ∀ p, parseFactFileName? e.1 = some p → ∃ r, l.Reads t dir e.1 p r

/-- A relation is to be found in a partition. -/
def InPartition (l : Layout) (t : FileTree) (dir : String) (p : Predicate) (r : Relation) : Prop :=
  ∃ es, t.list (l.factsRoot ++ [dir]) = .ok es ∧ ∃ e ∈ es, l.Reads t dir e.1 p r

end Layout

namespace Directory

variable {l : Layout} {t t' : FileTree}

theorem loadFile_eq {dir : Path} {name : String} {p : Predicate}
    (parsed : Layout.parseFactFileName? name = some p) (facts : Facts) :
    loadFile dir facts name t =
      match t.read (dir ++ [name]) with
      | .error _ => (.error .file, t)
      | .ok bytes =>
        match FactFile.read p bytes with
        | .error e => (.error e, t)
        | .ok r => (.ok (facts.add p r), t) := by
  rw [loadFile, parsed]
  dsimp only
  rw [bind_apply, Disk.query]
  dsimp only
  cases t.read (dir ++ [name]) with
  | error e => rfl
  | ok bytes =>
    dsimp only
    cases FactFile.read p bytes <;> rfl

/-- A name is read in one way. -/
theorem eq_of_reads {dir name : String} {p q : Predicate} {r r' : Relation} (first : l.Reads t dir name p r)
    (second : l.Reads t dir name q r') : q = p ∧ r' = r := by
  obtain ⟨parsed, bytes, read, decoded⟩ := first
  obtain ⟨parsed', bytes', read', decoded'⟩ := second
  rw [parsed] at parsed'
  cases parsed'
  rw [read] at read'
  cases read'
  rw [decoded] at decoded'
  cases decoded'
  exact ⟨rfl, rfl⟩

theorem loads_file (l : Layout) (t : FileTree) (dir name : String) :
    Disk.Loads t (fun facts => loadFile (l.factsRoot ++ [dir]) facts name)
      (∀ p, Layout.parseFactFileName? name = some p → ∃ r, l.Reads t dir name p r)
      (l.Reads t dir name) := by
  cases parsed : Layout.parseFactFileName? name with
  | none =>
    have nothing (p : Predicate) (r : Relation) : ¬l.Reads t dir name p r := by
      rintro ⟨same, -⟩
      rw [parsed] at same
      cases same
    constructor
    · intro _ facts
      refine ⟨facts, by rw [loadFile, parsed]; rfl, fun p x => ?_, fun p => ?_⟩
      · simp [nothing]
      · simp [nothing]
    · intro bad
      exact absurd nofun bad
  | some p =>
    constructor
    · intro good facts
      obtain ⟨r, reads⟩ := good p rfl
      have only (q : Predicate) (r' : Relation) : l.Reads t dir name q r' ↔ q = p ∧ r' = r := by
        refine ⟨eq_of_reads reads, ?_⟩
        rintro ⟨rfl, rfl⟩
        exact reads
      obtain ⟨-, bytes, read, decoded⟩ := reads
      refine ⟨facts.add p r, by rw [loadFile_eq parsed, read]; dsimp only; rw [decoded], fun q x => ?_,
        fun q => ?_⟩
      · rw [Facts.mem_scan_add]
        simp only [only, and_assoc, exists_and_left, exists_eq_left]
      · rw [Facts.mem_predicates_add, or_comm]
        simp only [only, exists_and_left, exists_eq, and_true]
    · intro bad facts
      rw [loadFile_eq parsed]
      cases read : t.read (l.factsRoot ++ [dir] ++ [name]) with
      | error e => exact ⟨_, rfl⟩
      | ok bytes =>
        dsimp only
        cases decoded : FactFile.read p bytes with
        | error e => exact ⟨_, rfl⟩
        | ok r =>
          refine absurd (fun q same => ?_) bad
          cases same
          exact ⟨r, parsed, bytes, read, decoded⟩

theorem loads_partition (l : Layout) (t : FileTree) (entry : String × Node) :
    Disk.Loads t (fun facts => loadPartition l facts entry)
      (isPartitionName entry.1 = true → entry.2 = .dir → l.PartitionReads t entry.1)
      fun p r => isPartitionName entry.1 = true ∧ entry.2 = .dir ∧ l.InPartition t entry.1 p r := by
  by_cases partition : isPartitionName entry.1 = true ∧ entry.2 = .dir
  · have loaded (facts : Facts) : loadPartition l facts entry = (do
        let es ← entries (l.factsRoot ++ [entry.1])
        es.foldlM (fun facts e => loadFile (l.factsRoot ++ [entry.1]) facts e.1) facts) := by
      rw [loadPartition, if_pos (by simpa using partition)]
    cases listed : t.list (l.factsRoot ++ [entry.1]) with
    | error e =>
      have run (facts : Facts) : loadPartition l facts entry t = (.error .file, t) := by
        rw [loaded, bind_apply, entries, bind_apply, Disk.query, listed]
        rfl
      constructor
      · intro good
        obtain ⟨es, ok, -⟩ := good partition.1 partition.2
        rw [listed] at ok
        cases ok
      · intro _ facts
        exact ⟨.file, run facts⟩
    | ok es =>
      have run (facts : Facts) : loadPartition l facts entry t =
          es.foldlM (fun facts e => loadFile (l.factsRoot ++ [entry.1]) facts e.1) facts t := by
        rw [loaded, bind_apply, entries, bind_apply, Disk.query, listed]
        rfl
      have files := Disk.Loads.foldlM fun e (_ : e ∈ es) => loads_file l t entry.1 e.1
      constructor
      · intro good facts
        obtain ⟨es', ok, all⟩ := good partition.1 partition.2
        rw [listed] at ok
        cases ok
        obtain ⟨facts', done, gathered⟩ := files.ok all facts
        refine ⟨facts', (run facts).trans done, gathered.congr fun p r => ?_⟩
        refine ⟨fun h => ⟨partition.1, partition.2, es, listed, h⟩, ?_⟩
        rintro ⟨-, -, es', ok, h⟩
        rw [listed] at ok
        cases ok
        exact h
      · intro bad facts
        obtain ⟨e, failed⟩ := files.error (fun all => bad fun _ _ => ⟨es, listed, all⟩) facts
        exact ⟨e, by rw [run]; exact failed⟩
  · have nothing (p : Predicate) (r : Relation) :
        ¬(isPartitionName entry.1 = true ∧ entry.2 = .dir ∧ l.InPartition t entry.1 p r) :=
      fun h => partition ⟨h.1, h.2.1⟩
    constructor
    · intro _ facts
      refine ⟨facts, ?_, fun p x => ?_, fun p => ?_⟩
      · rw [loadPartition, if_neg (by simpa using partition)]
        rfl
      · simp only [nothing, false_and, exists_false, or_false]
      · simp only [nothing, exists_false, or_false]
    · intro bad
      exact absurd (fun name dir => absurd ⟨name, dir⟩ partition) bad

end Directory

/-! ### Opening -/

namespace Layout

variable {l : Layout} {t : FileTree}

theorem plain_facts : ∀ name ∈ ["facts"], Path.PlainName name := by
  rw [List.forall_mem_singleton]
  exact ⟨by decide, by decide, by decide, by decide, by decide⟩

theorem plain_table : ∀ name ∈ ["facts", "_predicates"], Path.PlainName name := by
  refine List.forall_mem_cons.2 ⟨plain_facts _ List.mem_cons_self, List.forall_mem_singleton.2 ?_⟩
  exact ⟨by decide, by decide, by decide, by decide, by decide⟩

/-- The directory of facts is there, and the partition table has a path. -/
structure Opened (l : Layout) (t : FileTree) : Prop where
  present : l.Present t
  facts : t.node? (l.root ++ ["facts"]) = some .dir
  table : l.Fits ["facts", "_predicates"]

/-- The location of the partition table. -/
def tableLocation (l : Layout) : List String := l.root ++ ["facts", "_predicates"]

namespace Opened

theorem fits_facts (opened : l.Opened t) : l.Fits ["facts"] :=
  Fits.of_append (show l.Fits (["facts"] ++ ["_predicates"]) from opened.table)

variable (opened : l.Opened t) (wf : t.WellFormed)

include opened wf

theorem locate_facts : t.locate l.factsRoot = .ok (l.root ++ ["facts"]) :=
  locate_of_node plain_facts wf opened.present (by simp) opened.fits_facts
    (by rw [opened.facts]; exact nofun)

theorem locate_table : t.locate l.partitionTable = .ok l.tableLocation := by
  rw [partitionTable_eq]
  exact locate_of_parent plain_facts wf opened.present (plain_table _ (by simp)) opened.table opened.facts

/-- Nothing has to be made for an opened project. -/
theorem makeDirs_eq : Disk.makeDirs l.factsRoot t = (.ok (), t) := by
  have components := Path.components_append (p := l.project) plain_facts
  have valid : Path.isValid (Path.components (l.project ++ ["facts"])) = true :=
    Path.isValid_components (by rw [Path.isValid_append plain_facts]; exact opened.present.valid)
  have walked : t.walk [] (l.project.components ++ ["facts"]) = .ok (l.root ++ ["facts"]) := by
    refine walk_append.2 ⟨l.root, opened.present.walk, ?_⟩
    exact walk_of_plain wf plain_facts opened.fits_facts.names opened.facts
  rw [components] at valid
  rw [Disk.makeDirs, factsRoot, components, Disk.makeDirsAlong, valid,
    opened.fits_facts.path, if_neg (by simp), FileTree.makeDirs,
    makeDirsFrom_of_walk walked]

/-- Reading the partition table. -/
theorem readTable_eq : PartitionMap.readTable l t =
    match t.node? l.tableLocation with
    | none => (.ok [], t)
    | some .dir => (.error .file, t)
    | some (.file bytes) =>
      match PartitionTable.read? bytes with
      | some es => (.ok es, t)
      | none => (.error .partitions, t) := by
  rw [PartitionMap.readTable, bind_apply, Disk.query]
  dsimp only
  rw [read_eq (opened.locate_table wf)]
  cases t.node? l.tableLocation with
  | none => rfl
  | some n =>
    cases n with
    | dir => rfl
    | file bytes =>
      dsimp only
      cases PartitionTable.read? bytes <;> rfl

end Opened

/-- All that has the name of a partition and is a directory can be read. -/
def AllReads (l : Layout) (t : FileTree) : Prop :=
  ∀ dir, Directory.isPartitionName dir = true → t.node? (l.root ++ ["facts", dir]) = some .dir →
    l.PartitionReads t dir

/-- A relation is to be found in some partition. -/
def Finds (l : Layout) (t : FileTree) (p : Predicate) (r : Relation) : Prop :=
  ∃ dir, Directory.isPartitionName dir = true ∧ t.node? (l.root ++ ["facts", dir]) = some .dir ∧
    l.InPartition t dir p r

end Layout

namespace Directory

variable {l : Layout} {t t' : FileTree}

/-- **What opening finds.** Once the directory of facts is there and the table was read, opening leaves
the tree as it is, succeeds exactly when all partitions can be read, and holds what they hold. -/
theorem load_spec (opened : l.Opened t) (wf : t.WellFormed) {es : List PartitionEntry}
    (table : PartitionMap.readTable l t = (.ok es, t)) (blockSize : Int64) :
    (l.AllReads t → ∃ facts, load l blockSize t = (.ok (⟨blockSize, es⟩, facts), t) ∧
      Facts.Gathered ∅ (l.Finds t) facts) ∧
    (¬l.AllReads t → ∃ e, load l blockSize t = (.error e, t)) := by
  obtain ⟨names, listed, mem_names⟩ := list_of_locate (opened.locate_facts wf) opened.facts
  have run : load l blockSize t =
      match names.foldlM (loadPartition l) ∅ t with
      | (.ok facts, t) => (.ok (⟨blockSize, es⟩, facts), t)
      | (.error e, t) => (.error e, t) := by
    rw [load, bind_apply, opened.makeDirs_eq wf]
    dsimp only
    rw [bind_apply, table]
    dsimp only
    rw [bind_apply, entries, bind_apply, Disk.query]
    dsimp only
    rw [listed]
    show (names.foldlM (loadPartition l) ∅ >>= _) t = _
    rw [bind_apply]
    rcases names.foldlM (loadPartition l) ∅ t with ⟨_ | _, t'⟩ <;> rfl
  have loads := Disk.Loads.foldlM fun e (_ : e ∈ names) => loads_partition l t e
  have location (dir : String) : l.root ++ ["facts"] ++ [dir] = l.root ++ ["facts", dir] := by simp
  have all_iff : (∀ e ∈ names, isPartitionName e.1 = true → e.2 = .dir → l.PartitionReads t e.1) ↔
      l.AllReads t := by
    constructor
    · intro all dir partition node
      exact all (dir, .dir) ((mem_names _ _).2 (by rw [location]; exact node)) partition rfl
    · rintro all ⟨dir, n⟩ member partition rfl
      exact all dir partition (by rw [← location]; exact (mem_names _ _).1 member)
  have finds_iff (p : Predicate) (r : Relation) :
      (∃ e ∈ names, isPartitionName e.1 = true ∧ e.2 = .dir ∧ l.InPartition t e.1 p r) ↔
        l.Finds t p r := by
    constructor
    · rintro ⟨⟨dir, n⟩, member, partition, rfl, found⟩
      exact ⟨dir, partition, by rw [← location]; exact (mem_names _ _).1 member, found⟩
    · rintro ⟨dir, partition, node, found⟩
      exact ⟨(dir, .dir), (mem_names _ _).2 (by rw [location]; exact node), partition, rfl, found⟩
  constructor
  · intro all
    obtain ⟨facts, done, gathered⟩ := loads.ok (all_iff.2 all) ∅
    exact ⟨facts, by rw [run, done], gathered.congr finds_iff⟩
  · intro bad
    obtain ⟨e, failed⟩ := loads.error (fun all => bad (all_iff.1 all)) ∅
    exact ⟨e, by rw [run, failed]⟩

/-- Opening fails where the partition table cannot be read. -/
theorem load_of_table_error {t₁ : FileTree} {e : StoreError} {blockSize : Int64}
    (made : Disk.makeDirs l.factsRoot t = (.ok (), t₁))
    (table : PartitionMap.readTable l t₁ = (.error e, t₁)) : load l blockSize t = (.error e, t₁) := by
  rw [load, bind_apply, made]
  dsimp only
  rw [bind_apply, table]

theorem readTable_snd (l : Layout) (t : FileTree) : (PartitionMap.readTable l t).2 = t := by
  rw [PartitionMap.readTable, bind_apply, Disk.query]
  dsimp only
  cases t.read l.partitionTable with
  | error e => cases e <;> rfl
  | ok bytes =>
    dsimp only
    cases PartitionTable.read? bytes <;> rfl

/-- A path that is refused as such is no missing file, so a table with such a path cannot be read. -/
theorem readTable_of_refused
    (refused : ¬(l.project.isValid = true ∧
      Path.isTooLong (l.project.components ++ ["facts", "_predicates"]) = false)) (t : FileTree) :
    PartitionMap.readTable l t = (.error .file, t) := by
  have lost : t.locate l.partitionTable = .error .other := by
    rw [Layout.partitionTable_eq, locate, Path.isValid_append Layout.plain_table,
      Path.components_append Layout.plain_table, if_pos]
    simpa [Bool.or_eq_true, ← Bool.not_eq_true, imp_iff_not_or] using refused
  have unread : t.read l.partitionTable = .error .other := by
    rw [FileTree.read, find, lost]
    rfl
  rw [PartitionMap.readTable, bind_apply, Disk.query]
  dsimp only
  rw [unread]
  rfl

/-- What is known once a project was opened. -/
theorem of_load (wf : t.WellFormed) {blockSize : Int64} {m : PartitionMap} {facts : Facts}
    (h : load l blockSize t = (.ok (m, facts), t')) :
    Changes t (passed [] (l.project.components ++ ["facts"])) t.file? t' ∧ l.Opened t' ∧
      l.AllReads t' ∧ (∃ es, PartitionMap.readTable l t' = (.ok es, t') ∧ m = ⟨blockSize, es⟩) ∧
      Facts.Gathered ∅ (l.Finds t') facts := by
  have components := Path.components_append (p := l.project) Layout.plain_facts
  obtain ⟨changes, walks⟩ := Disk.makeDirsAlong_spec wf (Path.components l.factsRoot)
  rcases made : Disk.makeDirs l.factsRoot t with ⟨_ | _, t₁⟩
  · rw [load, bind_apply, made] at h
    cases h
  rw [show Disk.makeDirsAlong l.factsRoot.components t = _ from made] at changes walks
  rw [Layout.factsRoot, components] at changes walks
  obtain ⟨-, walked⟩ := walks rfl
  obtain ⟨root, first, last⟩ := walk_append.1 walked
  have root_eq : root = l.root := (of_walk first).1
  subst root_eq
  have usable : l.project.isValid = true ∧
      Path.isTooLong (l.project.components ++ ["facts", "_predicates"]) = false := by
    by_contra refused
    rw [load_of_table_error made (readTable_of_refused refused t₁)] at h
    cases h
  have present : l.Present t₁ := ⟨usable.1, first⟩
  have facts_dir : t₁.node? (l.root ++ ["facts"]) = some .dir := by
    obtain ⟨same, ends, -⟩ := of_walk last
    rw [resolve_of_plain Layout.plain_facts] at same
    rw [← same]
    exact ends ((of_walk first).2.1 rfl)
  have opened : l.Opened t₁ := ⟨present, facts_dir, usable.2, by decide⟩
  have again : load l blockSize t = load l blockSize t₁ := by
    rw [load, bind_apply, bind_apply, made, opened.makeDirs_eq changes.wellFormed]
  rw [again] at h
  rcases table : PartitionMap.readTable l t₁ with ⟨result, t₂⟩
  have same : t₂ = t₁ := by rw [← readTable_snd l t₁, table]
  subst same
  cases result with
  | error e =>
    rw [load_of_table_error (opened.makeDirs_eq changes.wellFormed) table] at h
    cases h
  | ok es =>
    obtain ⟨good, bad⟩ := load_spec opened changes.wellFormed table blockSize
    by_cases all : l.AllReads t₂
    · obtain ⟨facts', done, gathered⟩ := good all
      rw [done] at h
      cases h
      exact ⟨changes, opened, all, ⟨es, table, rfl⟩, gathered⟩
    · obtain ⟨e, failed⟩ := bad all
      rw [failed] at h
      cases h

end Directory

/-! ### Projects that are new -/

namespace Layout

/-- Nothing lies in the way of reading: no directory is in the place of the partition table or of a fact
file, and every partition has a path. -/
structure Clear (l : Layout) (t : FileTree) : Prop where
  table : t.node? l.tableLocation ≠ some .dir
  fits : ∀ dir, Directory.isPartitionName dir = true →
    t.node? (l.root ++ ["facts", dir]) = some .dir → l.Fits ["facts", dir]
  files : ∀ dir name p, Directory.isPartitionName dir = true → parseFactFileName? name = some p →
    t.node? (l.root ++ ["facts", dir, name]) ≠ some .dir

/-- A project that is new: nothing lies below its location. -/
structure Fresh (l : Layout) (t : FileTree) : Prop where
  wellFormed : t.WellFormed
  nothing : ∀ rest ≠ [], t.node? (l.root ++ rest) = none

theorem fresh_empty (l : Layout) : l.Fresh ∅ := by
  refine ⟨by decide +kernel, fun rest below => ?_⟩
  rw [node?, if_neg (by simp [below])]
  rfl

theorem plain_partition {dir : String} (partition : Directory.isPartitionName dir = true) :
    ∀ name ∈ ["facts", dir], Path.PlainName name :=
  List.forall_mem_cons.2 ⟨plain_facts _ List.mem_cons_self,
    List.forall_mem_singleton.2 (Directory.plain_of_isPartitionName partition)⟩

theorem plain_within {dir name : String} (partition : Directory.isPartitionName dir = true)
    (plain : Path.PlainName name) : ∀ n ∈ ["facts", dir, name], Path.PlainName n := by
  intro n hn
  rcases List.mem_append.1 (show n ∈ ["facts", dir] ++ [name] from hn) with front | last
  · exact plain_partition partition n front
  · rw [List.mem_singleton.1 last]
    exact plain

/-- A partition that is listed has a path, and lists what lies directly in it. -/
theorem of_list_partition {l : Layout} {t : FileTree} {dir : String} {es : List (String × Node)}
    (partition : Directory.isPartitionName dir = true)
    (listed : t.list (l.factsRoot ++ [dir]) = .ok es) :
    l.Fits ["facts", dir] ∧
      ∀ name n, (name, n) ∈ es ↔ t.node? (l.root ++ ["facts", dir, name]) = some n := by
  obtain ⟨loc, found, members⟩ := of_list listed
  rw [factsRoot, List.append_assoc] at found
  obtain ⟨-, fits⟩ := of_locate (plain_partition partition) (by simp) found
  refine ⟨fits, fun name n => ?_⟩
  rw [members, eq_of_locate (plain_partition partition) found, List.append_assoc]
  rfl

end Layout

namespace Directory

variable {l : Layout} {t t' : FileTree}

/-- What is made on the way to the facts of a new project has plain names. -/
theorem plain_of_made (fresh : l.Fresh t) (valid : l.project.isValid = true)
    {files : List String → Option (List UInt8)}
    (changes : Changes t (passed [] (l.project.components ++ ["facts"])) files t') (front : List String)
    {name : String} (dir : t'.node? (l.root ++ (front ++ [name])) = some .dir) : Path.PlainName name := by
  rcases changes.fresh _ dir with old | made
  · rw [fresh.nothing _ (by simp)] at old
    cases old
  · rcases mem_of_mem_passed made (c := name) (by simp) with none | ⟨component, down⟩
    · cases none
    · rcases List.mem_append.1 component with path | last
      · exact Path.plain_of_mem_components valid path down
      · exact Layout.plain_facts _ last

/-- What was opened where nothing was has no facts, no partitions and no files. -/
theorem of_openFrom_fresh (fresh : l.Fresh t) {blockSize : Int64} {d : Directory}
    (h : openFrom l blockSize t = (.ok d, t')) :
    d.layout = l ∧ d.partitions = ⟨blockSize, []⟩ ∧ d.facts = ∅ ∧ d.files = t' ∧
      t'.WellFormed ∧ l.Opened t' ∧ l.Clear t' ∧ ∀ rest ≠ [], t'.file? (l.root ++ rest) = none := by
  unfold openFrom at h
  rcases loaded : load l blockSize t with ⟨_ | ⟨m, facts⟩, t₁⟩
  · rw [loaded] at h
    cases h
  rw [loaded] at h
  cases h
  obtain ⟨changes, opened, all, ⟨es, table, rfl⟩, gathered⟩ := of_load fresh.wellFormed loaded
  have wf := changes.wellFormed
  have no_file (rest : List String) (below : rest ≠ []) : t'.file? (l.root ++ rest) = none := by
    rw [changes.files_eq, file?, fresh.nothing rest below]
  have no_node {rest : List String} (below : rest ≠ []) {bytes : List UInt8}
      (node : t'.node? (l.root ++ rest) = some (.file bytes)) : False := by
    have none := no_file rest below
    rw [file?_eq_some_iff.2 node] at none
    cases none
  have clear : l.Clear t' := by
    constructor
    · intro node
      rw [opened.readTable_eq wf, node] at table
      cases table
    · intro dir partition node
      obtain ⟨entries, listed, -⟩ := all dir partition node
      exact (Layout.of_list_partition partition listed).1
    · -- A directory with the name of a fact file would have been read, and reading it fails.
      intro dir name p partition parsed node
      have above : t'.node? (l.root ++ ["facts", dir]) = some .dir :=
        wf _ name (by rw [List.append_assoc]; exact ne_of_eq_of_ne node (Option.some_ne_none _))
      obtain ⟨entries, listed, reads⟩ := all dir partition above
      have member := ((Layout.of_list_partition partition listed).2 name .dir).2 node
      obtain ⟨r, -, bytes, read, -⟩ := reads _ member p parsed
      obtain ⟨loc, found, file⟩ := of_read read
      have plain : ∀ n ∈ ["facts", dir, name], Path.PlainName n :=
        Layout.plain_within partition
          (plain_of_made fresh opened.present.valid changes ["facts", dir] node)
      rw [Layout.factsRoot, List.append_assoc, List.append_assoc] at found
      rw [Layout.eq_of_locate plain found, node] at file
      cases file
  refine ⟨rfl, ?_, ?_, rfl, wf, opened, clear, no_file⟩
  · rw [opened.readTable_eq wf] at table
    split at table
    · cases table
      rfl
    · cases table
    · next bytes file => exact (no_node (by simp) (show t'.node? (l.root ++ ["facts", "_predicates"]) = _ from file)).elim
  · refine SortedMap.ext_get? fun p => ?_
    by_contra listed
    obtain old | ⟨r, dir, partition, -, entries, names, ⟨name, n⟩, member, parsed, -⟩ :=
      (gathered.listed p).1 (SortedMap.mem_keys_iff.2 listed)
    · cases old
    have node := ((Layout.of_list_partition partition names).2 name n).1 member
    cases n with
    | dir => exact clear.files dir name p partition parsed node
    | file bytes => exact no_node (by simp) node

/-- A project that was opened in an empty tree. -/
def newProject : FileTree := SortedMap.ofList [(["p"], .dir), (["p", "facts"], .dir)]

/-- The store of that project, with blocks of two facts. -/
def newStore : Directory := ⟨⟨["p"]⟩, ⟨2, []⟩, ∅, newProject⟩

theorem openFrom_empty : openFrom ⟨["p"]⟩ 2 ∅ = (.ok newStore, newProject) := rfl

end Directory

end Datalog
