import Datalog.Proofs.Mirroring
import Datalog.Storage.Store

/-!
# Directory stores answer as memory stores do

A store takes inserts and imports, and it is closed and opened again. A memory store has nothing to be read
from and is kept as it is. A directory store that starts with a new project and whose writes succeed gives
the same answers and has the same relations, wherever it is reopened and with whatever block size
(`Store.run_directory`).
-/

namespace Datalog

/-- What can be done to a store. -/
inductive Operation where
  | insert (p : Predicate) (r : Relation)
  | importBatch (batch : Facts)
  | reopen (blockSize : Int64)

/-- What a store answers. -/
inductive Answer where
  | added (r : Relation)
  | total (n : Nat)
  | opened

namespace Operation

/-- Whether an operation only closes and opens a store. -/
def isReopen : Operation → Bool
  | .reopen _ => true
  | _ => false

/-- The facts of an operation can be kept. -/
def Storable : Operation → Prop
  | .insert p r => r.StorableFor p
  | .importBatch batch => batch.Storable
  | .reopen _ => True

instance : (op : Operation) → Decidable op.Storable
  | .insert p r => inferInstanceAs (Decidable (r.StorableFor p))
  | .importBatch batch => inferInstanceAs (Decidable batch.Storable)
  | .reopen _ => inferInstanceAs (Decidable True)

end Operation

namespace Store

/-- Closes a store and opens it again. -/
def reopen (blockSize : Int64) : Store → Except StoreError Unit × Store
  | .memory f => (.ok (), .memory f)
  | .directory d =>
    match Directory.openFrom d.layout blockSize d.files with
    | (.ok d', _) => (.ok (), .directory d')
    | (.error e, files) => (.error e, .directory { d with files })

/-- Performs an operation. -/
def perform (s : Store) : Operation → Except StoreError Answer × Store
  | .insert p r => ((s.insert p r).1.map .added, (s.insert p r).2)
  | .importBatch batch => ((s.importBatch batch).1.map .total, (s.importBatch batch).2)
  | .reopen blockSize => ((s.reopen blockSize).1.map fun _ => .opened, (s.reopen blockSize).2)

/-- Performs one operation after the other. -/
def run (s : Store) : List Operation → List (Except StoreError Answer) × Store
  | [] => ([], s)
  | op :: ops => ((s.perform op).1 :: ((s.perform op).2.run ops).1, ((s.perform op).2.run ops).2)

/-- Whether every insert and every import of a run succeeds. -/
def acknowledges (s : Store) : List Operation → Bool
  | [] => true
  | op :: ops => (op.isReopen || (s.perform op).1.isOk) && (s.perform op).2.acknowledges ops

variable {d : Directory} {f : Facts}

theorem runDirectory_eq {α : Type} {act : DirectoryM α} {result : Except StoreError α} {d' : Directory}
    (h : act d = (result, d')) : runDirectory act d = (result, directory d') := by
  rw [runDirectory, h]

/-- **One operation.** A directory store in step with its files answers as a memory store with the same
relations, and is in step again. -/
theorem perform_directory (synced : d.Synced) (same : ∀ p, d.facts.scan p = f.scan p) {op : Operation}
    (storable : op.Storable) (ok : (op.isReopen || ((directory d).perform op).1.isOk) = true) :
    ∃ answer d' f', (directory d).perform op = (answer, .directory d') ∧
      (memory f).perform op = (answer, .memory f') ∧ d'.Synced ∧ d'.layout = d.layout ∧
      ∀ p, d'.facts.scan p = f'.scan p := by
  cases op with
  | insert p r =>
    rcases done : Directory.insert p r d with ⟨e | added, d'⟩
    · rw [perform, Store.insert, runDirectory_eq done] at ok
      cases ok
    · have in_step := synced.insert storable done
      obtain ⟨rfl, files, rfl⟩ := Directory.insert_ok done
      refine ⟨.ok (.added (r.diff (d.facts.scan p))), _, f.add p r, ?_, ?_, in_step, rfl, fun q => ?_⟩
      · rw [perform, Store.insert, runDirectory_eq done]
        rfl
      · rw [same]
        rfl
      · refine SortedSet.ext_mem fun x => ?_
        rw [Facts.mem_scan_add, Facts.mem_scan_add, same]
  | importBatch batch =>
    rcases done : Directory.importBatch batch d with ⟨e | n, d'⟩
    · rw [perform, Store.importBatch, runDirectory_eq done] at ok
      cases ok
    · obtain ⟨in_step, layout, facts, rfl⟩ := synced.importBatch storable done
      refine ⟨.ok (.total (Directory.newCount batch.toList d.facts)), d',
        Directory.addAll batch.toList f, ?_, ?_, in_step, layout, fun q => ?_⟩
      · rw [perform, Store.importBatch, runDirectory_eq done]
        rfl
      · have counts : Directory.newCount batch.toList d.facts = Directory.newCount batch.toList f := by
          unfold Directory.newCount
          simp only [same]
        rw [counts]
        rfl
      · refine SortedSet.ext_mem fun x => ?_
        rw [facts, Directory.mem_scan_addAll, Directory.mem_scan_addAll, same]
  | reopen blockSize =>
    obtain ⟨d', opened, in_step, layout, -, -, scan⟩ := synced.reopen blockSize
    refine ⟨.ok .opened, d', f, ?_, rfl, in_step, layout, fun q => (scan q).trans (same q)⟩
    rw [perform, reopen, opened]
    rfl

/-- A run of operations, by induction on what is left of it. -/
theorem run_agrees (synced : d.Synced) (same : ∀ p, d.facts.scan p = f.scan p) {ops : List Operation}
    (storable : ∀ op ∈ ops, op.Storable) (ok : (directory d).acknowledges ops = true) :
    ∃ answers d' f', (directory d).run ops = (answers, .directory d') ∧
      (memory f).run ops = (answers, .memory f') ∧ d'.Synced ∧ d'.layout = d.layout ∧
      ∀ p, d'.facts.scan p = f'.scan p := by
  induction ops generalizing d f with
  | nil => exact ⟨[], d, f, rfl, rfl, synced, rfl, same⟩
  | cons op ops ih =>
    obtain ⟨here, later⟩ := List.forall_mem_cons.1 storable
    rw [acknowledges, Bool.and_eq_true] at ok
    obtain ⟨answer, d₁, f₁, done, done', synced₁, layout₁, same₁⟩ :=
      perform_directory synced same here ok.1
    rw [done] at ok
    obtain ⟨answers, d₂, f₂, rest, rest', synced₂, layout₂, same₂⟩ := ih synced₁ same₁ later ok.2
    refine ⟨answer :: answers, d₂, f₂, ?_, ?_, synced₂, layout₂.trans layout₁, same₂⟩
    · rw [run, done, rest]
    · rw [run, done', rest']

/-- **A directory store refines a memory store across restarts.** It starts with a new project, whatever its
block size, and its inserts and imports all succeed. Then it gives the answers of a memory store, so every
reopening succeeds. Whenever the run is stopped, the relations are those of the memory store, the project
can be opened with its partitions and relations unchanged, and each predicate with a tuple has its one
file. -/
theorem run_directory {l : Layout} {t t' : FileTree} {blockSize : Int64} {d : Directory} (fresh : l.Fresh t)
    (opened : Directory.openFrom l blockSize t = (.ok d, t')) {ops : List Operation}
    (storable : ∀ op ∈ ops, op.Storable) (ok : (directory d).acknowledges ops = true) :
    ∃ d' f', ((directory d).run ops).2 = .directory d' ∧ ((memory ∅).run ops).2 = .memory f' ∧
      ((directory d).run ops).1 = ((memory ∅).run ops).1 ∧
      (∀ p, d'.facts.scan p = f'.scan p) ∧
      (∀ blockSize', ∃ d'', Directory.openFrom l blockSize' d'.files = (.ok d'', d'.files) ∧
        d''.partitions.entries = d'.partitions.entries ∧ ∀ p, d''.facts.scan p = d'.facts.scan p) ∧
      d'.layout = l ∧ ∀ p, (d'.facts.scan p).isEmpty = false → d'.OneFile p := by
  obtain ⟨rfl, facts, synced⟩ := Directory.Synced.of_fresh fresh opened
  obtain ⟨answers, d', f', done, done', synced', layout, same⟩ :=
    run_agrees (f := ∅) synced (fun p => by rw [facts]) storable ok
  refine ⟨d', f', by rw [done], by rw [done'], by rw [done, done'], same, fun blockSize' => ?_, layout,
    fun p some_tuple => synced'.mirrors.oneFile some_tuple⟩
  obtain ⟨d'', reopened, -, -, -, entries, scan⟩ := synced'.reopen blockSize'
  rw [← layout]
  exact ⟨d'', reopened, entries, scan⟩

/-! A run in which a symbol gets a partition of its own after a reopening, and takes along the file of a
predicate that was only inserted. -/

/-- A node and, after a reopening, as many edges as a block has. -/
def promotion : List Operation := [
  .insert ⟨"e", 1⟩ (SortedSet.ofList [Tuple.ofInts [7]]),
  .reopen 2,
  .importBatch (Facts.ofList [(⟨"e", 2⟩, SortedSet.ofList [Tuple.ofInts [1, 2], Tuple.ofInts [2, 3]])])]

/-- The two predicates have a file each, in the new partition, and memory gives the same answers. -/
theorem run_promotion : ∃ d, ((directory .newStore).run promotion).2 = .directory d ∧
    ((directory .newStore).run promotion).1 = ((memory ∅).run promotion).1 ∧
    d.partitions.locationOf "e" = 1 ∧ d.OneFile ⟨"e", 1⟩ ∧ d.OneFile ⟨"e", 2⟩ := by
  have storable : ∀ op ∈ promotion, op.Storable := by decide +kernel
  obtain ⟨d, f, done, done', answers, same, -, -, one_file⟩ :=
    run_directory (Layout.fresh_empty _) Directory.openFrom_empty storable (by decide +kernel)
  have promoted : (match ((directory .newStore).run promotion).2 with
      | .directory d => d.partitions.locationOf "e"
      | .memory _ => 0) = 1 := by decide +kernel
  rw [done] at promoted
  cases done'
  refine ⟨d, done, answers, promoted, one_file _ ?_, one_file _ ?_⟩
  · rw [same]
    decide +kernel
  · rw [same]
    decide +kernel

end Store

end Datalog
