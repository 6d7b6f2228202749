import Datalog.Proofs.Partitions
import Datalog.Proofs.ProjectLoading

/-!
# The fact files of a project

What the fact files of a project hold is a function from predicates and partitions to relations, the
shelf. A write puts a relation on the shelf, a relocation shifts it to another partition
(`Layout.Holds.put`, `Layout.Holds.shift`), and opening the project finds what is on the shelf
(`Directory.openFrom_of_holds`).
-/

namespace Datalog

open FileTree

/-- The relation in the file of a predicate in a partition, if there is a file. -/
abbrev Shelf := Predicate × Int32 → Option Relation

namespace Shelf

variable {V V' : Shelf} {p : Predicate} {source target : Int32} {r : Relation}

/-- A fact is in some file. -/
def Has (V : Shelf) (p : Predicate) (x : Tuple) : Prop :=
  ∃ location r, V (p, location) = some r ∧ x ∈ r

theorem has_iff_of_only (here : V (p, source) = some r)
    (only : ∀ location, V (p, location) ≠ none → location = source) (x : Tuple) : V.Has p x ↔ x ∈ r := by
  constructor
  · rintro ⟨location, r', on_shelf, hx⟩
    rw [only location (by rw [on_shelf]; exact nofun), here] at on_shelf
    cases on_shelf
    exact hx
  · exact fun hx => ⟨source, r, here, hx⟩

theorem has_congr (same : ∀ location, V' (p, location) = V (p, location)) (x : Tuple) :
    V'.Has p x ↔ V.Has p x := by
  unfold Has
  simp only [same]

/-- The relation of a predicate is taken from one partition and put into another. -/
def shift (V : Shelf) (p : Predicate) (source target : Int32) (r : Relation) : Shelf :=
  Function.update (Function.update V (p, source) none) (p, target) (some r)

theorem shift_target (V : Shelf) (p : Predicate) (source target : Int32) (r : Relation) :
    V.shift p source target r (p, target) = some r := Function.update_self ..

theorem shift_of_ne (V : Shelf) (source target : Int32) (r : Relation) {q : Predicate} (other : q ≠ p)
    (location : Int32) : V.shift p source target r (q, location) = V (q, location) := by
  have apart (location' : Int32) : (q, location) ≠ (p, location') := fun h => other (Prod.mk.inj h).1
  rw [shift, Function.update_of_ne (apart _), Function.update_of_ne (apart _)]

/-- What was in one place only is in one place only. -/
theorem eq_target_of_shift (only : ∀ location, V (p, location) ≠ none → location = source) {location : Int32}
    (there : V.shift p source target r (p, location) ≠ none) : location = target := by
  by_contra elsewhere
  rw [shift, Function.update_of_ne fun h => elsewhere (Prod.mk.inj h).2] at there
  by_cases left : location = source
  · rw [left, Function.update_self] at there
    exact there rfl
  · rw [Function.update_of_ne fun h => left (Prod.mk.inj h).2] at there
    exact left (only location there)

end Shelf

namespace Layout

variable {l : Layout} {files files' : List String → Option (List UInt8)} {V : Shelf}

/-- The names that lead from a project to the file of a predicate in a partition. -/
def shelfNames (k : Predicate × Int32) : List String := ["facts", toString k.2.toInt, factFileName k.1]

/-- The location of the file of a predicate in a partition. -/
def shelfLocation (l : Layout) (k : Predicate × Int32) : List String := l.root ++ shelfNames k

theorem shelfLocation_injective {k k' : Predicate × Int32} (first : k.1.Storable) (second : k'.1.Storable)
    (same : l.shelfLocation k = l.shelfLocation k') : k = k' := by
  have names := List.append_cancel_left same
  simp only [shelfNames, List.cons.injEq, true_and, and_true] at names
  exact Prod.ext (factFileName_injective first second names.2)
    (Directory.toString_location_injective names.1)

theorem plain_shelfNames {k : Predicate × Int32} (storable : k.1.Storable) :
    ∀ name ∈ shelfNames k, Path.PlainName name :=
  plain_within (Directory.isPartitionName_toString k.2) (plain_factFileName storable)

/-- Among files, those in the partitions of a project are those of the shelf. Each has a path and reads
back. -/
structure Holds (l : Layout) (files : List String → Option (List UInt8)) (V : Shelf) : Prop where
  file : ∀ k r, V k = some r → files (l.shelfLocation k) = some (FactFile.write r)
  only : ∀ dir name, files (l.root ++ ["facts", dir, name]) ≠ none →
    ∃ k, V k ≠ none ∧ l.root ++ ["facts", dir, name] = l.shelfLocation k
  fits : ∀ k, V k ≠ none → l.Fits (shelfNames k)
  storable : ∀ k r, V k = some r → k.1.Storable ∧ ∀ x ∈ r, FactRecord.Storable k.1 x

namespace Holds

theorem congr (holds : l.Holds files V)
    (same : ∀ dir name, files' (l.root ++ ["facts", dir, name]) = files (l.root ++ ["facts", dir, name])) :
    l.Holds files' V := by
  refine ⟨fun k r on_shelf => ?_, fun dir name there => ?_, holds.fits, holds.storable⟩
  · exact (same _ _).trans (holds.file k r on_shelf)
  · rw [same] at there
    exact holds.only dir name there

theorem storable_of_ne_none (holds : l.Holds files V) {k : Predicate × Int32} (on_shelf : V k ≠ none) :
    k.1.Storable := by
  obtain ⟨r, same⟩ := Option.ne_none_iff_exists'.1 on_shelf
  exact (holds.storable k r same).1

theorem of_file (holds : l.Holds files V) {p : Predicate} {location : Int32} (storable : p.Storable)
    {bytes : List UInt8} (file : files (l.shelfLocation (p, location)) = some bytes) :
    ∃ r, V (p, location) = some r := by
  obtain ⟨k, on_shelf, same⟩ := holds.only _ _ (show files (l.shelfLocation (p, location)) ≠ none by
    rw [file]
    exact nofun)
  rw [shelfLocation_injective (holds.storable_of_ne_none on_shelf) storable same.symm] at on_shelf
  exact Option.ne_none_iff_exists'.1 on_shelf

/-- A change of one file is a change of the shelf at one place. -/
theorem update (holds : l.Holds files V) {k : Predicate × Int32} (storable : k.1.Storable)
    (r? : Option Relation)
    (good : ∀ r, r? = some r → l.Fits (shelfNames k) ∧ ∀ x ∈ r, FactRecord.Storable k.1 x) :
    l.Holds (Function.update files (l.shelfLocation k) (r?.map FactFile.write)) (Function.update V k r?) := by
  have apart {k' : Predicate × Int32} (other : k' ≠ k) (on_shelf : V k' ≠ none) :
      l.shelfLocation k' ≠ l.shelfLocation k := fun same =>
    other (shelfLocation_injective (holds.storable_of_ne_none on_shelf) storable same)
  refine ⟨fun k' r' on_shelf => ?_, fun dir name there => ?_, fun k' on_shelf => ?_,
    fun k' r' on_shelf => ?_⟩
  · by_cases here : k' = k
    · subst here
      rw [Function.update_self] at on_shelf
      rw [Function.update_self, on_shelf]
      rfl
    · rw [Function.update_of_ne here] at on_shelf
      rw [Function.update_of_ne (apart here (by rw [on_shelf]; exact nofun))]
      exact holds.file k' r' on_shelf
  · by_cases here : l.root ++ ["facts", dir, name] = l.shelfLocation k
    · refine ⟨k, ?_, here⟩
      rw [here, Function.update_self] at there
      rw [Function.update_self]
      exact fun none => there (by rw [none]; rfl)
    · rw [Function.update_of_ne here] at there
      obtain ⟨k', on_shelf, same⟩ := holds.only dir name there
      refine ⟨k', ?_, same⟩
      rw [Function.update_of_ne]
      · exact on_shelf
      · exact fun again => here (again ▸ same)
  · by_cases here : k' = k
    · subst here
      rw [Function.update_self] at on_shelf
      obtain ⟨r, same⟩ := Option.ne_none_iff_exists'.1 on_shelf
      exact (good r same).1
    · rw [Function.update_of_ne here] at on_shelf
      exact holds.fits k' on_shelf
  · by_cases here : k' = k
    · subst here
      rw [Function.update_self] at on_shelf
      exact ⟨storable, (good r' on_shelf).2⟩
    · rw [Function.update_of_ne here] at on_shelf
      exact holds.storable k' r' on_shelf

/-- A file that is written is put on the shelf. -/
theorem put (holds : l.Holds files V) {k : Predicate × Int32} (storable : k.1.Storable) {r : Relation}
    (fits : l.Fits (shelfNames k)) (tuples : ∀ x ∈ r, FactRecord.Storable k.1 x) :
    l.Holds (Function.update files (l.shelfLocation k) (some (FactFile.write r)))
      (Function.update V k (some r)) := by
  refine holds.update storable (some r) fun r' same => ?_
  cases same
  exact ⟨fits, tuples⟩

/-- A file that is moved changes its place on the shelf. -/
theorem shift (holds : l.Holds files V) {p : Predicate} {source target : Int32} {r : Relation}
    (on_shelf : V (p, source) = some r) (fits : l.Fits (shelfNames (p, target))) :
    l.Holds
      (Function.update (Function.update files (l.shelfLocation (p, source)) none)
        (l.shelfLocation (p, target)) (some (FactFile.write r)))
      (V.shift p source target r) := by
  obtain ⟨storable, tuples⟩ := holds.storable _ _ on_shelf
  have taken := holds.update (k := (p, source)) storable none fun _ same => by cases same
  exact taken.put (k := (p, target)) storable fits tuples

end Holds

end Layout

/-! ### Finding what is on the shelf -/

/-- Where the partition table was written, the project is opened. -/
theorem Layout.opened_of_table {l : Layout} {t : FileTree} (wf : t.WellFormed) (present : l.Present t)
    (fits : l.Fits ["facts", "_predicates"]) {bytes : List UInt8}
    (file : t.file? l.tableLocation = some bytes) : l.Opened t := by
  refine ⟨present, wf _ "_predicates" ?_, fits⟩
  rw [List.append_assoc]
  exact file?_eq_some_iff.1 file ▸ nofun

/-- A partition table that was written is read back. -/
theorem Layout.Opened.readTable_of_file {l : Layout} {t : FileTree} (opened : l.Opened t) (wf : t.WellFormed)
    {es : List PartitionEntry} (file : t.file? l.tableLocation = some (PartitionTable.write es))
    (short : ∀ e ∈ es, (Text.bytes e.symbol).length < 2 ^ 64) :
    PartitionMap.readTable l t = (.ok es, t) := by
  rw [opened.readTable_eq wf, file?_eq_some_iff.1 file]
  dsimp only
  rw [PartitionTable.read?_write short]

namespace Layout.Holds

variable {l : Layout} {t : FileTree} {V : Shelf}

theorem of_node (holds : l.Holds t.file? V) {dir name : String} {bytes : List UInt8}
    (file : t.node? (l.root ++ ["facts", dir, name]) = some (.file bytes)) :
    ∃ k r, V k = some r ∧ dir = toString k.2.toInt ∧ name = factFileName k.1 := by
  obtain ⟨k, on_shelf, same⟩ := holds.only dir name (by rw [file?_eq_some_iff.2 file]; exact nofun)
  obtain ⟨r, there⟩ := Option.ne_none_iff_exists'.1 on_shelf
  have names := List.append_cancel_left same
  simp only [shelfNames, List.cons.injEq, true_and, and_true] at names
  exact ⟨k, r, there, names⟩

theorem locate_factFile (holds : l.Holds t.file? V) (wf : t.WellFormed) (present : l.Present t)
    {p : Predicate} {location : Int32} {r : Relation} (on_shelf : V (p, location) = some r) :
    t.locate (l.factFile location p) = .ok (l.shelfLocation (p, location)) := by
  have node := file?_eq_some_iff.1 (holds.file _ r on_shelf)
  have found := locate_of_node (plain_shelfNames (holds.storable _ r on_shelf).1) wf present
    (by simp [shelfNames]) (holds.fits _ (by rw [on_shelf]; exact nofun)) (by
      rw [show t.node? (l.root ++ shelfNames (p, location)) = _ from node]
      exact nofun)
  rw [factFile_eq]
  exact found

theorem read_factFile (holds : l.Holds t.file? V) (wf : t.WellFormed) (present : l.Present t)
    {p : Predicate} {location : Int32} {r : Relation} (on_shelf : V (p, location) = some r) :
    t.read (l.factFile location p) = .ok (FactFile.write r) := by
  rw [read_eq (holds.locate_factFile wf present on_shelf), file?_eq_some_iff.1 (holds.file _ r on_shelf)]

/-- A file on the shelf can be read. -/
theorem reads (holds : l.Holds t.file? V) (wf : t.WellFormed) (present : l.Present t)
    {p : Predicate} {location : Int32} {r : Relation} (on_shelf : V (p, location) = some r) :
    l.Reads t (toString location.toInt) (factFileName p) p r := by
  obtain ⟨storable, tuples⟩ := holds.storable _ r on_shelf
  exact ⟨parseFactFileName?_factFileName storable.ne_empty storable.arity, FactFile.write r,
    holds.read_factFile wf present on_shelf, FactFile.read_write tuples⟩

/-- What has the name of a fact file is on the shelf, if nothing lies in the way. -/
theorem of_parsed (holds : l.Holds t.file? V) (clear : l.Clear t) {dir name : String} {n : Node}
    {p : Predicate} (partition : Directory.isPartitionName dir = true)
    (parsed : parseFactFileName? name = some p) (node : t.node? (l.root ++ ["facts", dir, name]) = some n) :
    ∃ location r, V (p, location) = some r ∧ dir = toString location.toInt ∧ name = factFileName p := by
  cases n with
  | dir => exact absurd node (clear.files dir name p partition parsed)
  | file bytes =>
    obtain ⟨k, r, on_shelf, rfl, rfl⟩ := holds.of_node node
    have storable := (holds.storable k r on_shelf).1
    rw [parseFactFileName?_factFileName storable.ne_empty storable.arity] at parsed
    cases parsed
    exact ⟨k.2, r, on_shelf, rfl, rfl⟩

theorem allReads (holds : l.Holds t.file? V) (wf : t.WellFormed) (present : l.Present t)
    (clear : l.Clear t) : l.AllReads t := by
  intro dir partition node
  have found := locate_of_node (plain_partition partition) wf present (by simp)
    (clear.fits dir partition node) (by rw [node]; exact nofun)
  obtain ⟨es, listed, -⟩ := list_of_locate found node
  have within : t.list (l.factsRoot ++ [dir]) = .ok es := by
    rw [factsRoot, List.append_assoc]
    exact listed
  refine ⟨es, within, ?_⟩
  rintro ⟨name, n⟩ member p parsed
  have there := ((of_list_partition partition within).2 name n).1 member
  obtain ⟨location, r, on_shelf, rfl, rfl⟩ := holds.of_parsed clear partition parsed there
  exact ⟨r, holds.reads wf present on_shelf⟩

theorem finds_iff (holds : l.Holds t.file? V) (wf : t.WellFormed) (present : l.Present t)
    (clear : l.Clear t) (p : Predicate) (r : Relation) :
    l.Finds t p r ↔ ∃ location, V (p, location) = some r := by
  constructor
  · rintro ⟨dir, partition, -, es, listed, ⟨name, n⟩, member, parsed, bytes, read, decoded⟩
    have there := ((of_list_partition partition listed).2 name n).1 member
    obtain ⟨location, r', on_shelf, rfl, rfl⟩ := holds.of_parsed clear partition parsed there
    obtain ⟨-, bytes', read', decoded'⟩ := holds.reads wf present on_shelf
    dsimp only at read read' decoded'
    rw [read] at read'
    cases read'
    rw [decoded] at decoded'
    cases decoded'
    exact ⟨location, on_shelf⟩
  · rintro ⟨location, on_shelf⟩
    have partition := Directory.isPartitionName_toString location
    have node := file?_eq_some_iff.1 (holds.file _ r on_shelf)
    have dir : t.node? (l.root ++ ["facts", toString location.toInt]) = some .dir :=
      wf _ (factFileName p) (by rw [List.append_assoc]; exact node ▸ nofun)
    obtain ⟨es, listed, -⟩ := holds.allReads wf present clear _ partition dir
    have member := ((of_list_partition partition listed).2 _ _).2 node
    exact ⟨_, partition, dir, es, listed, _, member, holds.reads wf present on_shelf⟩

end Layout.Holds

namespace Directory

variable {l : Layout} {t : FileTree} {V : Shelf}

/-- **Opening finds what is on the shelf**, if nothing lies in the way. -/
theorem openFrom_of_holds (holds : l.Holds t.file? V) (wf : t.WellFormed) (opened : l.Opened t)
    (clear : l.Clear t) {es : List PartitionEntry} (table : PartitionMap.readTable l t = (.ok es, t))
    (blockSize : Int64) :
    ∃ facts, openFrom l blockSize t = (.ok ⟨l, ⟨blockSize, es⟩, facts, t⟩, t) ∧
      (∀ p x, x ∈ facts.scan p ↔ V.Has p x) ∧ ∀ p ∈ facts.predicates, p.Storable := by
  obtain ⟨facts, loaded, gathered⟩ :=
    (load_spec opened wf table blockSize).1 (holds.allReads wf opened.present clear)
  have finds := holds.finds_iff wf opened.present clear
  refine ⟨facts, by rw [openFrom, loaded], fun p x => ?_, fun p hp => ?_⟩
  · rw [gathered.scan, or_iff_right (by simp)]
    constructor
    · rintro ⟨r, found, hx⟩
      obtain ⟨location, on_shelf⟩ := (finds p r).1 found
      exact ⟨location, r, on_shelf, hx⟩
    · rintro ⟨location, r, on_shelf, hx⟩
      exact ⟨r, (finds p r).2 ⟨location, on_shelf⟩, hx⟩
  · rcases (gathered.listed p).1 hp with none | ⟨r, found⟩
    · cases none
    · obtain ⟨location, on_shelf⟩ := (finds p r).1 found
      exact (holds.storable _ r on_shelf).1

end Directory

end Datalog
