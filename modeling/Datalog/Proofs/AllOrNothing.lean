import Datalog.Proofs.DirectorySteps

/-!
# Staged writes are all or nothing

The partition table, the files of facts and the results of evaluations are written by way of a staging
file (`StagedFile`). A write that succeeds puts the new content into the place of its target and leaves
no staging file; one that fails leaves every file as it was, that of another writer included. What the
paths of the target and of the staging file lead to stays as well (`StagedFile.write_all_or_nothing`), as
long as the paths climb only out of directories that are there: the directories that a write makes first
can open a way, through `..`, to what was out of reach.
-/

namespace Datalog

namespace FileTree

variable {t t' : FileTree} {p : Path} {loc : List String} {names : List String} {name : String}

/-- The path climbs only out of directories that are there. -/
def Settled (t : FileTree) (p : Path) : Prop :=
  ∃ front back loc, p.components = front ++ back ∧ t.walk [] front = .ok loc ∧ ".." ∉ back

theorem settled_of_down (down : ".." ∉ p.components) : t.Settled p :=
  ⟨[], p.components, [], rfl, rfl, down⟩

/-- With more directories, a settled path is located where it was, if something stands there. -/
theorem Settled.locate (settled : t.Settled p) (wf : t.WellFormed)
    (kept : ∀ l, t.node? l = some .dir → t'.node? l = some .dir) (found : t'.locate p = .ok loc)
    (same : t'.node? loc = t.node? loc) (there : t.node? loc ≠ none) : t.locate p = .ok loc := by
  obtain ⟨front, back, start, parts, walked, down⟩ := settled
  obtain ⟨valid, short, found⟩ := locate_eq_ok_iff.1 found
  have plain : ∀ name ∈ back, Path.PlainName name := fun name hname =>
    Path.plain_of_mem_components valid (by rw [parts]; exact List.mem_append_right _ hname)
      fun up => down (up ▸ hname)
  -- What the components lead to with more directories, they lead to without, as far as it is there.
  have walk_back {names : List String} {l : List String} (plain : ∀ name ∈ names, Path.PlainName name)
      (walked' : t'.walk [] (front ++ names) = .ok l) (dir : t.node? l = some .dir) :
      t.walk [] (front ++ names) = .ok l := by
    obtain ⟨start', first, rest⟩ := walk_append.1 walked'
    rw [walk_mono kept walked] at first
    cases first
    have ends := (of_walk rest).1
    rw [resolve_of_plain plain] at ends
    subst ends
    exact walk_append.2 ⟨start, walked, walk_of_plain wf plain (short_of_walk plain rest) dir⟩
  refine locate_eq_ok_iff.2 ⟨valid, short, ?_⟩
  rcases found with ⟨ends, walked'⟩ | ⟨ends, root | ⟨names, name, parent, parts', walked', last⟩⟩
  · have dir : t'.node? loc = some .dir := (of_walk walked').2.1 rfl
    rw [parts] at walked' ⊢
    exact .inl ⟨ends, walk_back plain walked' (same ▸ dir)⟩
  · exact .inr ⟨ends, .inl root⟩
  · refine .inr ⟨ends, .inr ⟨names, name, parent, parts', ?_, last⟩⟩
    cases back using List.reverseRecOn with
    | nil =>
      rw [List.append_nil] at parts
      rw [← parts, parts'] at walked
      obtain ⟨parent', before, -⟩ := walk_append.1 walked
      rw [walk_mono kept before] at walked'
      cases walked'
      exact before
    | append_singleton inner name' =>
      rw [parts, ← List.append_assoc] at parts'
      obtain ⟨rfl, same_name⟩ := List.append_inj' parts' rfl
      cases same_name
      have plain_last : Path.PlainName name := plain name (by simp)
      refine walk_back (fun n hn => plain n (List.mem_append_left _ hn)) walked' ?_
      rw [((child_of_plain plain_last).1 last).2] at there
      exact wf _ _ there

/-- What a settled path finds stays when no file changes, unless a directory was made at its end. -/
theorem Changes.find_eq {dirs : List (List String)} (changes : Changes t dirs t.file? t')
    (wf : t.WellFormed) (settled : t.Settled p)
    (old : resolve [] p.components ∈ dirs → t.node? (resolve [] p.components) = some .dir) :
    (t'.find p).toOption = (t.find p).toOption := by
  have same := changes.node?_eq_of_not_fresh old
  have found_iff (n : Node) : t'.find p = .ok n ↔ t.find p = .ok n := by
    rw [find_eq_ok_iff, find_eq_ok_iff]
    constructor
    · rintro ⟨loc, found, node⟩
      have ends := eq_resolve_of_locate found
      rw [← ends] at same
      have before : t.node? loc = some n := same ▸ node
      exact ⟨loc, settled.locate wf changes.kept found same (by rw [before]; exact nofun), before⟩
    · rintro ⟨loc, found, node⟩
      have ends := eq_resolve_of_locate found
      rw [← ends] at same
      exact ⟨loc, locate_mono changes.kept found, same.trans node⟩
  refine Option.ext fun n => ?_
  have value (x : Except FileError Node) : x.toOption = some n ↔ x = .ok n := by
    cases x <;> simp [Except.toOption]
  rw [value, value, found_iff n]

/-- The end of a settled path is not among the locations that its directory is reached through, unless it
is a directory that is there. -/
theorem Settled.dir_of_mem_passed (settled : t.Settled p) (parts : p.components = names ++ [name])
    (h : resolve [] p.components ∈ passed [] names) :
    t.node? (resolve [] p.components) = some .dir := by
  obtain ⟨front, back, start, parts', walked, down⟩ := settled
  obtain ⟨leads, dir, through⟩ := of_walk walked
  cases back using List.reverseRecOn with
  | nil =>
    rw [parts', List.append_nil, ← leads]
    exact dir rfl
  | append_singleton inner last =>
    have ends : resolve [] p.components = start ++ (inner ++ [last]) := by
      rw [parts', resolve_append, ← leads, resolve_of_down down]
    rw [parts, ← List.append_assoc] at parts'
    obtain ⟨rfl, -⟩ := List.append_inj' parts' rfl
    rw [passed_append, List.mem_append, ← leads] at h
    rcases h with before | after
    · exact through _ before
    · have inner_down : ".." ∉ inner := fun up => down (List.mem_append_left _ up)
      have shorter := of_mem_passed_of_down inner_down after
      rw [ends] at shorter
      simp only [List.length_append, List.length_singleton] at shorter
      omega

end FileTree

open FileTree

/-! ### Where targets and staging files lie -/

/-- A name without slashes of more than two characters is one component. -/
theorem Path.nameComponents_of_long {name : String} (no_slash : '/' ∉ name.toList)
    (long : 2 < name.toList.length) : nameComponents name = [name] ∧ name ≠ ".." := by
  have other {s : String} (short : s.toList.length ≤ 2) : name ≠ s := by
    rintro rfl
    omega
  refine ⟨?_, other (by decide)⟩
  rw [nameComponents_of_no_slash no_slash, if_neg (not_or.2 ⟨other (by decide), other (by decide)⟩)]

theorem Path.length_nameComponents_le {name : String} (no_slash : '/' ∉ name.toList) :
    (nameComponents name).length ≤ 1 := by
  rw [nameComponents_of_no_slash no_slash]
  split <;> simp

theorem Path.slash_not_mem_append {name more : String} (first : '/' ∉ name.toList)
    (second : '/' ∉ more.toList) : '/' ∉ (name ++ more).toList := by
  rw [String.toList_append, List.mem_append]
  exact not_or.2 ⟨first, second⟩

/-- Where the target and the staging file of a project lie: the target below some directory of the project
other than that of staging files, the staging file in that one. -/
structure Layout.Apart (l : Layout) (target staging : Path) : Prop where
  target : ∃ first more last, target.components = l.project.components ++ (first :: more) ++ [last] ∧
    first ≠ ".." ∧ first ≠ "_tmp" ∧ more.length ≤ 2 ∧ last ≠ ".." ∧ last ≠ "_tmp"
  staging : ∃ name, staging.components = l.project.components ++ ["_tmp"] ++ [name] ∧ name ≠ ".."

namespace Layout

variable {l : Layout} {t : FileTree} {target staging : Path}

theorem components_stagingDir (l : Layout) :
    l.stagingDir.components = l.project.components ++ ["_tmp"] := by
  refine Path.components_append fun name hname => ?_
  rw [List.mem_singleton.1 hname]
  exact ⟨by decide, by decide, by decide, by decide, by decide⟩

theorem plain_inferences : Path.PlainName "inferences" :=
  ⟨by decide, by decide, by decide, by decide, by decide⟩

theorem components_factFile (l : Layout) (location : Int32) {p : Predicate}
    (no_slash : '/' ∉ p.symbol.toList) : (l.factFile location p).components =
      l.project.components ++ ["facts", toString location.toInt] ++ [factFileName p] := by
  have partition := Directory.plain_of_isPartitionName (Directory.isPartitionName_toString location)
  have file : '/' ∉ (factFileName p).toList := not_mem_factFileName no_slash (by decide) (by decide)
  have long : 2 < (factFileName p).toList.length := Nat.lt_trans (by decide) (length_factFileName p)
  have names : ∀ n ∈ ["facts", toString location.toInt, factFileName p], '/' ∉ n.toList := by
    simp only [List.forall_mem_cons, List.not_mem_nil, false_imp_iff, implies_true, and_true]
    exact ⟨by decide, partition.no_slash, file⟩
  rw [factFile_eq, Path.components_append_of_no_slash names, List.flatMap_cons, List.flatMap_cons,
    List.flatMap_singleton, Path.nameComponents_of_plain (plain_facts _ List.mem_cons_self),
    Path.nameComponents_of_plain partition, (Path.nameComponents_of_long file long).1, List.append_assoc]
  rfl

/-- A name of results can be empty, a single dot or two, so it can lead nowhere or up again. -/
theorem components_inferenceFile (l : Layout) {name flowId : String} (no_slash : '/' ∉ name.toList)
    (no_slash' : '/' ∉ flowId.toList) : (l.inferenceFile name flowId).components =
      l.project.components ++
        ("inferences" :: (Path.nameComponents name ++ Path.nameComponents (name ++ flowId))) ++
        ["part-00000.jsonl"] := by
  have path : l.inferenceFile name flowId =
      l.project ++ ["inferences", name, name ++ flowId, "part-00000.jsonl"] := by
    rw [inferenceFile, inferenceDir, List.append_assoc]
    rfl
  have last : '/' ∉ "part-00000.jsonl".toList := by decide
  have names : ∀ n ∈ ["inferences", name, name ++ flowId, "part-00000.jsonl"], '/' ∉ n.toList := by
    simp only [List.forall_mem_cons, List.not_mem_nil, false_imp_iff, implies_true, and_true]
    exact ⟨by decide, no_slash, Path.slash_not_mem_append no_slash no_slash', last⟩
  rw [path, Path.components_append_of_no_slash names, List.flatMap_cons, List.flatMap_cons,
    List.flatMap_cons, List.flatMap_singleton, Path.nameComponents_of_plain plain_inferences,
    (Path.nameComponents_of_long last (by decide)).1]
  simp

theorem components_stagingFile (l : Layout) {name : String} (no_slash : '/' ∉ name.toList)
    (long : 2 < name.toList.length) :
    (l.stagingFile name).components = l.project.components ++ ["_tmp"] ++ [name] := by
  have names : ∀ n ∈ [name], '/' ∉ n.toList := List.forall_mem_singleton.2 no_slash
  rw [stagingFile, Path.components_append_of_no_slash names, components_stagingDir, List.flatMap_singleton,
    (Path.nameComponents_of_long no_slash long).1]

/-- Two steps from a directory stay below it or lead back to where it is. -/
theorem below_or_short_of_mem_passed {loc l : List String} {first : String} {more : List String}
    (inner : first ≠ "..") (few : more.length ≤ 2) (h : l ∈ passed loc (first :: more)) :
    loc ++ [first] <+: l ∨ l.length ≤ loc.length + 1 := by
  have second (a : String) : next (loc ++ [first]) a = loc ++ [first] ++ [a] ∨
      next (loc ++ [first]) a = loc := by
    unfold next
    split
    · exact .inr List.dropLast_concat
    · exact .inl rfl
  have third (a b : String) : loc ++ [first] <+: next (next (loc ++ [first]) a) b ∨
      (next (next (loc ++ [first]) a) b).length ≤ loc.length + 1 := by
    rcases second a with down | up
    · left
      rw [down, next]
      split
      · exact ⟨[], by rw [List.append_nil, List.dropLast_concat]⟩
      · rw [List.append_assoc]
        exact List.prefix_append _ _
    · right
      rw [up, next]
      split
      · rw [List.length_dropLast]
        omega
      · rw [List.length_append, List.length_singleton]
  have second' (a : String) : loc ++ [first] <+: next (loc ++ [first]) a ∨
      (next (loc ++ [first]) a).length ≤ loc.length + 1 := by
    rcases second a with down | up
    · rw [down]
      exact .inl (List.prefix_append _ _)
    · rw [up]
      exact .inr (Nat.le_succ _)
  rw [passed, show next loc first = loc ++ [first] from if_neg inner] at h
  cases more with
  | nil =>
    rw [List.mem_singleton.1 h]
    exact .inl (List.prefix_refl _)
  | cons a more =>
    rcases List.mem_cons.1 h with rfl | h
    · exact .inl (List.prefix_refl _)
    rcases List.mem_cons.1 h with rfl | h
    · exact second' a
    cases more with
    | nil => cases h
    | cons b more =>
      have last : more = [] := List.eq_nil_of_length_eq_zero (by simp only [List.length_cons] at few; omega)
      rw [last] at h
      rw [List.mem_singleton.1 h]
      exact third a b

/-- Two steps do not lead from one directory of a project below another. -/
theorem not_mem_passed_aside {loc : List String} {first aside name : String} {more : List String}
    (inner : first ≠ "..") (other : first ≠ aside) (few : more.length ≤ 2) :
    loc ++ [aside] ++ [name] ∉ passed loc (first :: more) := by
  intro h
  rcases below_or_short_of_mem_passed inner few h with below | short
  · rw [List.append_assoc, List.prefix_append_right_inj] at below
    simp [other] at below
  · simp at short

namespace Apart

/-- No directory is made in the place of the target. -/
theorem target_old (apart : l.Apart target staging) (settled : t.Settled target)
    (h : resolve [] target.components ∈ Disk.stagedDirs l.stagingDir target) :
    t.node? (resolve [] target.components) = some .dir := by
  obtain ⟨first, more, last, parts, -, -, -, down, not_tmp⟩ := apart.target
  have dropped : target.components.dropLast = l.project.components ++ (first :: more) := by
    rw [parts, List.dropLast_concat]
  rw [Disk.stagedDirs, dropped, components_stagingDir, List.mem_append, passed_append] at h
  rcases h with made | made
  · rw [List.mem_append] at made
    rcases made with in_project | at_tmp
    · refine settled.dir_of_mem_passed parts ?_
      rw [passed_append]
      exact List.mem_append_left _ in_project
    · rw [parts, resolve_append] at at_tmp
      simp [resolve, passed, next, down, not_tmp] at at_tmp
  · exact settled.dir_of_mem_passed parts made

/-- No directory is made in the place of the staging file. -/
theorem staging_old (apart : l.Apart target staging) (settled : t.Settled staging)
    (h : resolve [] staging.components ∈ Disk.stagedDirs l.stagingDir target) :
    t.node? (resolve [] staging.components) = some .dir := by
  obtain ⟨first, more, last, parts, inner, not_tmp, few, -, -⟩ := apart.target
  obtain ⟨name, parts', down⟩ := apart.staging
  have dropped : target.components.dropLast = l.project.components ++ (first :: more) := by
    rw [parts, List.dropLast_concat]
  have ends : resolve [] staging.components =
      resolve [] l.project.components ++ ["_tmp"] ++ [name] := by
    rw [parts', resolve_append, resolve_append]
    simp [resolve, next, down]
  rw [Disk.stagedDirs, dropped, components_stagingDir, List.mem_append] at h
  rcases h with made | made
  · exact settled.dir_of_mem_passed parts' made
  · rw [passed_append, List.mem_append] at made
    rcases made with in_project | aside
    · refine settled.dir_of_mem_passed parts' ?_
      rw [passed_append]
      exact List.mem_append_left _ in_project
    · rw [ends] at aside
      exact absurd aside (not_mem_passed_aside inner not_tmp few)

end Apart

end Layout

/-! ### Staged files -/

/-- What is written by way of a staging file: the partition table, the facts of a predicate, or the
results of one evaluation. -/
inductive StagedFile
  | table
  | facts (p : Predicate)
  | results (name flowId : String) (r : Relation)

namespace StagedFile

variable {w : StagedFile} {d : Directory}

/-- The write of a store. -/
def write : StagedFile → DirectoryM Unit
  | table => do
    let d ← get
    Directory.onDisk (d.partitions.save d.layout)
  | facts p => Directory.persist p
  | results name flowId r => discard (Directory.writeInference name flowId r)

/-- The path that is written. -/
def target (d : Directory) : StagedFile → Path
  | table => d.layout.partitionTable
  | facts p => d.factFile p
  | results name flowId _ => d.layout.inferenceFile name flowId

/-- The path of the staging file. -/
def staging (d : Directory) : StagedFile → Path
  | table => d.layout.stagedTable
  | facts p => d.layout.stagingFile (Layout.factFileName p)
  | results name flowId _ => d.layout.stagedInference name flowId

/-- The bytes that are written. -/
def content (d : Directory) : StagedFile → List UInt8
  | table => PartitionTable.write d.partitions.entries
  | facts p => FactFile.write (d.facts.scan p)
  | results _ _ r => FactFile.write r

/-- The names that are part of paths have no slashes. -/
def NoSlash : StagedFile → Prop
  | table => True
  | facts p => '/' ∉ p.symbol.toList
  | results name flowId _ => '/' ∉ name.toList ∧ '/' ∉ flowId.toList

instance : DecidablePred NoSlash
  | table => inferInstanceAs (Decidable True)
  | facts p => inferInstanceAs (Decidable ('/' ∉ p.symbol.toList))
  | results name flowId _ => inferInstanceAs (Decidable ('/' ∉ name.toList ∧ '/' ∉ flowId.toList))

theorem write_eq (w : StagedFile) (d : Directory) :
    w.write d =
      match Disk.writeStaged d.layout.stagingDir (w.staging d) (w.target d) (w.content d) d.files with
      | (result, files) => (result, { d with files }) := by
  cases w with
  | table => rfl
  | facts p => exact Directory.persist_eq p d
  | results name flowId r =>
    show (Directory.writeInference name flowId r >>= fun _ => pure () : DirectoryM Unit) d = _
    rw [bind_apply, Directory.writeInference_eq]
    show _ = match Disk.writeStaged d.layout.stagingDir (d.layout.stagedInference name flowId)
      (d.layout.inferenceFile name flowId) (FactFile.write r) d.files with
      | (result, files) => (result, { d with files })
    rcases Disk.writeStaged d.layout.stagingDir (d.layout.stagedInference name flowId)
      (d.layout.inferenceFile name flowId) (FactFile.write r) d.files with ⟨_ | _, files⟩ <;> rfl

/-- Targets and staging files lie apart, whatever the names are. -/
theorem apart (names : w.NoSlash) (d : Directory) : d.layout.Apart (w.target d) (w.staging d) := by
  cases w with
  | table =>
    refine ⟨⟨"facts", [], "_predicates", ?_, by decide, by decide, by decide, by decide, by decide⟩,
      _, Layout.components_stagingFile _ (by decide) (by decide), by decide⟩
    rw [target, Layout.partitionTable_eq, Path.components_append Layout.plain_table, List.append_assoc]
    rfl
  | facts p =>
    have no_slash : '/' ∉ (Layout.factFileName p).toList :=
      Layout.not_mem_factFileName names (by decide) (by decide)
    have long := Layout.length_factFileName p
    have down := (Path.nameComponents_of_long no_slash (by omega)).2
    have not_tmp : Layout.factFileName p ≠ "_tmp" := by
      intro same
      rw [same] at long
      exact absurd long (by decide)
    exact ⟨⟨_, _, _, d.layout.components_factFile _ names, by decide, by decide, by simp, down, not_tmp⟩,
      _, Layout.components_stagingFile _ no_slash (by omega), down⟩
  | results name flowId r =>
    have no_slash : '/' ∉ (name ++ flowId ++ ".part").toList :=
      Path.slash_not_mem_append (Path.slash_not_mem_append names.1 names.2) (by decide)
    have long : 2 < (name ++ flowId ++ ".part").toList.length := by
      rw [String.toList_append, List.length_append]
      exact Nat.lt_add_left _ (by decide)
    refine ⟨⟨_, _, _, d.layout.components_inferenceFile names.1 names.2, by decide, by decide, ?_,
      by decide, by decide⟩, _, Layout.components_stagingFile _ no_slash long,
      (Path.nameComponents_of_long no_slash long).2⟩
    have first := Path.length_nameComponents_le names.1
    have second := Path.length_nameComponents_le (Path.slash_not_mem_append names.1 names.2)
    rw [List.length_append]
    omega

/-- What a staged write leaves when it ends with `result`. -/
structure Leaves (w : StagedFile) (d : Directory) (result : Except StoreError Unit) (files : FileTree) :
    Prop where
  /-- The new content is in the place of the target, no staging file is left, and no other file changed. -/
  written : result = .ok () → files.read (w.target d) = .ok (w.content d) ∧
    files.find (w.staging d) = .error .notFound ∧
    ∃ loc, files.locate (w.target d) = .ok loc ∧ ∀ l ≠ loc, files.file? l = d.files.file? l
  /-- After a failure, all files are as they were: a staging file that was created is gone again. -/
  restored : result ≠ .ok () → files.file? = d.files.file?
  /-- No directory goes. -/
  dirs : ∀ l, d.files.node? l = some .dir → files.node? l = some .dir
  /-- After a failure, the path of the target leads to what it led to. -/
  target_kept : result ≠ .ok () → d.files.Settled (w.target d) →
    (files.find (w.target d)).toOption = (d.files.find (w.target d)).toOption
  /-- After a failure, the path of the staging file leads to what it led to. -/
  staging_kept : result ≠ .ok () → d.files.Settled (w.staging d) →
    (files.find (w.staging d)).toOption = (d.files.find (w.staging d)).toOption
  /-- What is in the place of the staging file once the directories are made belongs to another writer,
  and stays. -/
  taken : ∀ t, Disk.makePlaces d.layout.stagingDir (w.target d) d.files = (.ok (), t) →
    t.has (w.staging d) = true → result = .error (.concurrentWrite (w.staging d).text) ∧ files = t
  /-- Without an obstacle the write succeeds. -/
  unobstructed : ∀ t src, Disk.makePlaces d.layout.stagingDir (w.target d) d.files = (.ok (), t) →
    t.locate (w.staging d) = .ok src → t.node? src = none → Disk.Accepts t (w.target d) src →
    result = .ok ()

/-- A write that fails and changes no file leaves what its paths lead to, too. -/
theorem Leaves.of_error {e : StoreError} {files : FileTree} (wf : d.files.WellFormed)
    (names : w.NoSlash)
    (changes : Changes d.files (Disk.stagedDirs d.layout.stagingDir (w.target d)) d.files.file? files)
    (taken : ∀ t, Disk.makePlaces d.layout.stagingDir (w.target d) d.files = (.ok (), t) →
      t.has (w.staging d) = true → e = .concurrentWrite (w.staging d).text ∧ files = t)
    (obstacle : ∀ t src, Disk.makePlaces d.layout.stagingDir (w.target d) d.files = (.ok (), t) →
      t.locate (w.staging d) = .ok src → t.node? src = none → ¬Disk.Accepts t (w.target d) src) :
    w.Leaves d (.error e) files where
  written ok := by cases ok
  restored _ := changes.files_eq
  dirs := changes.kept
  target_kept _ settled := changes.find_eq wf settled ((w.apart names d).target_old settled)
  staging_kept _ settled := changes.find_eq wf settled ((w.apart names d).staging_old settled)
  taken t places there := (taken t places there).imp (congrArg _) id
  unobstructed t src places staged free accepts := absurd accepts (obstacle t src places staged free)

/-- **Staged writes are all or nothing**, whatever the files are and whichever obstacle is met first. A
write that succeeds leaves the new content in the place of the target and no staging file. A write that
fails leaves every file as it was, and what settled paths to the target and the staging file lead to. A
staging file that is there when the directories are made stays with its writer. -/
theorem write_all_or_nothing (w : StagedFile) (d : Directory) (wf : d.files.WellFormed) (names : w.NoSlash) :
    ∃ result files, w.write d = (result, { d with files }) ∧ w.Leaves d result files := by
  have outcome := Disk.writeStaged_outcome wf d.layout.stagingDir (w.staging d) (w.target d) (w.content d)
  have changes := (Disk.makePlaces_spec wf d.layout.stagingDir (w.target d)).1
  rw [write_eq]
  generalize Disk.writeStaged d.layout.stagingDir (w.staging d) (w.target d) (w.content d) d.files =
    ending at outcome ⊢
  obtain ⟨result, files⟩ := ending
  refine ⟨result, files, rfl, ?_⟩
  dsimp only at outcome
  cases outcome with
  | unplaced places =>
    rw [places] at changes
    refine .of_error wf names changes (fun t made => ?_) (fun t src made => ?_)
    · rw [places] at made
      cases made
    · rw [places] at made
      cases made
  | taken places there =>
    rw [places] at changes
    refine .of_error wf names changes (fun t made _ => ?_) (fun t src made staged free => ?_)
    · rw [places] at made
      cases made
      exact ⟨rfl, rfl⟩
    · rw [places] at made
      cases made
      rw [has, find_eq staged, free] at there
      cases there
  | obstructed places absent obstacle restored =>
    rw [places] at changes
    have both := changes.trans restored
    rw [changes.files_eq, List.append_nil] at both
    refine .of_error wf names both (fun t made there => ?_) (fun t src made staged _ => ?_)
    · rw [places] at made
      cases made
      rw [absent] at there
      cases there
    · rw [places] at made
      cases made
      exact obstacle src staged
  | @written t _ src dst places absent staged located no_dir apart replaced =>
    rw [places] at changes
    have free := node?_eq_none_of_has staged absent
    have gone : files.node? src = none :=
      replaced.node?_eq_none free (by simp) (by rw [Function.update_of_ne (Ne.symm apart), file?, free])
    have content : files.node? dst = some (.file (w.content d)) := by
      rw [← file?_eq_some_iff, replaced.files_eq, Function.update_self]
    have located' := locate_mono replaced.kept located
    refine ⟨fun _ => ⟨?_, ?_, dst, located', fun l other => ?_⟩, fun failed => absurd rfl failed, ?_,
      fun failed => absurd rfl failed, fun failed => absurd rfl failed, ?_, fun _ _ _ _ _ _ => rfl⟩
    · rw [read_eq located', content]
    · rw [find_eq (locate_mono replaced.kept staged), gone]
    · rw [replaced.files_eq, Function.update_of_ne other, changes.files_eq]
    · exact fun l dir => replaced.kept l (changes.kept l dir)
    · intro t' made there
      rw [places] at made
      cases made
      rw [absent] at there
      cases there

/-- A project with a directory where the partition table is to be. -/
def blockedProject : Directory where
  layout := ⟨["p"]⟩
  partitions := ⟨1024, []⟩
  facts := ∅
  files := (((∅ : FileTree).insert ["p"] .dir).insert ["p", "facts"] .dir).insert
    ["p", "facts", "_predicates"] .dir

/-- The staging file was filled before the directory was met. It is gone again, and the directory is still
there. -/
theorem blockedProject_left :
    blockedProject.files.WellFormed ∧ table.NoSlash ∧
    ∃ result files, table.write blockedProject = (result, { blockedProject with files }) ∧
      result ≠ .ok () ∧ (files.find (table.target blockedProject)).toOption = some .dir ∧
      (files.find (table.staging blockedProject)).toOption = none := by
  have wf : blockedProject.files.WellFormed := by decide +kernel
  obtain ⟨result, files, wrote, left⟩ := write_all_or_nothing table blockedProject wf trivial
  have fails : (table.write blockedProject).1.isOk = false := by decide +kernel
  have failed : result ≠ .ok () := by
    rintro rfl
    rw [wrote] at fails
    cases fails
  have target_kept := left.target_kept failed (settled_of_down (by decide +kernel))
  have staging_kept := left.staging_kept failed (settled_of_down (by decide +kernel))
  exact ⟨wf, trivial, result, files, wrote, failed, target_kept.trans (by decide +kernel),
    staging_kept.trans (by decide +kernel)⟩

/-- The results of a predicate `..`: the path of their file climbs out of a directory again. -/
def climbing : StagedFile :=
  .results ".." (Context.flowId {}) (SortedSet.singleton (Tuple.ofInts [1]))

/-- A project without inferences, with a file where the path leads once there are some. A file of another
writer is in the place of the staging file. -/
def climbingProject : Directory where
  layout := ⟨["p"]⟩
  partitions := ⟨1024, []⟩
  facts := ∅
  files :=
    ((((((∅ : FileTree).insert ["p"] .dir).insert ["p", "facts"] .dir).insert ["p", ".._s0_i0_r0"] .dir).insert
      ["p", ".._s0_i0_r0", "part-00000.jsonl"] (.file (Text.bytes "old\n"))).insert ["p", "_tmp"] .dir).insert
      ["p", "_tmp", ".._s0_i0_r0.part"] (.file (Text.bytes "other\n"))

/-- The write fails and leaves the directory of all results behind, through which the path of its target
leads to a file where it led to nothing before. -/
theorem climbing_target_appears :
    climbingProject.files.WellFormed ∧ climbing.NoSlash ∧
    (climbing.write climbingProject).1 = .error (.concurrentWrite "p/_tmp/.._s0_i0_r0.part") ∧
    (climbing.write climbingProject).2.files.toList =
      (climbingProject.files.insert ["p", "inferences"] .dir).toList ∧
    (climbingProject.files.find (climbing.target climbingProject)).toOption = none ∧
    ((climbing.write climbingProject).2.files.find (climbing.target climbingProject)).toOption =
      some (.file (Text.bytes "old\n")) := by
  decide +kernel

end StagedFile

end Datalog
