import Datalog.Proofs.Shelves

/-!
# What the operations of a directory store do

Every operation is told by what becomes of the facts, the partitions and the tree. Each case lists all
that can happen, failures included.
-/

namespace Datalog

open FileTree

/-- Tuples that can be kept as facts of a predicate. -/
structure Relation.StorableFor (r : Relation) (p : Predicate) : Prop where
  predicate : p.Storable
  tuples : ∀ x ∈ r, FactRecord.Storable p x

instance (r : Relation) (p : Predicate) : Decidable (r.StorableFor p) :=
  decidable_of_iff (p.Storable ∧ ∀ x ∈ r.toList, FactRecord.Storable p x)
    ⟨fun ⟨predicate, tuples⟩ => ⟨predicate, tuples⟩, fun ⟨predicate, tuples⟩ => ⟨predicate, tuples⟩⟩

namespace Relation.StorableFor

variable {r : Relation} {p : Predicate} {facts : Facts}

theorem listed_add (storable : r.StorableFor p) (listed : ∀ q ∈ facts.predicates, q.Storable) :
    ∀ q ∈ (facts.add p r).predicates, q.Storable := by
  intro q hq
  rcases Facts.mem_predicates_add.1 hq with rfl | old
  · exact storable.predicate
  · exact listed q old

theorem tuples_add (storable : r.StorableFor p) {q : Predicate}
    (tuples : ∀ x ∈ facts.scan q, FactRecord.Storable q x) :
    ∀ x ∈ (facts.add p r).scan q, FactRecord.Storable q x := by
  intro x hx
  rcases Facts.mem_scan_add.1 hx with old | ⟨rfl, new⟩
  · exact tuples x old
  · exact storable.tuples x new

end Relation.StorableFor

/-- Facts that can be kept. -/
def Facts.Storable (facts : Facts) : Prop := ∀ e ∈ facts.toList, e.2.StorableFor e.1

instance (facts : Facts) : Decidable facts.Storable :=
  inferInstanceAs (Decidable (∀ e ∈ facts.toList, e.2.StorableFor e.1))

namespace Directory

variable {d d' : Directory} {p : Predicate} {r : Relation}

theorem insert_eq (p : Predicate) (r : Relation) (d : Directory) :
    insert p r d =
      if (r.diff (d.facts.scan p)).isEmpty then
        (.ok (r.diff (d.facts.scan p)), { d with facts := d.facts.add p r })
      else
        match persist p { d with facts := d.facts.add p r } with
        | (.ok (), d') => (.ok (r.diff (d.facts.scan p)), d')
        | (.error e, d') => (.error e, d') := by
  rw [insert, bind_apply]
  show ((set _ : DirectoryM Unit) >>= _) d = _
  rw [bind_apply]
  show (if !(r.diff (d.facts.scan p)).isEmpty then persist p >>= fun _ => pure (r.diff (d.facts.scan p))
    else pure (r.diff (d.facts.scan p)) : DirectoryM Relation) { d with facts := d.facts.add p r } = _
  cases (r.diff (d.facts.scan p)).isEmpty with
  | true => rfl
  | false =>
    rw [if_pos (by simp), if_neg (by simp), bind_apply]
    rcases persist p { d with facts := d.facts.add p r } with ⟨_ | _, d'⟩ <;> rfl

/-- What a path to a fact file that was located tells. -/
theorem of_locate_factFile {l : Layout} {t : FileTree} {location : Int32} {loc : List String}
    (storable : p.Storable) (found : t.locate (l.factFile location p) = .ok loc) :
    loc = l.shelfLocation (p, location) ∧ l.Present t ∧ l.Fits (Layout.shelfNames (p, location)) := by
  have plain := Layout.plain_shelfNames (k := (p, location)) storable
  rw [Layout.factFile_eq] at found
  exact ⟨Layout.eq_of_locate plain found, Layout.of_locate plain (by simp [Layout.shelfNames]) found⟩

/-- Writing the file of a predicate is one staged write. -/
theorem persist_eq (p : Predicate) (d : Directory) :
    persist p d =
      match Disk.writeStaged d.layout.stagingDir (d.layout.stagingFile (Layout.factFileName p))
        (d.factFile p) (FactFile.write (d.facts.scan p)) d.files with
      | (result, files) => (result, { d with files }) := rfl

/-- Writing the file of a predicate puts its relation there, or fails and changes no file. -/
theorem persist_cases (wf : d.files.WellFormed) (storable : p.Storable) :
    (∃ e files, persist p d = (.error e, { d with files }) ∧
      Changes d.files (Disk.stagedDirs d.layout.stagingDir (d.factFile p)) d.files.file? files) ∨
    ∃ files, persist p d = (.ok (), { d with files }) ∧ d.layout.Present files ∧
      d.layout.Fits (Layout.shelfNames (p, d.partitions.locationOf p.symbol)) ∧
      Changes d.files (Disk.stagedDirs d.layout.stagingDir (d.factFile p))
        (Function.update d.files.file? (d.layout.shelfLocation (p, d.partitions.locationOf p.symbol))
          (some (FactFile.write (d.facts.scan p)))) files := by
  rw [persist_eq]
  rcases Disk.writeStaged_spec wf d.layout.stagingDir (d.layout.stagingFile (Layout.factFileName p))
      (d.factFile p) (FactFile.write (d.facts.scan p)) with
    ⟨e, files, failed, changes⟩ | ⟨loc, files, found, done, changes⟩
  · rw [failed]
    exact .inl ⟨e, files, rfl, changes⟩
  · obtain ⟨rfl, present, fits⟩ := of_locate_factFile storable found
    rw [done]
    exact .inr ⟨files, rfl, present, fits, changes⟩

/-- **What inserting does.** Tuples that are all known change nothing on disk. Otherwise the facts change,
and the file of the predicate is written, or the write fails and no file changes. -/
theorem insert_cases (wf : d.files.WellFormed) (storable : p.Storable) (r : Relation) :
    (r.diff (d.facts.scan p)).isEmpty = true ∧
      insert p r d = (.ok (r.diff (d.facts.scan p)), { d with facts := d.facts.add p r }) ∨
    (r.diff (d.facts.scan p)).isEmpty = false ∧
      ((∃ e files, insert p r d = (.error e, { d with facts := d.facts.add p r, files }) ∧
        Changes d.files (Disk.stagedDirs d.layout.stagingDir (d.factFile p)) d.files.file? files) ∨
      ∃ files, insert p r d =
          (.ok (r.diff (d.facts.scan p)), { d with facts := d.facts.add p r, files }) ∧
        d.layout.Present files ∧
        d.layout.Fits (Layout.shelfNames (p, d.partitions.locationOf p.symbol)) ∧
        Changes d.files (Disk.stagedDirs d.layout.stagingDir (d.factFile p))
          (Function.update d.files.file? (d.layout.shelfLocation (p, d.partitions.locationOf p.symbol))
            (some (FactFile.write ((d.facts.add p r).scan p)))) files) := by
  rw [insert_eq]
  cases (r.diff (d.facts.scan p)).isEmpty with
  | true => exact .inl ⟨rfl, if_pos rfl⟩
  | false =>
    rw [if_neg (by simp)]
    refine .inr ⟨rfl, ?_⟩
    rcases persist_cases (d := { d with facts := d.facts.add p r }) wf storable with
      ⟨e, files, failed, changes⟩ | ⟨files, done, present, fits, changes⟩
    · rw [failed]
      exact .inl ⟨e, files, rfl, changes⟩
    · rw [done]
      exact .inr ⟨files, rfl, present, fits, changes⟩

/-- Keeping the results of an evaluation is one staged write. -/
theorem writeInference_eq (name flowId : String) (r : Relation) (d : Directory) :
    writeInference name flowId r d =
      match Disk.writeStaged d.layout.stagingDir (d.layout.stagedInference name flowId)
        (d.layout.inferenceFile name flowId) (FactFile.write r) d.files with
      | (.ok (), files) => (.ok (d.layout.inferenceDir name flowId), { d with files })
      | (.error e, files) => (.error e, { d with files }) := by
  rw [writeInference, bind_apply]
  show (onDisk _ >>= _ : DirectoryM Path) d = _
  rw [bind_apply, onDisk]
  rcases Disk.writeStaged d.layout.stagingDir (d.layout.stagedInference name flowId)
    (d.layout.inferenceFile name flowId) (FactFile.write r) d.files with ⟨_ | _, files⟩ <;> rfl

theorem moveFile_eq (move : Relocation) (p : Predicate) (d : Directory) :
    moveFile move p d =
      if d.files.has (d.layout.factFile move.source p) then
        match Disk.makeParent (d.layout.factFile move.target p) d.files with
        | (.ok (), files) =>
          match Disk.attempt
            (·.rename (d.layout.factFile move.source p) (d.layout.factFile move.target p)) files with
          | (result, files) => (result, { d with files })
        | (.error e, files) => (.error e, { d with files })
      else (.ok (), d) := by
  rw [moveFile, bind_apply]
  show (if d.files.has (d.layout.factFile move.source p) then onDisk _ else pure () : DirectoryM Unit) d = _
  cases d.files.has (d.layout.factFile move.source p) with
  | false => rfl
  | true =>
    rw [if_pos rfl, if_pos rfl, onDisk, bind_apply]
    rcases Disk.makeParent (d.layout.factFile move.target p) d.files with ⟨_ | _, files⟩ <;> rfl

/-- What renaming at the same depth ends with. -/
theorem attempt_rename_cases {t : FileTree} {p q : Path} {src dst : List String} (wf : t.WellFormed)
    (source : t.locate p = .ok src) (target : t.locate q = .ok dst) (there : t.node? src ≠ none)
    (inner : src ≠ []) (depth : src.length = dst.length) :
    Disk.attempt (·.rename p q) t = (.error .file, t) ∨
    (∃ bytes t', Disk.attempt (·.rename p q) t = (.ok (), t') ∧ t.file? src = some bytes ∧
      Changes t [] (Function.update (Function.update t.file? src none) dst (some bytes)) t') ∨
    ∃ t', Disk.attempt (·.rename p q) t = (.ok (), t') ∧ t.node? src = some .dir ∧ t'.WellFormed ∧
      ∀ l, l.length ≤ src.length → t'.file? l = t.file? l := by
  unfold Disk.attempt
  dsimp only
  obtain ⟨n, node⟩ := Option.ne_none_iff_exists'.1 there
  cases n with
  | file bytes =>
    rcases rename_file wf source target node with ⟨-, failed⟩ | ⟨t', renamed, moved⟩
    · rw [failed]
      exact .inl rfl
    · rw [renamed]
      exact .inr (.inl ⟨bytes, t', rfl, file?_eq_some_iff.2 node, moved⟩)
  | dir =>
    cases renamed : t.rename p q with
    | error e => exact .inl rfl
    | ok t' => exact .inr (.inr ⟨t', rfl, node, rename_dir wf source target node depth inner renamed⟩)

/-- **What moving a file does.** Where there is none, nothing. Otherwise it fails and changes no file, or
the file is in the other partition. A directory in the place of the file is moved as well, which changes
no file in a partition. -/
theorem moveFile_cases (wf : d.files.WellFormed) (storable : p.Storable) (move : Relocation) :
    d.files.has (d.layout.factFile move.source p) = false ∧ moveFile move p d = (.ok (), d) ∨
    (∃ e files, moveFile move p d = (.error e, { d with files }) ∧
      Changes d.files (passed [] (d.layout.factFile move.target p).components.dropLast)
        d.files.file? files) ∨
    (∃ bytes files, moveFile move p d = (.ok (), { d with files }) ∧
      d.files.file? (d.layout.shelfLocation (p, move.source)) = some bytes ∧
      d.layout.Present files ∧ d.layout.Fits (Layout.shelfNames (p, move.target)) ∧
      Changes d.files (passed [] (d.layout.factFile move.target p).components.dropLast)
        (Function.update (Function.update d.files.file? (d.layout.shelfLocation (p, move.source)) none)
          (d.layout.shelfLocation (p, move.target)) (some bytes)) files) ∨
    (∃ files, moveFile move p d = (.ok (), { d with files }) ∧
      d.files.node? (d.layout.shelfLocation (p, move.source)) = some .dir ∧ files.WellFormed ∧
      ∀ dir name, files.file? (d.layout.root ++ ["facts", dir, name]) =
        d.files.file? (d.layout.root ++ ["facts", dir, name])) := by
  rw [moveFile_eq]
  cases there : d.files.has (d.layout.factFile move.source p) with
  | false => exact .inl ⟨rfl, if_neg (by simp)⟩
  | true =>
    right
    rw [if_pos rfl]
    obtain ⟨src, source, there⟩ := locate_of_has there
    obtain ⟨rfl, -, -⟩ := of_locate_factFile storable source
    obtain ⟨changes, -⟩ :=
      Disk.makeDirsAlong_spec wf (d.layout.factFile move.target p).components.dropLast
    rcases made : Disk.makeParent (d.layout.factFile move.target p) d.files with ⟨e | _, files⟩
    · rw [show Disk.makeDirsAlong _ d.files = _ from made] at changes
      exact .inl ⟨e, files, rfl, changes⟩
    rw [show Disk.makeDirsAlong _ d.files = _ from made] at changes
    dsimp only at changes ⊢
    have source' := locate_mono changes.kept source
    cases target : files.locate (d.layout.factFile move.target p) with
    | error e =>
      rw [Disk.attempt_rename_lost target]
      exact .inl ⟨.file, files, rfl, changes⟩
    | ok dst =>
      obtain ⟨rfl, present, fits⟩ := of_locate_factFile storable target
      have depth (location : Int32) :
          (d.layout.shelfLocation (p, location)).length = d.layout.root.length + 3 := by
        rw [Layout.shelfLocation, List.length_append]
        rfl
      have stays := changes.node?_eq there
      rcases attempt_rename_cases changes.wellFormed source' target (by rw [stays]; exact there)
          (by simp [Layout.shelfLocation, Layout.shelfNames]) (by rw [depth, depth]) with
        failed | ⟨bytes, files', renamed, file, moved⟩ | ⟨files', renamed, dir, wf', same⟩
      · rw [failed]
        exact .inl ⟨.file, files, rfl, changes⟩
      · rw [renamed]
        have both := changes.trans moved
        rw [changes.files_eq, List.append_nil] at both
        rw [changes.files_eq] at file
        exact .inr (.inl ⟨bytes, files', rfl, file, present.mono moved.kept, fits, both⟩)
      · rw [renamed]
        refine .inr (.inr ⟨files', rfl, stays.symm.trans dir, wf', fun dir name => ?_⟩)
        rw [same _ (by rw [depth, List.length_append]; rfl), changes.files_eq]

/-- Saving the partition table writes it, or fails and changes no file. -/
theorem save_cases {t : FileTree} (wf : t.WellFormed) (m : PartitionMap) (l : Layout) :
    (∃ e files, m.save l t = (.error e, files) ∧
      Changes t (Disk.stagedDirs l.stagingDir l.partitionTable) t.file? files) ∨
    ∃ files, m.save l t = (.ok (), files) ∧ l.Present files ∧ l.Fits ["facts", "_predicates"] ∧
      Changes t (Disk.stagedDirs l.stagingDir l.partitionTable)
        (Function.update t.file? l.tableLocation (some (PartitionTable.write m.entries))) files := by
  rcases Disk.writeStaged_spec wf l.stagingDir l.stagedTable l.partitionTable
      (PartitionTable.write m.entries) with
    ⟨e, files, failed, changes⟩ | ⟨loc, files, found, done, changes⟩
  · exact .inl ⟨e, files, failed, changes⟩
  · rw [Layout.partitionTable_eq] at found
    obtain rfl := Layout.eq_of_locate Layout.plain_table found
    obtain ⟨present, fits⟩ := Layout.of_locate Layout.plain_table (by simp) found
    exact .inr ⟨files, done, present, fits, changes⟩

theorem importBatch_eq (batch : Facts) (d : Directory) :
    importBatch batch d =
      match batch.toList.foldlM importOne {} d with
      | (.error e, d₁) => (.error e, d₁)
      | (.ok done, d₁) =>
        match (d₁.partitions.add done.bySymbol.toList).2.forM relocate
          { d₁ with partitions := (d₁.partitions.add done.bySymbol.toList).1 } with
        | (.error e, d₂) => (.error e, d₂)
        | (.ok (), d₂) =>
          match (d₁.partitions.add done.bySymbol.toList).1.save d₁.layout d₂.files with
          | (.error e, files) => (.error e, { d₂ with files })
          | (.ok (), files) => (.ok done.total, { d₂ with files }) := by
  rw [importBatch, bind_apply]
  rcases batch.toList.foldlM importOne {} d with ⟨_ | done, d₁⟩
  · rfl
  dsimp only
  rw [bind_apply]
  show ((set _ : DirectoryM Unit) >>= _) d₁ = _
  rw [bind_apply]
  show ((d₁.partitions.add done.bySymbol.toList).2.forM relocate >>= _ : DirectoryM Nat) _ = _
  rw [bind_apply]
  rcases (d₁.partitions.add done.bySymbol.toList).2.forM relocate
    { d₁ with partitions := (d₁.partitions.add done.bySymbol.toList).1 } with ⟨_ | _, d₂⟩
  · rfl
  dsimp only
  rw [bind_apply, onDisk]
  rcases (d₁.partitions.add done.bySymbol.toList).1.save d₁.layout d₂.files with ⟨_ | _, files⟩ <;> rfl

/-- An import that was acknowledged did all of its parts. -/
theorem importBatch_ok {batch : Facts} {n : Nat} (h : importBatch batch d = (.ok n, d')) :
    ∃ done d₁ d₂ files, batch.toList.foldlM importOne {} d = (.ok done, d₁) ∧
      (d₁.partitions.add done.bySymbol.toList).2.forM relocate
        { d₁ with partitions := (d₁.partitions.add done.bySymbol.toList).1 } = (.ok (), d₂) ∧
      (d₁.partitions.add done.bySymbol.toList).1.save d₁.layout d₂.files = (.ok (), files) ∧
      n = done.total ∧ d' = { d₂ with files } := by
  rw [importBatch_eq] at h
  rcases inserted : batch.toList.foldlM importOne {} d with ⟨e | done, d₁⟩
  · rw [inserted] at h
    cases h
  rw [inserted] at h
  dsimp only at h
  rcases relocated : (d₁.partitions.add done.bySymbol.toList).2.forM relocate
    { d₁ with partitions := (d₁.partitions.add done.bySymbol.toList).1 } with ⟨e | _, d₂⟩
  · rw [relocated] at h
    cases h
  rw [relocated] at h
  dsimp only at h
  rcases saved : (d₁.partitions.add done.bySymbol.toList).1.save d₁.layout d₂.files with ⟨e | _, files⟩
  · rw [saved] at h
    cases h
  rw [saved] at h
  cases h
  exact ⟨done, d₁, d₂, files, rfl, relocated, saved, rfl, rfl⟩

/-! ### The facts of an import -/

theorem relocate_eq (move : Relocation) (d : Directory) :
    relocate move d =
      (d.facts.predicates.filter fun p => p.symbol = move.symbol).forM (moveFile move) d := by
  rw [relocate, bind_apply]
  rfl

theorem insert_snd (p : Predicate) (r : Relation) (d : Directory) :
    ∃ files, (insert p r d).2 = { d with facts := d.facts.add p r, files } := by
  rw [insert_eq]
  split
  · exact ⟨d.files, rfl⟩
  · have frame : ∃ files, (persist p { d with facts := d.facts.add p r }).2 =
        { d with facts := d.facts.add p r, files } := ⟨_, rfl⟩
    rcases written : persist p { d with facts := d.facts.add p r } with ⟨_ | _, d'⟩
    · rw [written] at frame
      exact frame
    · rw [written] at frame
      exact frame

theorem insert_ok {added : Relation} (h : insert p r d = (.ok added, d')) :
    added = r.diff (d.facts.scan p) ∧ ∃ files, d' = { d with facts := d.facts.add p r, files } := by
  have frame := insert_snd p r d
  rw [h] at frame
  refine ⟨?_, frame⟩
  rw [insert_eq] at h
  split at h
  · cases h
    rfl
  · split at h
    · cases h
      rfl
    · cases h

theorem importOne_eq (done : Imported) (p : Predicate) (r : Relation) (d : Directory) :
    importOne done (p, r) d =
      match insert p r d with
      | (.ok added, d') =>
        (.ok ⟨done.total + added.size,
          done.bySymbol.alter p.symbol fun n => n.getD 0 + Int64.ofNat added.size⟩, d')
      | (.error e, d') => (.error e, d') := by
  rw [importOne, bind_apply]
  rcases insert p r d with ⟨_ | _, d'⟩ <;> rfl

/-- A run of inserts that succeeds begins with one. -/
theorem foldlM_importOne_cons {es : List (Predicate × Relation)} {done done' : Imported}
    (h : ((p, r) :: es).foldlM importOne done d = (.ok done', d')) :
    ∃ added d₁, insert p r d = (.ok added, d₁) ∧
      es.foldlM importOne ⟨done.total + added.size,
        done.bySymbol.alter p.symbol fun n => n.getD 0 + Int64.ofNat added.size⟩ d₁ = (.ok done', d') := by
  rw [List.foldlM_cons] at h
  obtain ⟨done₁, d₁, first, rest⟩ := bind_eq_ok h
  rw [importOne_eq] at first
  rcases inserted : insert p r d with ⟨e | added, d₂⟩
  · rw [inserted] at first
    cases first
  · rw [inserted] at first
    cases first
    exact ⟨added, d₁, rfl, rest⟩

/-- The number of tuples that are new to facts. -/
def newCount (es : List (Predicate × Relation)) (facts : Facts) : Nat :=
  es.foldr (fun e n => (e.2.diff (facts.scan e.1)).size + n) 0

/-- Facts with every relation of a list added to its predicate. -/
def addAll (es : List (Predicate × Relation)) (facts : Facts) : Facts :=
  es.foldl (fun f e => f.add e.1 e.2) facts

theorem newCount_add {es : List (Predicate × Relation)} (other : p ∉ es.map Prod.fst) (facts : Facts) :
    newCount es (facts.add p r) = newCount es facts := by
  induction es with
  | nil => rfl
  | cons e es ih =>
    rw [List.map_cons, List.mem_cons, not_or] at other
    rw [newCount, newCount, List.foldr_cons, List.foldr_cons, Facts.scan_add_of_ne _ _ (Ne.symm other.1)]
    exact congrArg _ (ih other.2)

theorem mem_scan_addAll {es : List (Predicate × Relation)} {facts : Facts} {q : Predicate} {x : Tuple} :
    x ∈ (addAll es facts).scan q ↔ x ∈ facts.scan q ∨ ∃ r, (q, r) ∈ es ∧ x ∈ r := by
  induction es generalizing facts with
  | nil => simp [addAll]
  | cons e es ih =>
    rw [addAll, List.foldl_cons]
    refine (@ih (facts.add e.1 e.2)).trans ?_
    rw [Facts.mem_scan_add, or_assoc]
    refine or_congr Iff.rfl ⟨?_, ?_⟩
    · rintro (⟨rfl, hx⟩ | ⟨r, member, hx⟩)
      · exact ⟨e.2, List.mem_cons_self, hx⟩
      · exact ⟨r, List.mem_cons_of_mem _ member, hx⟩
    · rintro ⟨r, member, hx⟩
      rcases List.mem_cons.1 member with rfl | later
      · exact .inl ⟨rfl, hx⟩
      · exact .inr ⟨r, later, hx⟩

theorem mem_scan_addAll_toList {batch facts : Facts} {q : Predicate} {x : Tuple} :
    x ∈ (addAll batch.toList facts).scan q ↔ x ∈ facts.scan q ∨ x ∈ batch.scan q := by
  rw [mem_scan_addAll]
  refine or_congr Iff.rfl ⟨?_, fun hx => ⟨_, Facts.mem_toList_of_mem_scan hx, hx⟩⟩
  rintro ⟨r, member, hx⟩
  rwa [Facts.scan_of_mem_toList member]

theorem scan_addAll_of_not_mem {es : List (Predicate × Relation)} {q : Predicate}
    (other : q ∉ es.map Prod.fst) (facts : Facts) : (addAll es facts).scan q = facts.scan q := by
  refine SortedSet.ext_mem fun x => ?_
  rw [mem_scan_addAll, or_iff_left]
  rintro ⟨r, member, -⟩
  exact other (List.mem_map.2 ⟨_, member, rfl⟩)

/-- The inserts of an import that all succeed add its facts and count those that are new. -/
theorem foldlM_importOne_ok {es : List (Predicate × Relation)} (distinct : (es.map Prod.fst).Nodup)
    {done done' : Imported} (h : es.foldlM importOne done d = (.ok done', d')) :
    (∃ files, d' = { d with facts := addAll es d.facts, files }) ∧
      done'.total = done.total + newCount es d.facts ∧
      ∀ s ∈ done'.bySymbol.keys, s ∈ done.bySymbol.keys ∨ ∃ e ∈ es, s = e.1.symbol := by
  induction es generalizing d done with
  | nil =>
    cases h
    exact ⟨⟨_, rfl⟩, rfl, fun s hs => .inl hs⟩
  | cons e es ih =>
    obtain ⟨p, r⟩ := e
    rw [List.map_cons, List.nodup_cons] at distinct
    obtain ⟨added, d₁, inserted, rest⟩ := foldlM_importOne_cons h
    obtain ⟨rfl, files, rfl⟩ := insert_ok inserted
    obtain ⟨⟨files', rfl⟩, total, symbols⟩ := ih distinct.2 rest
    refine ⟨⟨files', rfl⟩, ?_, fun s hs => ?_⟩
    · rw [total, newCount_add distinct.1, Nat.add_assoc]
      rfl
    · rcases symbols s hs with old | ⟨e, he, same⟩
      · rcases SortedMap.mem_keys_insert.1 old with rfl | old
        · exact .inr ⟨(p, r), List.mem_cons_self, rfl⟩
        · exact .inl old
      · exact .inr ⟨e, List.mem_cons_of_mem _ he, same⟩

theorem short_of_foldlM_importOne {batch : Facts} (storable : batch.Storable) {done : Imported}
    (h : batch.toList.foldlM importOne {} d = (.ok done, d')) :
    ∀ c ∈ done.bySymbol.toList, (Text.bytes c.1).length < 2 ^ 64 := by
  intro c hc
  obtain ⟨-, -, symbols⟩ := foldlM_importOne_ok batch.nodup_keys h
  rcases symbols c.1 (List.mem_map_of_mem hc) with none | ⟨e, he, same⟩
  · cases none
  · rw [same]
    exact (storable e he).predicate.short

end Directory

end Datalog
