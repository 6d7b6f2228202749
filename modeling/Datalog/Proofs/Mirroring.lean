import Datalog.Proofs.DirectorySteps

/-!
# Files that mirror the facts

As long as inserts and imports succeed, the files of a project mirror the facts: each predicate with a
tuple has one file, in the partition of its symbol, and nothing else is there but the partition table
(`Directory.Mirrors`). A symbol that moves takes the files of all its predicates along. So a store that is
in step with its files opens again as it was (`Directory.Synced.reopen`).
-/

namespace Datalog

open FileTree

/-! ### Tidy projects -/

namespace Layout

variable {l : Layout} {t t' : FileTree}

/-- Among files, only the partition table and what lies in partitions is in the directory of facts. -/
def OnlyFacts (l : Layout) (files : List String → Option (List UInt8)) : Prop :=
  ∀ names, files (l.root ++ "facts" :: names) ≠ none →
    names = ["_predicates"] ∨ ∃ dir name, names = [dir, name]

/-- A project in which nothing lies but its directories, fact files and partition table. -/
structure Tidy (l : Layout) (t : FileTree) : Prop where
  wellFormed : t.WellFormed
  opened : l.Opened t
  clear : l.Clear t
  only : l.OnlyFacts t.file?

/-- Directories that a store makes. -/
def Known (l : Layout) (t : FileTree) (loc : List String) : Prop :=
  t.node? loc = some .dir ∨ loc = l.root ++ ["_tmp"] ∨
    ∃ location : Int32, loc = l.root ++ ["facts", toString location.toInt] ∧
      l.Fits ["facts", toString location.toInt]

theorem Tidy.changes (tidy : l.Tidy t) {dirs : List (List String)}
    {files : List String → Option (List UInt8)} (changes : Changes t dirs files t')
    (known : ∀ loc ∈ dirs, l.Known t loc)
    (only : l.OnlyFacts files) : l.Tidy t' := by
  have old_or_new {loc : List String} (node : t'.node? loc = some .dir) : l.Known t loc :=
    (changes.fresh loc node).elim .inl (known loc)
  refine ⟨changes.wellFormed,
    ⟨tidy.opened.present.mono changes.kept, changes.kept _ tidy.opened.facts, tidy.opened.table⟩,
    ⟨fun node => ?_, fun dir partition node => ?_, fun dir name p partition parsed node => ?_⟩, ?_⟩
  · rcases old_or_new node with old | same | ⟨location, same, -⟩
    · exact tidy.clear.table old
    · simpa using List.append_cancel_left same
    · have names := List.append_cancel_left same
      have partition := Directory.isPartitionName_toString location
      rw [← (List.cons.inj (List.cons.inj names).2).1] at partition
      exact absurd partition (by decide)
  · rcases old_or_new node with old | same | ⟨location, same, fits⟩
    · exact tidy.clear.fits dir partition old
    · simpa using List.append_cancel_left same
    · have names := List.append_cancel_left same
      rw [names]
      exact fits
  · rcases old_or_new node with old | same | ⟨location, same, -⟩
    · exact tidy.clear.files dir name p partition parsed old
    · simpa using List.append_cancel_left same
    · simpa using List.append_cancel_left same
  · rw [changes.files_eq]
    exact only

/-- The directories on the way to a name within a project that is there. -/
theorem mem_passed_of_present (present : l.Present t) {names : List String} {loc : List String}
    (h : loc ∈ passed [] (l.project.components ++ names)) :
    t.node? loc = some .dir ∨ loc ∈ passed l.root names := by
  rw [passed_append] at h
  rcases List.mem_append.1 h with before | within
  · exact .inl ((of_walk present.walk).2.2 loc before)
  · exact .inr within

theorem known_of_mem_staging (present : l.Present t) {loc : List String}
    (h : loc ∈ passed [] l.stagingDir.components) : l.Known t loc := by
  have plain : ∀ name ∈ ["_tmp"], Path.PlainName name := by
    rw [List.forall_mem_singleton]
    exact ⟨by decide, by decide, by decide, by decide, by decide⟩
  rw [stagingDir, Path.components_append plain] at h
  rcases mem_passed_of_present present h with old | new
  · exact .inl old
  · rw [passed, passed, List.mem_singleton, next_of_plain (plain _ List.mem_cons_self)] at new
    exact .inr (.inl new)

theorem Tidy.known_of_mem_facts (tidy : l.Tidy t) {names : List String} {loc : List String}
    (h : loc ∈ passed [] (l.project.components ++ "facts" :: names)) :
    l.Known t loc ∨ loc ∈ passed (l.root ++ ["facts"]) names := by
  rcases mem_passed_of_present tidy.opened.present h with old | new
  · exact .inl (.inl old)
  · rw [passed, next_of_plain (plain_facts _ List.mem_cons_self)] at new
    rcases List.mem_cons.1 new with rfl | below
    · exact .inl (.inl tidy.opened.facts)
    · exact .inr below

theorem Tidy.known_of_mem_table (tidy : l.Tidy t) {loc : List String}
    (h : loc ∈ passed [] l.partitionTable.components.dropLast) : l.Known t loc := by
  rw [partitionTable_eq, Path.components_append plain_table, List.append_cons, List.dropLast_concat] at h
  rcases tidy.known_of_mem_facts h with known | none
  · exact known
  · cases none

/-- Making a partition that has a path. -/
theorem Tidy.known_of_mem_partition (tidy : l.Tidy t) {p : Predicate} (storable : p.Storable)
    {location : Int32} (fits : l.Fits (shelfNames (p, location))) {loc : List String}
    (h : loc ∈ passed [] (l.factFile location p).components.dropLast) : l.Known t loc := by
  have partition := Directory.isPartitionName_toString location
  have dir : l.Fits ["facts", toString location.toInt] :=
    Fits.of_append (show l.Fits (["facts", toString location.toInt] ++ [factFileName p]) from fits)
  rw [factFile_eq, Path.components_append (plain_within partition (plain_factFileName storable)),
    List.append_cons, List.append_cons, List.dropLast_concat, List.append_assoc] at h
  rcases tidy.known_of_mem_facts h with known | within
  · exact known
  · replace within : loc ∈ [next (l.root ++ ["facts"]) (toString location.toInt)] := within
    rw [List.mem_singleton, next_of_plain (Directory.plain_of_isPartitionName partition),
      List.append_assoc] at within
    exact .inr (.inr ⟨location, within, dir⟩)

theorem OnlyFacts.update {files : List String → Option (List UInt8)} (only : l.OnlyFacts files)
    (k : Predicate × Int32) (bytes : Option (List UInt8)) :
    l.OnlyFacts (Function.update files (l.shelfLocation k) bytes) := by
  intro names there
  by_cases here : l.root ++ "facts" :: names = l.shelfLocation k
  · have same := List.append_cancel_left here
    rw [shelfNames, List.cons.injEq] at same
    exact .inr ⟨_, _, same.2⟩
  · rw [Function.update_of_ne here] at there
    exact only names there

theorem tableLocation_ne_shelfLocation (k : Predicate × Int32) : l.tableLocation ≠ l.shelfLocation k := by
  intro same
  simpa [shelfNames] using List.append_cancel_left same

end Layout

/-! ### Mirrors -/

namespace Directory

variable {d d' : Directory} {p : Predicate} {r : Relation} {facts facts' : Facts}
  {place place' : Predicate → Int32}

/-- The shelf on which each predicate with a tuple has one file, which holds all of its tuples. -/
def shelfAt (facts : Facts) (place : Predicate → Int32) : Shelf := fun k =>
  if k.2 = place k.1 ∧ (facts.scan k.1).isEmpty = false then some (facts.scan k.1) else none

theorem shelfAt_congr (scan : ∀ q, facts'.scan q = facts.scan q)
    (same : ∀ q, (facts.scan q).isEmpty = false → place' q = place q) :
    shelfAt facts' place' = shelfAt facts place := by
  funext k
  unfold shelfAt
  rw [scan]
  by_cases some_tuple : (facts.scan k.1).isEmpty = false
  · rw [same _ some_tuple]
  · rw [if_neg fun h => some_tuple h.2, if_neg fun h => some_tuple h.2]

theorem has_shelfAt (facts : Facts) (place : Predicate → Int32) (p : Predicate) (x : Tuple) :
    (shelfAt facts place).Has p x ↔ x ∈ facts.scan p := by
  constructor
  · rintro ⟨location, r, on_shelf, hx⟩
    unfold shelfAt at on_shelf
    split at on_shelf
    · cases on_shelf
      exact hx
    · cases on_shelf
  · intro hx
    exact ⟨place p, facts.scan p, if_pos ⟨rfl, SortedSet.isEmpty_eq_false_iff.2 ⟨x, hx⟩⟩, hx⟩

theorem update_shelfAt (others : ∀ q ≠ p, facts'.scan q = facts.scan q)
    (some_tuple : (facts'.scan p).isEmpty = false) :
    Function.update (shelfAt facts place) (p, place p) (some (facts'.scan p)) = shelfAt facts' place := by
  funext ⟨q, location⟩
  by_cases same : q = p
  · subst same
    by_cases here : location = place q
    · rw [here, Function.update_self, shelfAt, if_pos ⟨rfl, some_tuple⟩]
    · rw [Function.update_of_ne fun h => here (Prod.mk.inj h).2, shelfAt, shelfAt, if_neg fun h => here h.1,
        if_neg fun h => here h.1]
  · rw [Function.update_of_ne fun h => same (Prod.mk.inj h).1, shelfAt, shelfAt]
    dsimp only
    rw [others q same]

/-- The partition of the symbol of a predicate. -/
def home (d : Directory) (p : Predicate) : Int32 := d.partitions.locationOf p.symbol

/-- The files of a store mirror its facts: each predicate with a tuple has one file, and nothing else is
there. -/
structure Mirrors (d : Directory) (place : Predicate → Int32) : Prop where
  tidy : d.layout.Tidy d.files
  holds : d.layout.Holds d.files.file? (shelfAt d.facts place)
  listed : ∀ p ∈ d.facts.predicates, p.Storable

theorem Mirrors.tuples (mirrors : d.Mirrors place) : ∀ x ∈ d.facts.scan p, FactRecord.Storable p x := by
  intro x hx
  obtain ⟨location, r, on_shelf, hx'⟩ := (has_shelfAt d.facts place p x).2 hx
  exact (mirrors.holds.storable _ r on_shelf).2 x hx'

/-- Inserting keeps the mirror, and the table as it is. -/
theorem Mirrors.insert (mirrors : d.Mirrors d.home) (storable : r.StorableFor p) {added : Relation}
    (h : Directory.insert p r d = (.ok added, d')) :
    d'.Mirrors d'.home ∧ d'.files.file? d.layout.tableLocation = d.files.file? d.layout.tableLocation := by
  have listed : ∀ q ∈ (d.facts.add p r).predicates, q.Storable := storable.listed_add mirrors.listed
  rcases insert_cases mirrors.tidy.wellFormed storable.predicate r with
    ⟨none, done⟩ | ⟨some_new, ⟨e, files, failed, -⟩ | ⟨files, done, -, fits, changes⟩⟩
  · rw [done] at h
    cases h
    have same (q : Predicate) : (d.facts.add p r).scan q = d.facts.scan q := by
      refine SortedSet.ext_mem fun x => ?_
      rw [Facts.mem_scan_add]
      refine ⟨fun h => h.elim id ?_, .inl⟩
      rintro ⟨rfl, hx⟩
      by_contra new
      exact SortedSet.isEmpty_iff.1 none x (SortedSet.mem_diff.2 ⟨hx, new⟩)
    refine ⟨⟨mirrors.tidy, ?_, listed⟩, rfl⟩
    rw [shelfAt_congr same fun _ _ => rfl]
    exact mirrors.holds
  · rw [failed] at h
    cases h
  · rw [done] at h
    cases h
    have some_tuple : ((d.facts.add p r).scan p).isEmpty = false := by
      obtain ⟨x, hx⟩ := SortedSet.isEmpty_eq_false_iff.1 some_new
      refine SortedSet.isEmpty_eq_false_iff.2 ⟨x, Facts.mem_scan_add.2 (.inr ⟨rfl, ?_⟩)⟩
      exact (SortedSet.mem_diff.1 hx).1
    refine ⟨⟨mirrors.tidy.changes changes (fun loc hloc => ?_) (mirrors.tidy.only.update _ _), ?_, listed⟩, ?_⟩
    · rcases List.mem_append.1 hloc with staging | partition
      · exact Layout.known_of_mem_staging mirrors.tidy.opened.present staging
      · exact mirrors.tidy.known_of_mem_partition storable.predicate fits partition
    · rw [changes.files_eq]
      have put := mirrors.holds.put (k := (p, d.home p)) storable.predicate fits
        (storable.tuples_add mirrors.tuples)
      rwa [update_shelfAt (fun q other => Facts.scan_add_of_ne _ _ other) some_tuple] at put
    · rw [changes.files_eq, Function.update_of_ne (Layout.tableLocation_ne_shelfLocation _)]

/-! ### Relocations -/

theorem Mirrors.congr (mirrors : d.Mirrors place)
    (same : ∀ q, (d.facts.scan q).isEmpty = false → place' q = place q) : d.Mirrors place' := by
  refine ⟨mirrors.tidy, ?_, mirrors.listed⟩
  rw [shelfAt_congr (fun _ => rfl) same]
  exact mirrors.holds

theorem shift_shelfAt (some_tuple : (facts.scan p).isEmpty = false) (others : ∀ q ≠ p, place' q = place q) :
    (shelfAt facts place).shift p (place p) (place' p) (facts.scan p) = shelfAt facts place' := by
  funext ⟨q, location⟩
  by_cases same : q = p
  · subst same
    by_cases here : location = place' q
    · rw [here, Shelf.shift_target, shelfAt, if_pos ⟨rfl, some_tuple⟩]
    · rw [show shelfAt facts place' (q, location) = none from if_neg fun h => here h.1]
      by_contra there
      refine here (Shelf.eq_target_of_shift (fun location' on_shelf => ?_) there)
      by_contra left
      exact on_shelf (if_neg fun h => left h.1)
  · rw [Shelf.shift_of_ne _ _ _ _ same, shelfAt, shelfAt]
    dsimp only
    rw [others q same]

/-- A store whose files were moved to other places, and that is a mirror again. -/
structure Relocated (d d' : Directory) (place' : Predicate → Int32) : Prop where
  frame : ∃ files, d' = { d with files }
  mirrors : d'.Mirrors place'

/-- The places of certain predicates change from one partition to another, and no others. -/
structure Leads (who : Predicate → Prop) (source target : Int32) (place place' : Predicate → Int32) :
    Prop where
  source : ∀ q, who q → place q = source
  target : ∀ q, who q → place' q = target
  others : ∀ q, ¬who q → place' q = place q

theorem Mirrors.moveFile (mirrors : d.Mirrors place) (listed : p ∈ d.facts.predicates) {move : Relocation}
    (leads : Leads (· = p) move.source move.target place place')
    (h : Directory.moveFile move p d = (.ok (), d')) : Relocated d d' place' := by
  have storable := mirrors.listed p listed
  have at_source := leads.source p rfl
  have at_target := leads.target p rfl
  have wf := mirrors.tidy.wellFormed
  rcases moveFile_cases wf storable move with
    ⟨none, done⟩ | ⟨e, files, failed, -⟩ | ⟨bytes, files, done, file, -, fits, changes⟩ |
      ⟨files, -, dir, -⟩
  · rw [done] at h
    cases h
    refine ⟨⟨d.files, rfl⟩, mirrors.congr fun q some_tuple => leads.others q ?_⟩
    -- A predicate with a tuple has a file, so it cannot be the one without.
    rintro rfl
    have on_shelf : shelfAt d.facts place (q, move.source) = some (d.facts.scan q) :=
      if_pos ⟨at_source.symm, some_tuple⟩
    have found := mirrors.holds.locate_factFile wf mirrors.tidy.opened.present on_shelf
    have there : d.files.has (d.layout.factFile move.source q) = true := by
      rw [has, find_eq found, file?_eq_some_iff.1 (mirrors.holds.file _ _ on_shelf)]
      rfl
    rw [there] at none
    cases none
  · rw [failed] at h
    cases h
  · rw [done] at h
    cases h
    obtain ⟨r, on_shelf⟩ := mirrors.holds.of_file storable file
    have written := mirrors.holds.file _ r on_shelf
    have shelved := on_shelf
    unfold shelfAt at shelved
    split at shelved
    · next some_tuple =>
      cases shelved
      rw [written] at file
      cases file
      refine ⟨⟨files, rfl⟩, ⟨mirrors.tidy.changes changes (fun loc hloc => ?_)
        ((mirrors.tidy.only.update _ _).update _ _), ?_, mirrors.listed⟩⟩
      · exact mirrors.tidy.known_of_mem_partition storable fits hloc
      · rw [changes.files_eq, ← shift_shelfAt some_tuple.2 leads.others, at_source, at_target]
        exact mirrors.holds.shift on_shelf fits
    · cases shelved
  · exact absurd dir (mirrors.tidy.clear.files _ _ p (isPartitionName_toString _)
      (Layout.parseFactFileName?_factFileName storable.ne_empty storable.arity))

/-- A run of moves of different predicates. -/
theorem Relocated.forM {α : Type} {f : α → DirectoryM Unit} (who : α → Predicate → Prop)
    (source target : α → Int32) {xs : List α} (apart : xs.Pairwise fun a b => ∀ q, who a q → ¬who b q)
    (mirrors : d.Mirrors place)
    (step : ∀ a ∈ xs, ∀ files place place' d', Mirrors { d with files } place →
      Leads (who a) (source a) (target a) place place' → f a { d with files } = (.ok (), d') →
        Relocated { d with files } d' place')
    (sources : ∀ a ∈ xs, ∀ q, who a q → place q = source a)
    (targets : ∀ a ∈ xs, ∀ q, who a q → place' q = target a)
    (others : ∀ q, (∀ a ∈ xs, ¬who a q) → place' q = place q) (h : xs.forM f d = (.ok (), d')) :
    Relocated d d' place' := by
  classical
  induction xs generalizing d place with
  | nil =>
    cases h
    exact ⟨⟨_, rfl⟩, mirrors.congr fun q _ => others q nofun⟩
  | cons a xs ih =>
    obtain ⟨before, apart⟩ := List.pairwise_cons.1 apart
    obtain ⟨first, rest⟩ := List.forall_mem_cons.1 step
    obtain ⟨source_here, sources⟩ := List.forall_mem_cons.1 sources
    obtain ⟨target_here, targets⟩ := List.forall_mem_cons.1 targets
    rw [show (a :: xs).forM f = f a >>= fun _ => xs.forM f from rfl] at h
    obtain ⟨_, d₁, moved, h⟩ := bind_eq_ok h
    -- In between, the predicates that are still to be moved are where they were.
    let between (q : Predicate) : Int32 := if ∃ b ∈ xs, who b q then place q else place' q
    have leads : Leads (who a) (source a) (target a) place between := by
      refine ⟨source_here, fun q hq => ?_, fun q hq => ?_⟩
      · exact (if_neg fun ⟨b, hb, hq'⟩ => before b hb q hq hq').trans (target_here q hq)
      · by_cases later : ∃ b ∈ xs, who b q
        · exact if_pos later
        · refine (if_neg later).trans (others q (List.forall_mem_cons.2 ⟨hq, fun b hb hq' => ?_⟩))
          exact later ⟨b, hb, hq'⟩
    have relocated := first d.files place between d₁ mirrors leads moved
    obtain ⟨files, rfl⟩ := relocated.frame
    have finished := ih apart relocated.mirrors rest
      (fun b hb q hq => (if_pos ⟨b, hb, hq⟩).trans (sources b hb q hq)) targets
      (fun q none => (if_neg fun ⟨b, hb, hq⟩ => none b hb hq).symm) h
    obtain ⟨files', rfl⟩ := finished.frame
    exact ⟨⟨files', rfl⟩, finished.mirrors⟩

theorem Mirrors.relocate (mirrors : d.Mirrors place) {move : Relocation}
    (leads : Leads (fun q => q.symbol = move.symbol) move.source move.target place place')
    (h : Directory.relocate move d = (.ok (), d')) : Relocated d d' place' := by
  have named {q : Predicate} : q ∈ d.facts.predicates.filter (fun p => p.symbol = move.symbol) ↔
      q ∈ d.facts.predicates ∧ q.symbol = move.symbol := by simp
  have distinct : (d.facts.predicates.filter fun p => p.symbol = move.symbol).Nodup :=
    d.facts.nodup_keys.filter _
  let moved (q : Predicate) : Int32 :=
    if q ∈ d.facts.predicates.filter (fun p => p.symbol = move.symbol) then move.target else place q
  rw [relocate_eq] at h
  have relocated : Relocated d d' moved := by
    refine Relocated.forM (fun p q => q = p) (fun _ => move.source) (fun _ => move.target)
      (distinct.imp fun apart q first second => apart (first.symm.trans second)) mirrors ?_ ?_ ?_ ?_ h
    · exact fun p hp files place place' d' mirrors leads => mirrors.moveFile (named.1 hp).1 leads
    · rintro p hp q rfl
      exact leads.source q (named.1 hp).2
    · rintro p hp q rfl
      exact if_pos hp
    · exact fun q none => if_neg fun hq => none q hq rfl
  obtain ⟨files, rfl⟩ := relocated.frame
  -- A predicate that is not listed was not moved. It has no tuple, hence no file and any place.
  refine ⟨⟨files, rfl⟩, relocated.mirrors.congr fun q some_tuple => ?_⟩
  have listed : q ∈ d.facts.predicates := by
    obtain ⟨x, hx⟩ := SortedSet.isEmpty_eq_false_iff.1 some_tuple
    exact Facts.mem_predicates_of_mem_scan hx
  by_cases same : q.symbol = move.symbol
  · rw [leads.target q same]
    exact (if_pos (named.2 ⟨listed, same⟩)).symm
  · rw [leads.others q same]
    exact (if_neg fun hq => same (named.1 hq).2).symm

/-- Counting new facts moves files to the partitions of their symbols. -/
theorem Mirrors.relocations (mirrors : d.Mirrors d.home) {counts : List (String × Int64)}
    (distinct : (counts.map Prod.fst).Nodup)
    (h : (d.partitions.add counts).2.forM Directory.relocate
      { d with partitions := (d.partitions.add counts).1 } = (.ok (), d')) :
    Relocated { d with partitions := (d.partitions.add counts).1 } d' d'.home := by
  obtain ⟨moved, -⟩ := PartitionMap.moved_add distinct d.partitions
  have relocated : Relocated { d with partitions := (d.partitions.add counts).1 } d'
      fun q => (d.partitions.add counts).1.locationOf q.symbol := by
    refine Relocated.forM (fun move q => q.symbol = move.symbol) Relocation.source Relocation.target
      ((List.pairwise_map.1 moved.distinct).imp fun apart q first second =>
        apart (first.symm.trans second)) ⟨mirrors.tidy, mirrors.holds, mirrors.listed⟩ ?_ ?_ ?_ ?_ h
    · exact fun move _ files place place' d' mirrors leads => mirrors.relocate leads
    · intro move hmove q same
      rw [(moved.ends move hmove).1, ← same]
      rfl
    · intro move hmove q same
      rw [(moved.ends move hmove).2, ← same]
    · intro q none
      refine moved.others _ fun hq => ?_
      obtain ⟨move, hmove, same⟩ := List.mem_map.1 hq
      exact none move hmove same.symm
  obtain ⟨files, rfl⟩ := relocated.frame
  exact relocated

/-! ### Stores that can be opened again -/

theorem Mirrors.importOnes {es : List (Predicate × Relation)} (storable : ∀ e ∈ es, e.2.StorableFor e.1)
    (mirrors : d.Mirrors d.home) {done done' : Imported}
    (h : es.foldlM importOne done d = (.ok done', d')) : d'.Mirrors d'.home := by
  induction es generalizing d done with
  | nil =>
    cases h
    exact mirrors
  | cons e es ih =>
    obtain ⟨here, later⟩ := List.forall_mem_cons.1 storable
    obtain ⟨added, d₁, inserted, rest⟩ := foldlM_importOne_cons h
    exact ih later (mirrors.insert here inserted).1 rest

theorem Mirrors.save (mirrors : d.Mirrors d.home) {files : FileTree}
    (h : d.partitions.save d.layout d.files = (.ok (), files)) :
    Mirrors { d with files } d.home ∧
      files.file? d.layout.tableLocation = some (PartitionTable.write d.partitions.entries) := by
  rcases save_cases mirrors.tidy.wellFormed d.partitions d.layout with
    ⟨e, files', failed, -⟩ | ⟨files', done, -, -, changes⟩
  · rw [failed] at h
    cases h
  rw [done] at h
  cases h
  refine ⟨⟨mirrors.tidy.changes changes (fun loc hloc => ?_) fun names there => ?_, ?_, mirrors.listed⟩, ?_⟩
  · rcases List.mem_append.1 hloc with staging | table
    · exact Layout.known_of_mem_staging mirrors.tidy.opened.present staging
    · exact mirrors.tidy.known_of_mem_table table
  · by_cases here : d.layout.root ++ "facts" :: names = d.layout.tableLocation
    · exact .inl (List.cons.inj (List.append_cancel_left here)).2
    · rw [Function.update_of_ne here] at there
      exact mirrors.tidy.only names there
  · rw [changes.files_eq]
    refine mirrors.holds.congr fun dir name => Function.update_of_ne (fun same => ?_) ..
    simpa using List.append_cancel_left same
  · rw [changes.files_eq, Function.update_self]

/-- A store whose files mirror it, with its partition table. -/
structure Synced (d : Directory) : Prop where
  mirrors : d.Mirrors d.home
  table : d.files.file? d.layout.tableLocation = none ∧ d.partitions.entries = [] ∨
    d.files.file? d.layout.tableLocation = some (PartitionTable.write d.partitions.entries)
  short : ∀ e ∈ d.partitions.entries, (Text.bytes e.symbol).length < 2 ^ 64

namespace Synced

theorem of_fresh {l : Layout} {t t' : FileTree} {blockSize : Int64} (fresh : l.Fresh t)
    (h : openFrom l blockSize t = (.ok d, t')) : d.layout = l ∧ d.facts = ∅ ∧ d.Synced := by
  obtain ⟨rfl, partitions, facts, rfl, wf, opened, clear, no_file⟩ := of_openFrom_fresh fresh h
  have nothing : shelfAt d.facts d.home = fun _ => none := by
    rw [facts]
    exact funext fun k => if_neg fun h => absurd (show (∅ : Relation).isEmpty = false from h.2) (by decide)
  refine ⟨rfl, facts, ⟨⟨wf, opened, clear, fun names there => ?_⟩, ?_, ?_⟩, ?_, ?_⟩
  · exact absurd (no_file _ (by simp)) there
  · rw [nothing]
    exact ⟨nofun, fun dir name there => absurd (no_file _ (by simp)) there,
      fun k there => absurd rfl there, nofun⟩
  · rw [facts]
    exact nofun
  · rw [partitions]
    exact .inl ⟨no_file _ (by simp), rfl⟩
  · rw [partitions]
    exact nofun

theorem insert (synced : d.Synced) (storable : r.StorableFor p) {added : Relation}
    (h : Directory.insert p r d = (.ok added, d')) : d'.Synced := by
  obtain ⟨mirrors, table⟩ := synced.mirrors.insert storable h
  obtain ⟨-, files, rfl⟩ := insert_ok h
  refine ⟨mirrors, ?_, synced.short⟩
  rw [show FileTree.file? _ d.layout.tableLocation = _ from table]
  exact synced.table

theorem importBatch (synced : d.Synced) {batch : Facts} (storable : batch.Storable) {n : Nat}
    (h : Directory.importBatch batch d = (.ok n, d')) :
    d'.Synced ∧ d'.layout = d.layout ∧ d'.facts = addAll batch.toList d.facts ∧
      n = newCount batch.toList d.facts := by
  obtain ⟨done, d₁, d₂, files, inserted, relocated, saved, rfl, rfl⟩ := importBatch_ok h
  have mirrors₁ := synced.mirrors.importOnes storable inserted
  have short := short_of_foldlM_importOne storable inserted
  obtain ⟨⟨files₁, rfl⟩, total, -⟩ := foldlM_importOne_ok batch.nodup_keys inserted
  have relocated₂ := mirrors₁.relocations done.bySymbol.nodup_keys relocated
  have mirrors₂ := relocated₂.mirrors
  obtain ⟨files₂, rfl⟩ := relocated₂.frame
  obtain ⟨mirrors, table⟩ := mirrors₂.save saved
  refine ⟨⟨mirrors, .inr table, ?_⟩, rfl, rfl, total.trans (Nat.zero_add _)⟩
  exact PartitionMap.forall_symbol_add (P := fun s => (Text.bytes s).length < 2 ^ 64) synced.short short

/-- **A store that is in step with its files opens again as it was.** -/
theorem reopen (synced : d.Synced) (blockSize : Int64) :
    ∃ d', openFrom d.layout blockSize d.files = (.ok d', d.files) ∧ d'.Synced ∧ d'.layout = d.layout ∧
      d'.files = d.files ∧ d'.partitions.entries = d.partitions.entries ∧
      ∀ p, d'.facts.scan p = d.facts.scan p := by
  obtain ⟨mirrors, saved, short⟩ := synced
  have tidy := mirrors.tidy
  have table : PartitionMap.readTable d.layout d.files = (.ok d.partitions.entries, d.files) := by
    rcases saved with ⟨none, empty⟩ | file
    · rw [tidy.opened.readTable_eq tidy.wellFormed]
      cases node : d.files.node? d.layout.tableLocation with
      | none => rw [empty]
      | some n =>
        cases n with
        | dir => exact absurd node tidy.clear.table
        | file bytes =>
          rw [file?_eq_some_iff.2 node] at none
          cases none
    · exact tidy.opened.readTable_of_file tidy.wellFormed file short
  obtain ⟨facts, reopened, found, listed⟩ := openFrom_of_holds mirrors.holds tidy.wellFormed tidy.opened
    tidy.clear table blockSize
  have same (p : Predicate) : facts.scan p = d.facts.scan p :=
    SortedSet.ext_mem fun x => (found p x).trans (has_shelfAt _ _ p x)
  refine ⟨_, reopened, ⟨⟨tidy, ?_, listed⟩, saved, short⟩, rfl, rfl, rfl, same⟩
  rw [shelfAt_congr same fun _ _ => rfl]
  exact mirrors.holds

end Synced

/-- A predicate has one file. It is where the layout says, its lines decode to the relation, and nowhere in
the directory of facts is another file whose name is that of a file of the predicate. -/
structure OneFile (d : Directory) (p : Predicate) : Prop where
  located : d.files.locate (d.factFile p) = .ok (d.layout.shelfLocation (p, d.home p))
  lines : ∃ bytes, d.files.read (d.factFile p) = .ok bytes ∧
    FactFile.readLines p (FactFile.lines bytes) = .ok (d.facts.scan p).toList
  only : ∀ names name, d.files.file? (d.layout.root ++ "facts" :: (names ++ [name])) ≠ none →
    Layout.parseFactFileName? name = some p →
      d.layout.root ++ "facts" :: (names ++ [name]) = d.layout.shelfLocation (p, d.home p)

theorem Mirrors.oneFile (mirrors : d.Mirrors d.home) (some_tuple : (d.facts.scan p).isEmpty = false) :
    d.OneFile p := by
  have tidy := mirrors.tidy
  have on_shelf : shelfAt d.facts d.home (p, d.home p) = some (d.facts.scan p) :=
    if_pos ⟨rfl, some_tuple⟩
  have present := tidy.opened.present
  refine ⟨mirrors.holds.locate_factFile tidy.wellFormed present on_shelf,
    ⟨_, mirrors.holds.read_factFile tidy.wellFormed present on_shelf, ?_⟩, fun names name there parsed => ?_⟩
  · exact FactFile.readLines_write mirrors.tuples
  · rcases tidy.only _ there with table | ⟨dir, name', within⟩
    · have last : name = "_predicates" := by
        have ends := congrArg List.getLast? table
        rw [List.getLast?_concat] at ends
        exact Option.some.inj ends
      have unnamed : Layout.parseFactFileName? "_predicates" = none := by decide
      rw [last, unnamed] at parsed
      cases parsed
    · rw [within] at there ⊢
      have last : name = name' := by
        have ends := congrArg List.getLast? within
        rw [List.getLast?_concat] at ends
        exact Option.some.inj ends
      obtain ⟨k, somewhere, same⟩ := mirrors.holds.only dir name' there
      have storable := mirrors.holds.storable_of_ne_none somewhere
      have names := List.append_cancel_left same
      simp only [Layout.shelfNames, List.cons.injEq, true_and, and_true] at names
      rw [last, names.2, Layout.parseFactFileName?_factFileName storable.ne_empty storable.arity] at parsed
      cases parsed
      have home : k.2 = d.home k.1 := by
        by_contra elsewhere
        exact somewhere (if_neg fun h => elsewhere h.1)
      rw [same, ← home]

end Directory

end Datalog
