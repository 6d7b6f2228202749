import Datalog.Proofs.DirectorySteps

/-!
# What an acknowledged import leaves on disk

A store that was opened where nothing was takes facts while others put things in its way and remove them
again, so writes fail and are tried again (`Directory.Reached`). What stays true of it is `Directory.Sound`:
its files have facts that it has, though not all of them. An import that succeeds writes the files of the
predicates that get new tuples, and moves files without changing what they have. So what it acknowledges is
there for the next opening in the cases of `Directory.durable_iff_of_acknowledged`, and in no others.
-/

namespace Datalog

open FileTree

namespace Directory

variable {d d' : Directory} {V V' : Shelf} {p : Predicate} {r : Relation}

/-- What is known of a store whatever happened to it: its files hold facts that it has, and they lie in
the shared partition or in that of their symbol. -/
structure Sound (d : Directory) (V : Shelf) : Prop where
  wellFormed : d.files.WellFormed
  holds : d.layout.Holds d.files.file? V
  known : ∀ k r, V k = some r → ∀ x ∈ r, x ∈ d.facts.scan k.1
  placed : ∀ k, V k ≠ none →
    k.2 = PartitionMap.sharedLocation ∨ k.2 = d.partitions.locationOf k.1.symbol
  listed : ∀ p ∈ d.facts.predicates, p.Storable
  tuples : ∀ p, ∀ x ∈ d.facts.scan p, FactRecord.Storable p x
  short : ∀ e ∈ d.partitions.entries, (Text.bytes e.symbol).length < 2 ^ 64

namespace Sound

theorem add (sound : d.Sound V) (storable : r.StorableFor p) :
    Sound { d with facts := d.facts.add p r } V := by
  refine ⟨sound.wellFormed, sound.holds, fun k r' on_shelf x hx => ?_, sound.placed,
    storable.listed_add sound.listed, fun q => storable.tuples_add (sound.tuples q), sound.short⟩
  exact Facts.mem_scan_add.2 (.inl (sound.known k r' on_shelf x hx))

/-- Nothing matters but the files in the partitions. -/
theorem touch (sound : d.Sound V) {files : FileTree} (wf : files.WellFormed)
    (same : ∀ dir name, files.file? (d.layout.root ++ ["facts", dir, name]) =
      d.files.file? (d.layout.root ++ ["facts", dir, name])) : Sound { d with files } V :=
  ⟨wf, sound.holds.congr same, sound.known, sound.placed, sound.listed, sound.tuples, sound.short⟩

theorem of_changes (sound : d.Sound V) {files : FileTree} {dirs : List (List String)}
    (changes : Changes d.files dirs d.files.file? files) : Sound { d with files } V :=
  sound.touch changes.wellFormed fun dir name => by rw [changes.files_eq]

/-- **Inserting keeps a store sound.** The shelf changes exactly when tuples are new and the write
succeeds, and then it has all facts of the predicate. -/
theorem insert (sound : d.Sound V) (storable : r.StorableFor p) :
    ∃ V', (Directory.insert p r d).2.Sound V' ∧
      ((r.diff (d.facts.scan p)).isEmpty = true ∧ V' = V ∨
        (r.diff (d.facts.scan p)).isEmpty = false ∧
          ((∃ e, (Directory.insert p r d).1 = .error e) ∧ V' = V ∨
            V' = Function.update V (p, d.partitions.locationOf p.symbol)
              (some ((d.facts.add p r).scan p)))) := by
  have added := sound.add storable
  rcases insert_cases sound.wellFormed storable.predicate r with
    ⟨none, done⟩ | ⟨some_new, ⟨e, files, failed, changes⟩ | ⟨files, done, -, fits, changes⟩⟩
  · rw [done]
    exact ⟨V, added, .inl ⟨none, rfl⟩⟩
  · rw [failed]
    exact ⟨V, added.of_changes changes, .inr ⟨some_new, .inl ⟨⟨e, rfl⟩, rfl⟩⟩⟩
  · rw [done]
    refine ⟨_, ⟨changes.wellFormed, ?_, ?_, ?_, added.listed, added.tuples, added.short⟩,
      .inr ⟨some_new, .inr rfl⟩⟩
    · rw [changes.files_eq]
      exact sound.holds.put (k := (p, _)) storable.predicate fits (added.tuples p)
    · intro k r' on_shelf x hx
      by_cases here : k = (p, d.partitions.locationOf p.symbol)
      · rw [here, Function.update_self] at on_shelf
        cases on_shelf
        rw [here]
        exact hx
      · rw [Function.update_of_ne here] at on_shelf
        exact added.known k r' on_shelf x hx
    · intro k on_shelf
      by_cases here : k = (p, d.partitions.locationOf p.symbol)
      · rw [here]
        exact .inr rfl
      · rw [Function.update_of_ne here] at on_shelf
        exact added.placed k on_shelf

end Sound

/-! ### Relocations -/

/-- A store whose files were moved between partitions. It has the same facts and partitions, and its
shelf has the same facts; only the files of certain predicates moved. -/
structure Shifted (d : Directory) (V : Shelf) (who : Predicate → Prop) (d' : Directory) (V' : Shelf) :
    Prop where
  sound : d'.Sound V'
  frame : ∃ files, d' = { d with files }
  has_iff : ∀ q x, V'.Has q x ↔ V.Has q x
  others : ∀ q, ¬who q → ∀ location, V' (q, location) = V (q, location)

/-- The files of certain predicates are all in one partition. -/
def Pending (V : Shelf) (who : Predicate → Prop) (source : Int32) : Prop :=
  ∀ q, who q → ∀ location, V (q, location) ≠ none → location = source

theorem Shifted.refl (sound : d.Sound V) (who : Predicate → Prop) : Shifted d V who d V :=
  ⟨sound, ⟨d.files, rfl⟩, fun _ _ => Iff.rfl, fun _ _ _ => rfl⟩

theorem Shifted.mono {who who' : Predicate → Prop} (shifted : Shifted d V who d' V')
    (more : ∀ q, who q → who' q) : Shifted d V who' d' V' :=
  ⟨shifted.sound, shifted.frame, shifted.has_iff, fun q not_who => shifted.others q fun h => not_who (more q h)⟩

theorem Shifted.trans {d'' : Directory} {V'' : Shelf} {who who' who'' : Predicate → Prop}
    (first : Shifted d V who d' V') (second : Shifted d' V' who' d'' V'')
    (both : ∀ q, who q ∨ who' q → who'' q) : Shifted d V who'' d'' V'' := by
  refine ⟨second.sound, ?_, fun q x => (second.has_iff q x).trans (first.has_iff q x),
    fun q not_who location => ?_⟩
  · obtain ⟨files, rfl⟩ := first.frame
    obtain ⟨files', rfl⟩ := second.frame
    exact ⟨files', rfl⟩
  · rw [second.others q fun h => not_who (both q (.inr h)),
      first.others q fun h => not_who (both q (.inl h))]

/-- A run of moves of different predicates, each from the one partition where its files are. -/
theorem Shifted.forM {α : Type} {f : α → DirectoryM Unit} (who : α → Predicate → Prop) (source : α → Int32)
    {xs : List α} (apart : xs.Pairwise fun a b => ∀ q, who a q → ¬who b q) (sound : d.Sound V)
    (step : ∀ a ∈ xs, ∀ files V, Sound { d with files } V → Pending V (who a) (source a) →
      ∃ V', Shifted { d with files } V (who a) (f a { d with files }).2 V')
    (pending : ∀ a ∈ xs, Pending V (who a) (source a)) :
    ∃ V', Shifted d V (fun q => ∃ a ∈ xs, who a q) (xs.forM f d).2 V' := by
  induction xs generalizing d V with
  | nil => exact ⟨V, .refl sound _⟩
  | cons a xs ih =>
    obtain ⟨before, apart⟩ := List.pairwise_cons.1 apart
    obtain ⟨first, others⟩ := List.forall_mem_cons.1 step
    obtain ⟨here, later⟩ := List.forall_mem_cons.1 pending
    obtain ⟨V₁, moved⟩ := first d.files V sound here
    rw [show (a :: xs).forM f = f a >>= fun _ => xs.forM f from rfl, bind_apply]
    rcases done : f a d with ⟨e | _, d₁⟩
    · rw [show f a { d with files := d.files } = _ from done] at moved
      exact ⟨V₁, moved.mono fun q h => ⟨a, List.mem_cons_self, h⟩⟩
    · rw [show f a { d with files := d.files } = _ from done] at moved
      obtain ⟨files, rfl⟩ := moved.frame
      -- The predicates of later moves were not touched, so their files are still where they were.
      obtain ⟨V₂, rest⟩ := ih apart moved.sound others fun b hb q hq location on_shelf => by
        rw [moved.others q fun h => before b hb q h hq] at on_shelf
        exact later b hb q hq location on_shelf
      refine ⟨V₂, moved.trans rest fun q h => ?_⟩
      rcases h with at_first | ⟨b, hb, hq⟩
      · exact ⟨a, List.mem_cons_self, at_first⟩
      · exact ⟨b, List.mem_cons_of_mem _ hb, hq⟩

theorem Sound.moveFile (sound : d.Sound V) (storable : p.Storable) {move : Relocation}
    (target : move.target = d.partitions.locationOf p.symbol)
    (pending : Pending V (· = p) move.source) :
    ∃ V', Shifted d V (· = p) (Directory.moveFile move p d).2 V' := by
  rcases moveFile_cases sound.wellFormed storable move with
    ⟨-, done⟩ | ⟨e, files, failed, changes⟩ | ⟨bytes, files, done, file, -, fits, changes⟩ |
      ⟨files, done, -, wf, same⟩
  · rw [done]
    exact ⟨V, .refl sound _⟩
  · rw [failed]
    exact ⟨V, sound.of_changes changes, ⟨files, rfl⟩, fun _ _ => Iff.rfl, fun _ _ _ => rfl⟩
  · rw [done]
    obtain ⟨r, on_shelf⟩ : ∃ r, V (p, move.source) = some r := sound.holds.of_file storable file
    rw [sound.holds.file _ _ on_shelf] at file
    cases file
    have only {location : Int32} (there : V.shift p move.source move.target r (p, location) ≠ none) :
        location = move.target := Shelf.eq_target_of_shift (pending p rfl) there
    refine ⟨V.shift p move.source move.target r,
      ⟨changes.wellFormed, ?_, ?_, ?_, sound.listed, sound.tuples, sound.short⟩, ⟨files, rfl⟩, fun q x => ?_,
      fun q => Shelf.shift_of_ne V _ _ r⟩
    · rw [changes.files_eq]
      exact sound.holds.shift on_shelf fits
    · rintro ⟨q, location⟩ r' there x hx
      by_cases same : q = p
      · subst same
        have place := only (by rw [there]; exact nofun)
        subst place
        rw [Shelf.shift_target] at there
        cases there
        exact sound.known _ _ on_shelf x hx
      · rw [Shelf.shift_of_ne _ _ _ _ same] at there
        exact sound.known _ r' there x hx
    · rintro ⟨q, location⟩ there
      by_cases same : q = p
      · subst same
        exact .inr ((only there).trans target)
      · rw [Shelf.shift_of_ne _ _ _ _ same] at there
        exact sound.placed _ there
    · by_cases same : q = p
      · subst same
        rw [Shelf.has_iff_of_only (Shelf.shift_target ..) fun _ => only,
          Shelf.has_iff_of_only on_shelf (pending q rfl)]
      · exact Shelf.has_congr (Shelf.shift_of_ne V _ _ r same) x
  · rw [done]
    exact ⟨V, sound.touch wf same, ⟨files, rfl⟩, fun _ _ => Iff.rfl, fun _ _ _ => rfl⟩

theorem Sound.relocate (sound : d.Sound V) {move : Relocation}
    (target : move.target = d.partitions.locationOf move.symbol)
    (pending : Pending V (fun q => q.symbol = move.symbol) move.source) :
    ∃ V', Shifted d V (fun q => q.symbol = move.symbol) (Directory.relocate move d).2 V' := by
  have named {p : Predicate} (hp : p ∈ d.facts.predicates.filter fun p => p.symbol = move.symbol) :
      p ∈ d.facts.predicates ∧ p.symbol = move.symbol := by
    simpa using List.mem_filter.1 hp
  have distinct : (d.facts.predicates.filter fun p => p.symbol = move.symbol).Nodup :=
    d.facts.nodup_keys.filter _
  rw [relocate_eq]
  obtain ⟨V', shifted⟩ := Shifted.forM (fun p q => q = p) (fun _ => move.source)
    (distinct.imp fun apart q first second => apart (first.symm.trans second)) sound
    (fun p hp files V sound pending =>
      sound.moveFile (sound.listed p (named hp).1) (target.trans (by rw [(named hp).2])) pending)
    (fun p hp q same => pending q (same ▸ (named hp).2))
  exact ⟨V', shifted.mono fun q ⟨p, hp, same⟩ => same ▸ (named hp).2⟩

/-- Counting new facts moves files between partitions, and what the shelf has stays the same. -/
theorem Sound.relocations (sound : d.Sound V) {counts : List (String × Int64)}
    (distinct : (counts.map Prod.fst).Nodup) (short : ∀ c ∈ counts, (Text.bytes c.1).length < 2 ^ 64) :
    ∃ V', Shifted { d with partitions := (d.partitions.add counts).1 } V (fun _ => True)
      ((d.partitions.add counts).2.forM Directory.relocate
        { d with partitions := (d.partitions.add counts).1 }).2 V' := by
  obtain ⟨moved, -⟩ := PartitionMap.moved_add distinct d.partitions
  have placed (k : Predicate × Int32) (on_shelf : V k ≠ none) :
      k.2 = PartitionMap.sharedLocation ∨ k.2 = (d.partitions.add counts).1.locationOf k.1.symbol := by
    rcases sound.placed k on_shelf with shared | own
    · exact .inl shared
    · -- A symbol only moves out of the shared partition, so its files are in one of the two allowed.
      by_cases moves : k.1.symbol ∈ (d.partitions.add counts).2.map Relocation.symbol
      · obtain ⟨move, hmove, same⟩ := List.mem_map.1 moves
        left
        rw [own, ← same, ← (moved.ends move hmove).1, moved.shared move hmove]
      · exact .inr (own.trans (moved.others _ moves).symm)
  have repartitioned : Sound { d with partitions := (d.partitions.add counts).1 } V :=
    ⟨sound.wellFormed, sound.holds, sound.known, placed, sound.listed, sound.tuples,
      PartitionMap.forall_symbol_add (P := fun s => (Text.bytes s).length < 2 ^ 64) sound.short short⟩
  obtain ⟨V', shifted⟩ := Shifted.forM (fun move q => q.symbol = move.symbol) Relocation.source
    ((List.pairwise_map.1 moved.distinct).imp fun apart q first second => apart (first.symm.trans second))
    repartitioned
    (fun move hmove files V sound pending => sound.relocate (moved.ends move hmove).2 pending)
    (fun move hmove q same location on_shelf => by
      rcases sound.placed (q, location) on_shelf with shared | own
      · exact shared.trans (moved.shared move hmove).symm
      · rw [(moved.ends move hmove).1, ← same]
        exact own)
  exact ⟨V', shifted.mono fun _ _ => trivial⟩

theorem Sound.save (sound : d.Sound V) (m : PartitionMap) :
    Sound { d with files := (m.save d.layout d.files).2 } V := by
  rcases save_cases sound.wellFormed m d.layout with
    ⟨e, files, failed, changes⟩ | ⟨files, done, -, -, changes⟩
  · rw [failed]
    exact sound.of_changes changes
  · rw [done]
    refine sound.touch changes.wellFormed fun dir name => ?_
    rw [changes.files_eq, Function.update_of_ne]
    intro same
    have names := List.append_cancel_left same
    simp at names

/-! ### Imports -/

/-- Inserts that all succeed write the files of the predicates that get new tuples, and no others. -/
theorem Sound.importOnes {es : List (Predicate × Relation)} (distinct : (es.map Prod.fst).Nodup)
    (storable : ∀ e ∈ es, e.2.StorableFor e.1) (sound : d.Sound V) {done done' : Imported}
    (h : es.foldlM importOne done d = (.ok done', d')) :
    ∃ V', d'.Sound V' ∧
      (∀ q, (∀ r, (q, r) ∈ es → (r.diff (d.facts.scan q)).isEmpty = true) →
        ∀ location, V' (q, location) = V (q, location)) ∧
      ∀ q r, (q, r) ∈ es → (r.diff (d.facts.scan q)).isEmpty = false →
        ∃ location, V' (q, location) = some (d'.facts.scan q) := by
  induction es generalizing d V done with
  | nil =>
    cases h
    exact ⟨V, sound, fun _ _ _ => rfl, nofun⟩
  | cons e es ih =>
    obtain ⟨p, r⟩ := e
    rw [List.map_cons, List.nodup_cons] at distinct
    obtain ⟨here, later⟩ := List.forall_mem_cons.1 storable
    obtain ⟨added, d₁, inserted, rest⟩ := foldlM_importOne_cons h
    obtain ⟨V₁, sound₁, effect⟩ := sound.insert here
    rw [inserted] at sound₁ effect
    dsimp only at sound₁ effect
    obtain ⟨-, files, rfl⟩ := insert_ok inserted
    obtain ⟨V', sound', kept, written⟩ := ih distinct.2 later sound₁ rest
    obtain ⟨⟨files', rfl⟩, -⟩ := foldlM_importOne_ok distinct.2 rest
    -- A batch has each predicate once, so later inserts leave the relation and the file of `p` alone.
    have apart {q : Predicate} {r' : Relation} (member : (q, r') ∈ es) : q ≠ p := by
      rintro rfl
      exact distinct.1 (List.mem_map.2 ⟨_, member, rfl⟩)
    have same_scan {q : Predicate} {r' : Relation} (member : (q, r') ∈ es) :
        (d.facts.add p r).scan q = d.facts.scan q := Facts.scan_add_of_ne _ _ (apart member)
    have others (q : Predicate) (other : q ≠ p) (location : Int32) : V₁ (q, location) = V (q, location) := by
      rcases effect with ⟨-, rfl⟩ | ⟨-, ⟨-, rfl⟩ | rfl⟩
      · rfl
      · rfl
      · exact Function.update_of_ne (fun h => other (Prod.mk.inj h).1) ..
    refine ⟨V', sound', fun q none location => ?_, fun q r' member some_new => ?_⟩
    · rw [kept q fun r' member => by
        rw [same_scan member]
        exact none r' (List.mem_cons_of_mem _ member)]
      by_cases same : q = p
      · subst same
        rcases effect with ⟨-, rfl⟩ | ⟨some_new, -⟩
        · rfl
        · rw [none r List.mem_cons_self] at some_new
          cases some_new
      · exact others q same location
    · rcases List.mem_cons.1 member with head | tail
      · cases head
        rcases effect with ⟨none, -⟩ | ⟨-, ⟨⟨e, failed⟩, -⟩ | rfl⟩
        · rw [some_new] at none
          cases none
        · cases failed
        · refine ⟨d.partitions.locationOf p.symbol, ?_⟩
          rw [kept p fun _ member => absurd rfl (apart member), Function.update_self]
          exact congrArg some (scan_addAll_of_not_mem distinct.1 _).symm
      · exact written q r' tail (by rw [same_scan tail]; exact some_new)

theorem Sound.importBatch (sound : d.Sound V) {batch : Facts} (storable : batch.Storable) :
    (Directory.importBatch batch d).2.layout = d.layout ∧
      ∃ V', (Directory.importBatch batch d).2.Sound V' := by
  have inserts : (batch.toList.foldlM importOne {} d).2.layout = d.layout ∧
      ∃ V', (batch.toList.foldlM importOne {} d).2.Sound V' := by
    refine foldlM_keeps (I := fun d' : Directory => d'.layout = d.layout ∧ ∃ V, d'.Sound V)
      (fun e he done d' ⟨same, V, sound⟩ => ?_) _ ⟨rfl, V, sound⟩
    obtain ⟨V', sound', -⟩ := sound.insert (storable e he)
    obtain ⟨files, frame⟩ := insert_snd e.1 e.2 d'
    rw [importOne_eq]
    rcases inserted : Directory.insert e.1 e.2 d' with ⟨_ | _, d''⟩
    · rw [inserted] at frame sound'
      exact ⟨(congrArg layout frame).trans same, V', sound'⟩
    · rw [inserted] at frame sound'
      exact ⟨(congrArg layout frame).trans same, V', sound'⟩
  rw [importBatch_eq]
  rcases inserted : batch.toList.foldlM importOne {} d with ⟨e | done, d₁⟩
  · rw [inserted] at inserts
    exact inserts
  rw [inserted] at inserts
  obtain ⟨layout, V₁, sound₁⟩ := inserts
  obtain ⟨V₂, shifted⟩ :=
    sound₁.relocations done.bySymbol.nodup_keys (short_of_foldlM_importOne storable inserted)
  dsimp only
  rcases relocated : (d₁.partitions.add done.bySymbol.toList).2.forM Directory.relocate
    { d₁ with partitions := (d₁.partitions.add done.bySymbol.toList).1 } with ⟨e | _, d₂⟩
  · rw [relocated] at shifted
    obtain ⟨files, rfl⟩ := shifted.frame
    exact ⟨layout, V₂, shifted.sound⟩
  rw [relocated] at shifted
  have saved := shifted.sound.save (d₁.partitions.add done.bySymbol.toList).1
  obtain ⟨files, rfl⟩ := shifted.frame
  dsimp only at saved ⊢
  rcases written : (d₁.partitions.add done.bySymbol.toList).1.save d₁.layout files with ⟨e | _, files'⟩
  · rw [written] at saved
    exact ⟨layout, V₂, saved⟩
  · rw [written] at saved
    exact ⟨layout, V₂, saved⟩

/-- The states of a store that was opened where nothing was. Facts are inserted and imported, which may
fail. In between, others may do anything to the tree except to the files in the partitions: they may put a
staging file or a directory in the way, and remove it again. -/
inductive Reached (l : Layout) : Directory → Prop where
  | opened {t t' : FileTree} {blockSize : Int64} {d : Directory} (fresh : l.Fresh t)
      (h : openFrom l blockSize t = (.ok d, t')) : Reached l d
  | insert {d : Directory} {p : Predicate} {r : Relation} (before : Reached l d)
      (storable : r.StorableFor p) : Reached l (Directory.insert p r d).2
  | importBatch {d : Directory} {batch : Facts} (before : Reached l d) (storable : batch.Storable) :
      Reached l (Directory.importBatch batch d).2
  | disturbed {d : Directory} (before : Reached l d) (files : FileTree) (wf : files.WellFormed)
      (same : ∀ dir name, files.file? (l.root ++ ["facts", dir, name]) =
        d.files.file? (l.root ++ ["facts", dir, name])) : Reached l { d with files }

theorem Reached.sound {l : Layout} (reached : Reached l d) : d.layout = l ∧ ∃ V, d.Sound V := by
  induction reached with
  | opened fresh h =>
    obtain ⟨layout, partitions, facts, rfl, wf, -, -, no_file⟩ := of_openFrom_fresh fresh h
    refine ⟨layout, fun _ => none, wf, ⟨nofun, fun dir name there => ?_, ?_, nofun⟩, nofun, ?_, ?_, ?_, ?_⟩
    · rw [layout, no_file ["facts", dir, name] (by simp)] at there
      exact absurd rfl there
    · exact fun k on_shelf => absurd rfl on_shelf
    · exact fun k on_shelf => absurd rfl on_shelf
    · rw [facts]
      exact nofun
    · rw [facts]
      exact fun p x hx => absurd hx SortedSet.not_mem_empty
    · rw [partitions]
      exact nofun
  | insert before storable ih =>
    obtain ⟨layout, V, sound⟩ := ih
    obtain ⟨V', sound', -⟩ := sound.insert storable
    obtain ⟨files, frame⟩ := insert_snd _ _ _
    exact ⟨by rw [frame]; exact layout, V', sound'⟩
  | importBatch before storable ih =>
    obtain ⟨layout, V, sound⟩ := ih
    obtain ⟨layout', V', sound'⟩ := sound.importBatch storable
    exact ⟨layout'.trans layout, V', sound'⟩
  | disturbed before files wf same ih =>
    obtain ⟨rfl, V, sound⟩ := ih
    exact ⟨rfl, V, sound.touch wf same⟩

/-- What a new opening finds after an import that was acknowledged: of a predicate that got new tuples all
facts, and of any other what was on disk before. -/
theorem Sound.openFrom_after_import (sound : d.Sound V) {batch : Facts} (storable : batch.Storable) {n : Nat}
    (acknowledged : Directory.importBatch batch d = (.ok n, d')) (clear : d.layout.Clear d'.files)
    (blockSize : Int64) :
    ∃ d'', openFrom d.layout blockSize d'.files = (.ok d'', d'.files) ∧
      (∀ p, (∀ x ∈ batch.scan p, x ∈ d.facts.scan p) → ∀ x, x ∈ d''.facts.scan p ↔ V.Has p x) ∧
      ∀ p, (∃ x ∈ batch.scan p, x ∉ d.facts.scan p) →
        ∀ x, x ∈ d''.facts.scan p ↔ x ∈ d.facts.scan p ∨ x ∈ batch.scan p := by
  obtain ⟨done, d₁, d₂, files, inserted, relocated, saved, -, rfl⟩ := importBatch_ok acknowledged
  obtain ⟨V₁, sound₁, kept, written⟩ := sound.importOnes batch.nodup_keys storable inserted
  obtain ⟨⟨files₁, rfl⟩, -⟩ := foldlM_importOne_ok batch.nodup_keys inserted
  obtain ⟨V₂, shifted⟩ :=
    sound₁.relocations done.bySymbol.nodup_keys (short_of_foldlM_importOne storable inserted)
  rw [relocated] at shifted
  obtain ⟨files₂, rfl⟩ := shifted.frame
  have sound₂ := shifted.sound.save (d.partitions.add done.bySymbol.toList).1
  dsimp only at saved sound₂ clear ⊢
  rcases save_cases shifted.sound.wellFormed (d.partitions.add done.bySymbol.toList).1 d.layout with
    ⟨e, files', failed, -⟩ | ⟨files', done', present, fits, changes⟩
  · rw [show PartitionMap.save _ d.layout files₂ = _ from failed] at saved
    cases saved
  rw [show PartitionMap.save _ d.layout files₂ = _ from done'] at saved sound₂
  cases saved
  have table := (congrFun changes.files_eq d.layout.tableLocation).trans (Function.update_self ..)
  have opened := Layout.opened_of_table changes.wellFormed present fits table
  obtain ⟨facts, reopened, found, -⟩ := openFrom_of_holds sound₂.holds changes.wellFormed opened clear
    (opened.readTable_of_file changes.wellFormed table sound₂.short) blockSize
  refine ⟨_, reopened, fun p none_new x => ?_, fun p some_new x => ?_⟩
  · rw [found, shifted.has_iff]
    refine Shelf.has_congr (kept p fun r member => SortedSet.isEmpty_iff.2 fun x hx => ?_) x
    obtain ⟨in_batch, new⟩ := SortedSet.mem_diff.1 hx
    rw [← Facts.scan_of_mem_toList member] at in_batch
    exact new (none_new x in_batch)
  · rw [found, ← mem_scan_addAll_toList]
    constructor
    · rintro ⟨location, r, on_shelf, hx⟩
      exact sound₂.known _ r on_shelf x hx
    · intro hx
      obtain ⟨y, in_batch, new⟩ := some_new
      obtain ⟨location, on_shelf⟩ := written p _ (Facts.mem_toList_of_mem_scan in_batch)
        (SortedSet.isEmpty_eq_false_iff.2 ⟨y, SortedSet.mem_diff.2 ⟨in_batch, new⟩⟩)
      exact (shifted.has_iff p x).2 ⟨location, _, on_shelf, hx⟩

end Directory

/-- A fact is in a file of its predicate, in some partition. -/
def Layout.OnDisk (l : Layout) (t : FileTree) (p : Predicate) (x : Tuple) : Prop :=
  ∃ location bytes r, t.file? (l.shelfLocation (p, location)) = some bytes ∧
    FactFile.read p bytes = .ok r ∧ x ∈ r

theorem Layout.Holds.onDisk_iff {l : Layout} {t : FileTree} {V : Shelf} (holds : l.Holds t.file? V)
    {p : Predicate} (storable : p.Storable) (x : Tuple) : l.OnDisk t p x ↔ V.Has p x := by
  have read {location : Int32} {r : Relation} (on_shelf : V (p, location) = some r) :=
    FactFile.read_write (holds.storable _ r on_shelf).2
  constructor
  · rintro ⟨location, bytes, r, file, decoded, hx⟩
    obtain ⟨r', on_shelf⟩ := holds.of_file storable file
    rw [holds.file _ r' on_shelf] at file
    cases file
    rw [read on_shelf] at decoded
    cases decoded
    exact ⟨location, r, on_shelf, hx⟩
  · rintro ⟨location, r, on_shelf, hx⟩
    exact ⟨location, _, r, holds.file _ r on_shelf, read on_shelf, hx⟩

namespace Directory

variable {d d' : Directory}

/-- **When an acknowledged import is durable.** Opened anew, the project has all tuples of the batch of a
predicate exactly when one of them was new to the facts in memory, which makes the import write the file,
or all of them were on disk before. Tuples that are in memory only, since an earlier write failed, are
acknowledged and not written. -/
theorem durable_iff_of_acknowledged {l : Layout} (reached : Reached l d) {batch : Facts}
    (storable : batch.Storable) {n : Nat} (acknowledged : importBatch batch d = (.ok n, d'))
    (clear : l.Clear d'.files) (blockSize : Int64) :
    ∃ d'', openFrom l blockSize d'.files = (.ok d'', d'.files) ∧
      ∀ p, (∀ x ∈ batch.scan p, x ∈ d''.facts.scan p) ↔
        (∃ x ∈ batch.scan p, x ∉ d.facts.scan p) ∨ ∀ x ∈ batch.scan p, l.OnDisk d.files p x := by
  obtain ⟨rfl, V, sound⟩ := reached.sound
  obtain ⟨d'', reopened, none_new, some_new⟩ :=
    sound.openFrom_after_import storable acknowledged clear blockSize
  refine ⟨d'', reopened, fun p => ?_⟩
  have on_disk (x : Tuple) (hx : x ∈ batch.scan p) : d.layout.OnDisk d.files p x ↔ V.Has p x :=
    sound.holds.onDisk_iff (storable _ (Facts.mem_toList_of_mem_scan hx)).predicate x
  by_cases new : ∃ x ∈ batch.scan p, x ∉ d.facts.scan p
  · exact iff_of_true (fun x hx => (some_new p new x).2 (.inr hx)) (.inl new)
  · have known : ∀ x ∈ batch.scan p, x ∈ d.facts.scan p := by
      simpa using new
    rw [or_iff_right new]
    constructor
    · exact fun all x hx => (on_disk x hx).2 ((none_new p known x).1 (all x hx))
    · exact fun all x hx => (none_new p known x).2 ((on_disk x hx).1 (all x hx))

/-- Whether a node lies in the way of opening a project. -/
def isClear (l : Layout) (e : List String × Node) : Bool :=
  match e.2, e.1.drop l.root.length with
  | .dir, [_, dir] =>
    dir ≠ "_predicates" && !Path.isTooLong (l.project.components ++ ["facts", dir]) &&
      ["facts", dir].all fun name => name.utf8ByteSize ≤ maxNameLength
  | .dir, [_, _, name] => (Layout.parseFactFileName? name).isNone
  | _, _ => true

theorem clear_of_all {l : Layout} {t : FileTree} (all : t.toList.all (isClear l) = true) : l.Clear t := by
  have check (rest : List String) (below : rest ≠ []) (node : t.node? (l.root ++ rest) = some .dir) :
      isClear l (l.root ++ rest, .dir) = true := by
    rw [node?, if_neg (by simp [below])] at node
    exact List.all_eq_true.1 all _ (SortedMap.mem_toList_iff.2 node)
  constructor
  · intro node
    have other := check ["facts", "_predicates"] (by simp) node
    simp [isClear] at other
  · intro dir _ node
    have fits := check _ (by simp) node
    simp only [isClear, List.drop_left, Bool.and_eq_true, Bool.not_eq_true'] at fits
    exact ⟨fits.1.2, fun name hname => of_decide_eq_true (List.all_eq_true.1 fits.2 name hname)⟩
  · intro dir name p _ parsed node
    have none := check _ (by simp) node
    simp only [isClear, List.drop_left, parsed] at none
    cases none

/-! A write that failed is not made up for: with a directory in the place of its file, an edge is refused
and yet stays in memory; when the directory is gone and the edge is imported again, nothing is new. -/

/-- One edge. -/
def oneEdge : Facts := Facts.ofList [(⟨"edge", 2⟩, SortedSet.singleton (Tuple.ofInts [1, 2]))]

/-- A new project with a directory in the place of a fact file. -/
def obstructed : FileTree :=
  (newProject.insert ["p", "facts", "0"] .dir).insert ["p", "facts", "0", "edge_2.jsonl"] .dir

/-- The store after the import that failed. -/
def afterFailure : Directory := (importBatch oneEdge { newStore with files := obstructed }).2

/-- The store when the directory is removed. -/
def beforeRetry : Directory :=
  { afterFailure with files := (newProject.insert ["p", "facts", "0"] .dir).insert ["p", "_tmp"] .dir }

theorem oneEdge_storable : oneEdge.Storable := by decide +kernel

theorem reached_beforeRetry : Reached ⟨["p"]⟩ beforeRetry := by
  have opened := Reached.opened (Layout.fresh_empty ⟨["p"]⟩) openFrom_empty
  have failed : Reached ⟨["p"]⟩ afterFailure := by
    refine .importBatch (opened.disturbed obstructed (by decide +kernel) fun dir name => ?_) oneEdge_storable
    rw [file?_eq_none (by decide +kernel), file?_eq_none (by decide +kernel)]
  refine failed.disturbed _ (by decide +kernel) fun dir name => ?_
  rw [file?_eq_none (by decide +kernel), file?_eq_none (by decide +kernel)]

/-- The edge that is imported again is acknowledged and then lost. -/
theorem retried_edge_lost : ∃ d' d'', importBatch oneEdge beforeRetry = (.ok 0, d') ∧
    openFrom ⟨["p"]⟩ 2 d'.files = (.ok d'', d'.files) ∧
    ¬∀ x ∈ oneEdge.scan ⟨"edge", 2⟩, x ∈ d''.facts.scan ⟨"edge", 2⟩ := by
  have acknowledged : importBatch oneEdge beforeRetry = (.ok 0, (importBatch oneEdge beforeRetry).2) :=
    Prod.ext rfl rfl
  obtain ⟨d'', reopened, durable_iff⟩ := durable_iff_of_acknowledged reached_beforeRetry oneEdge_storable
    acknowledged (clear_of_all (by decide +kernel)) 2
  refine ⟨_, d'', acknowledged, reopened, fun all => ?_⟩
  rcases (durable_iff ⟨"edge", 2⟩).1 all with ⟨x, hx, new⟩ | on_disk
  · have known : ∀ x ∈ (oneEdge.scan ⟨"edge", 2⟩).toList,
        x ∈ (beforeRetry.facts.scan ⟨"edge", 2⟩).toList := by decide +kernel
    exact new (known x hx)
  · have member : Tuple.ofInts [1, 2] ∈ (oneEdge.scan ⟨"edge", 2⟩).toList := by decide +kernel
    obtain ⟨location, bytes, r, file, -⟩ := on_disk _ member
    rw [file?_eq_none (by decide +kernel)] at file
    cases file

end Directory

end Datalog
