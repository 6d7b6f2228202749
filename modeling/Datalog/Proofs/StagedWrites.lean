import Datalog.Proofs.FileTrees
import Datalog.Storage.Disk

/-!
# Staged writes replace their target or change no file

A staged write makes the directories it needs, creates its staging file where nothing was, fills it,
removes the target and renames the staging file to it. Only the last step follows the removal, and it
cannot fail then. Which obstacle is met first decides how the write ends (`Disk.Outcome`): when it
succeeds, the one file that changed is the target, and when it fails, no file changed
(`Disk.writeStaged_outcome`).
-/

namespace Datalog

/-- An action followed by another: the second starts where the first ended, if that succeeded. -/
theorem bind_apply {ε σ α β : Type} (x : ExceptT ε (StateM σ) α) (f : α → ExceptT ε (StateM σ) β)
    (s : σ) :
    (x >>= f) s =
      match x s with
      | (.ok a, s') => f a s'
      | (.error e, s') => (.error e, s') := by
  show (match x s with
    | (r, s') => (match r with
      | .ok a => f a
      | .error e => pure (.error e) : StateM σ (Except ε β)) s') = _
  rcases x s with ⟨_ | _, s'⟩ <;> rfl

section Runs

variable {ε σ α β : Type}

theorem bind_eq_ok {x : ExceptT ε (StateM σ) α} {f : α → ExceptT ε (StateM σ) β} {s s'' : σ} {b : β}
    (h : (x >>= f) s = (.ok b, s'')) : ∃ a s', x s = (.ok a, s') ∧ f a s' = (.ok b, s'') := by
  rw [bind_apply] at h
  rcases first : x s with ⟨e | a, s'⟩
  · rw [first] at h
    cases h
  · rw [first] at h
    exact ⟨a, s', rfl, h⟩

/-- What every action of a run keeps, the run keeps, also when it fails. -/
theorem foldlM_keeps {I : σ → Prop} {f : β → α → ExceptT ε (StateM σ) β} {xs : List α}
    (step : ∀ a ∈ xs, ∀ b s, I s → I (f b a s).2) (b : β) {s : σ} (h : I s) : I (xs.foldlM f b s).2 := by
  induction xs generalizing b s with
  | nil => exact h
  | cons a xs ih =>
    obtain ⟨first, others⟩ := List.forall_mem_cons.1 step
    have kept := first b s h
    rw [List.foldlM_cons, bind_apply]
    rcases done : f b a s with ⟨e | b', s'⟩
    · rw [done] at kept
      exact kept
    · rw [done] at kept
      exact ih others b' kept

end Runs

namespace Disk

open FileTree

variable {t : FileTree} {p q : Path} {loc src dst : List String}

/-- Making directories changes no file; when it succeeds, the components lead to a directory. -/
theorem makeDirsAlong_spec (wf : t.WellFormed) (components : List String) :
    Changes t (passed [] components) t.file? (makeDirsAlong components t).2 ∧
      ((makeDirsAlong components t).1 = .ok () →
        Path.isTooLong components = false ∧
        (makeDirsAlong components t).2.walk [] components = .ok (resolve [] components)) := by
  obtain ⟨changes, walks⟩ := makeDirsFrom_spec wf t.node?_nil components
  unfold makeDirsAlong FileTree.makeDirs
  split
  · exact ⟨(Changes.refl wf).mono (by simp), fun h => by cases h⟩
  · next fits =>
    rw [Bool.or_eq_true, not_or] at fits
    rcases made : t.makeDirsFrom [] components with ⟨_ | _, t'⟩
    · rw [made] at changes
      exact ⟨changes, fun h => by cases h⟩
    · rw [made] at changes walks
      exact ⟨changes, fun _ => ⟨by simpa using fits.2, walks rfl⟩⟩

theorem makeDirsAlong_error {components : List String} {e : StoreError}
    (h : (makeDirsAlong components t).1 = .error e) : e = .file := by
  unfold makeDirsAlong at h
  split at h
  · cases h
    rfl
  · split at h
    · cases h
    · cases h
      rfl

/-- A staging file is created where its path leads to a free place. -/
theorem createStaging_spec (wf : t.WellFormed) (p : Path) :
    (t.has p = true ∧ createStaging p t = (.error (.concurrentWrite p.text), t)) ∨
    t.has p = false ∧
      ((∀ loc, t.locate p ≠ .ok loc) ∧ createStaging p t = (.error .file, t) ∨
        ∃ loc, t.locate p = .ok loc ∧ t.Free loc ∧
          createStaging p t = (.ok (), t.insert loc (.file []))) := by
  unfold createStaging
  cases found : t.locate p with
  | error e =>
    have lost : t.find p = .error e := by
      rw [find, found]
      rfl
    have failed : t.createNew p = .error e := by
      rw [createNew, found]
      rfl
    refine .inr ⟨by rw [has, lost]; rfl, .inl ⟨?_, ?_⟩⟩
    · intro loc located
      cases located
    rw [failed]
    cases e with
    | alreadyExists => exact absurd found locate_ne_alreadyExists
    | notFound => rfl
    | other => rfl
  | ok loc =>
    rw [createNew_eq found]
    cases node : t.node? loc with
    | some n => exact .inl ⟨by rw [has, find_eq found, node]; rfl, rfl⟩
    | none =>
      exact .inr ⟨by rw [has, find_eq found, node]; rfl,
        .inr ⟨loc, rfl, free_of_locate wf found node, rfl⟩⟩

section Removal

variable (found : t.locate p = .ok loc)

include found

theorem removeIfPresent_file {bytes : List UInt8} (file : t.node? loc = some (.file bytes)) :
    removeIfPresent p t = (.ok (), t.erase loc) := by
  rw [removeIfPresent, attempt, removeFile_eq found, file]

theorem removeIfPresent_none (none : t.node? loc = none) : removeIfPresent p t = (.ok (), t) := by
  rw [removeIfPresent, attempt, removeFile_eq found, none]

theorem removeIfPresent_dir (dir : t.node? loc = some .dir) :
    removeIfPresent p t = (.error .file, t) := by
  rw [removeIfPresent, attempt, removeFile_eq found, dir]

end Removal

/-- A path that leads nowhere leaves nothing to remove. -/
theorem removeIfPresent_lost {e : FileError} (lost : t.locate p = .error e) :
    removeIfPresent p t = (.ok (), t) ∨ removeIfPresent p t = (.error .file, t) := by
  have failed : t.removeFile p = .error e := by
    rw [removeFile, lost]
    rfl
  rw [removeIfPresent, attempt, failed]
  cases e with
  | notFound => exact .inl rfl
  | alreadyExists => exact .inr rfl
  | other => exact .inr rfl

theorem attempt_rename_lost {e : FileError} (lost : t.locate q = .error e) :
    attempt (·.rename p q) t = (.error .file, t) := by
  have failed : ∃ e', t.rename p q = .error e' := by
    rw [rename, lost]
    cases t.locate p with
    | error e' => exact ⟨e', rfl⟩
    | ok loc => exact ⟨e, rfl⟩
  obtain ⟨e', failed⟩ := failed
  rw [attempt, failed]

/-- A file is renamed to a place where nothing is. -/
theorem attempt_rename_free {bytes : List UInt8} (wf : t.WellFormed) (found : t.locate p = .ok src)
    (target : t.locate q = .ok dst) (staged : t.node? src = some (.file bytes))
    (free : t.node? dst = none) :
    ∃ t', attempt (·.rename p q) t = (.ok (), t') ∧
      Changes t [] (Function.update (Function.update t.file? src none) dst (some bytes)) t' := by
  rcases rename_file wf found target staged with ⟨dir, -⟩ | ⟨t', renamed, changes⟩
  · rw [free] at dir
    cases dir
  · exact ⟨t', by rw [attempt, renamed], changes⟩

/-- A path leads to a place for a file: not to a directory, and not to the location `src`, where the
file is now. -/
def Accepts (t : FileTree) (q : Path) (src : List String) : Prop :=
  ∃ dst, t.locate q = .ok dst ∧ t.node? dst ≠ some .dir ∧ dst ≠ src

/-- Places for files are a matter of directories. -/
theorem accepts_iff_of_changes {t' : FileTree} {files : List String → Option (List UInt8)}
    (changes : Changes t [] files t') : Accepts t' q src ↔ Accepts t q src := by
  have dirs (l : List String) : t'.node? l = some .dir ↔ t.node? l = some .dir :=
    ⟨fun dir => (changes.fresh l dir).elim id (fun new => absurd new (by simp)), changes.kept l⟩
  have located (l : List String) : t'.locate q = .ok l ↔ t.locate q = .ok l :=
    ⟨locate_mono fun l => (dirs l).1, locate_mono fun l => (dirs l).2⟩
  unfold Accepts
  simp only [ne_eq, located, dirs]

/-- What putting a filled staging file into the place of its target ends with. -/
theorem replaceFile_spec {bytes : List UInt8} (wf : t.WellFormed) (found : t.locate p = .ok src)
    (staged : t.node? src = some (.file bytes)) :
    (¬Accepts t q src ∧ ∃ t', replaceFile p q t = (.error .file, t') ∧ (t' = t ∨ t' = t.erase src)) ∨
      ∃ dst t', t.locate q = .ok dst ∧ t.node? dst ≠ some .dir ∧ dst ≠ src ∧
        replaceFile p q t = (.ok (), t') ∧
        Changes t [] (Function.update (Function.update t.file? src none) dst (some bytes)) t' := by
  rw [replaceFile, bind_apply]
  cases target : t.locate q with
  | error e =>
    left
    refine ⟨?_, t, ?_, .inl rfl⟩
    · rintro ⟨dst, located, -⟩
      rw [target] at located
      cases located
    · rcases removeIfPresent_lost target with removed | removed
      · rw [removed]
        exact attempt_rename_lost target
      · rw [removed]
  | ok dst =>
    have rejects (obstacle : t.node? dst = some .dir ∨ dst = src) : ¬Accepts t q src := by
      rintro ⟨dst', located, no_dir, apart⟩
      rw [target] at located
      cases located
      exact obstacle.elim no_dir apart
    cases there : t.node? dst with
    | some n =>
      cases n with
      | dir =>
        rw [removeIfPresent_dir target there]
        exact .inl ⟨rejects (.inl there), t, rfl, .inl rfl⟩
      | file old =>
        rw [removeIfPresent_file target there]
        dsimp only
        have erased := changes_erase_file wf there
        have found' := locate_mono erased.kept found
        have target' := locate_mono erased.kept target
        have inner : dst ≠ [] := by
          rintro rfl
          cases there
        have gone : node? (t.erase dst) dst = none := by rw [node?_erase inner, if_pos rfl]
        by_cases same : dst = src
        · -- The target is the staging file: it was removed to make way for itself.
          subst same
          have failed : FileTree.rename (t.erase dst) p q = .error .notFound := by
            rw [rename_eq found' target', gone]
          exact .inl ⟨rejects (.inr rfl), t.erase dst, by rw [attempt, failed], .inr rfl⟩
        · have staged' : node? (t.erase dst) src = some (.file bytes) := by
            rw [node?_erase inner, if_neg (Ne.symm same), staged]
          obtain ⟨t', renamed, changes⟩ := attempt_rename_free erased.wellFormed found' target' staged' gone
          refine .inr ⟨dst, t', rfl, by rw [there]; exact nofun, same, renamed, ?_⟩
          have both := erased.trans changes
          rw [erased.files_eq, Function.update_comm same, Function.update_idem] at both
          exact both
    | none =>
      rw [removeIfPresent_none target there]
      dsimp only
      obtain ⟨t', renamed, changes⟩ := attempt_rename_free wf found target staged there
      refine .inr ⟨dst, t', rfl, by rw [there]; exact nofun, ?_, renamed, changes⟩
      rintro rfl
      rw [there] at staged
      cases staged

/-- Removing a staging file again leaves the files as they were before it was created. -/
theorem changes_removeIfPresent_staging {t₀ : FileTree} (free : t₀.Free src) {bytes : List UInt8}
    (staged : Changes t₀ [] (Function.update t₀.file? src (some bytes)) t)
    (found : t.locate p = .ok src) : Changes t₀ [] t₀.file? (removeIfPresent p t).2 := by
  have file : t.node? src = some (.file bytes) := by
    rw [← file?_eq_some_iff, staged.files_eq, Function.update_self]
  have none : t₀.file? src = none := by rw [file?, free.none]
  rw [removeIfPresent_file found file]
  have both := staged.trans (changes_erase_file staged.wellFormed file)
  rw [staged.files_eq, Function.update_idem, ← none, Function.update_eq_self] at both
  exact both

/-- Filling a new staging file and putting it into place changes the target, or nothing. -/
theorem commit_spec (wf : t.WellFormed) (found : t.locate p = .ok src) (free : t.Free src)
    (bytes : List UInt8) :
    (¬Accepts t q src ∧ ∃ t', commit p q bytes (t.insert src (.file [])) = (.error .file, t') ∧
      Changes t [] t.file? t') ∨
    ∃ dst t', t.locate q = .ok dst ∧ t.node? dst ≠ some .dir ∧ dst ≠ src ∧
      commit p q bytes (t.insert src (.file [])) = (.ok (), t') ∧
      Changes t [] (Function.update t.file? dst (some bytes)) t' := by
  have none : t.file? src = none := by rw [file?, free.none]
  have created := changes_insert_file wf [] (.inl free)
  have empty : node? (t.insert src (.file [])) src = some (.file []) := by
    rw [node?_insert free.inner, if_pos rfl]
  have filled : Changes t [] (Function.update t.file? src (some bytes))
      ((t.insert src (.file [])).insert src (.file bytes)) := by
    have both := created.trans (changes_insert_file created.wellFormed bytes (.inr ⟨[], empty⟩))
    rw [created.files_eq, Function.update_idem] at both
    exact both
  have found' := locate_mono filled.kept found
  have staged : node? ((t.insert src (.file [])).insert src (.file bytes)) src = some (.file bytes) := by
    rw [node?_insert free.inner, if_pos rfl]
  have written : attempt (·.write p bytes) (t.insert src (.file [])) =
      (.ok (), (t.insert src (.file [])).insert src (.file bytes)) := by
    rw [attempt, write_eq (locate_mono created.kept found), empty]
  unfold commit fillAndReplace
  rw [bind_apply, written]
  dsimp only
  rcases replaceFile_spec (q := q) filled.wellFormed found' staged with
    ⟨rejects, t', failed, left_over⟩ | ⟨dst, t', target, no_dir, apart, done, changes⟩
  · left
    refine ⟨fun accepts => rejects ((accepts_iff_of_changes filled).2 accepts), ?_⟩
    rw [failed]
    refine ⟨_, rfl, ?_⟩
    rcases left_over with rfl | rfl
    · exact changes_removeIfPresent_staging free filled found'
    · have erased := changes_erase_file filled.wellFormed staged
      have gone : node? (((t.insert src (.file [])).insert src (.file bytes)).erase src) src =
          Option.none := by
        rw [node?_erase free.inner, if_pos rfl]
      rw [removeIfPresent_none (locate_mono erased.kept found') gone]
      have both := filled.trans erased
      rw [filled.files_eq, Function.update_idem, ← none, Function.update_eq_self] at both
      exact both
  · right
    rw [done]
    obtain ⟨dst', located, no_dir', apart'⟩ := (accepts_iff_of_changes filled).1 ⟨dst, target, no_dir, apart⟩
    have same : dst' = dst := by
      rw [eq_resolve_of_locate located, eq_resolve_of_locate target]
    subst same
    refine ⟨dst', t', located, no_dir', apart', rfl, ?_⟩
    have both := filled.trans changes
    rw [filled.files_eq, Function.update_idem, ← none, Function.update_eq_self] at both
    exact both

/-- The directories that a staged write may make. -/
def stagedDirs (stagingDir target : Path) : List (List String) :=
  passed [] stagingDir.components ++ passed [] target.components.dropLast

/-- Makes the directories of a staged write, which come first. -/
def makePlaces (stagingDir target : Path) : Disk Unit := do
  makeDirs stagingDir
  makeParent target

theorem writeStaged_eq (stagingDir staging target : Path) (bytes : List UInt8) :
    writeStaged stagingDir staging target bytes t =
      match makePlaces stagingDir target t with
      | (.error e, t₁) => (.error e, t₁)
      | (.ok (), t₁) =>
        match createStaging staging t₁ with
        | (.error e, t₂) => (.error e, t₂)
        | (.ok (), t₂) => commit staging target bytes t₂ := by
  rw [writeStaged, makePlaces, bind_apply, bind_apply]
  rcases makeDirs stagingDir t with ⟨e | u, t₁⟩
  · rfl
  · dsimp only
    rw [bind_apply]
    rcases makeParent target t₁ with ⟨e | u, t₂⟩
    · rfl
    · dsimp only
      rw [bind_apply]
      rcases createStaging staging t₂ with ⟨e | u, t₃⟩ <;> rfl

theorem makePlaces_spec (wf : t.WellFormed) (stagingDir target : Path) :
    Changes t (stagedDirs stagingDir target) t.file? (makePlaces stagingDir target t).2 ∧
      ∀ e, (makePlaces stagingDir target t).1 = .error e → e = .file := by
  rw [makePlaces, bind_apply]
  obtain ⟨first, -⟩ := makeDirsAlong_spec wf stagingDir.components
  have first_error := @makeDirsAlong_error t stagingDir.components
  rcases made : makeDirs stagingDir t with ⟨e | u, t₁⟩
  · rw [show makeDirsAlong stagingDir.components t = _ from made] at first first_error
    exact ⟨first.mono fun l hl => .inr (List.mem_append_left _ hl), fun e' failed => first_error failed⟩
  · rw [show makeDirsAlong stagingDir.components t = _ from made] at first
    obtain ⟨second, -⟩ := makeDirsAlong_spec first.wellFormed target.components.dropLast
    rw [first.files_eq] at second
    exact ⟨first.trans second, fun e failed => makeDirsAlong_error failed⟩

/-- How a staged write ends, by the first obstacle that it meets. -/
inductive Outcome (stagingDir staging target : Path) (bytes : List UInt8) (t : FileTree) :
    Except StoreError Unit → FileTree → Prop
  /-- A directory cannot be made. -/
  | unplaced {t₁ : FileTree} (places : makePlaces stagingDir target t = (.error .file, t₁)) :
      Outcome stagingDir staging target bytes t (.error .file) t₁
  /-- Something is in the place of the staging file. -/
  | taken {t₁ : FileTree} (places : makePlaces stagingDir target t = (.ok (), t₁))
      (there : t₁.has staging = true) :
      Outcome stagingDir staging target bytes t (.error (.concurrentWrite staging.text)) t₁
  /-- The staging file has no place, or cannot take that of the target, and is gone again. -/
  | obstructed {t₁ t' : FileTree} (places : makePlaces stagingDir target t = (.ok (), t₁))
      (absent : t₁.has staging = false)
      (obstacle : ∀ src, t₁.locate staging = .ok src → ¬Accepts t₁ target src)
      (restored : Changes t₁ [] t₁.file? t') :
      Outcome stagingDir staging target bytes t (.error .file) t'
  /-- The staging file has taken the place of the target. -/
  | written {t₁ t' : FileTree} {src dst : List String}
      (places : makePlaces stagingDir target t = (.ok (), t₁)) (absent : t₁.has staging = false)
      (staged : t₁.locate staging = .ok src) (located : t₁.locate target = .ok dst)
      (no_dir : t₁.node? dst ≠ some .dir) (apart : dst ≠ src)
      (replaced : Changes t₁ [] (Function.update t₁.file? dst (some bytes)) t') :
      Outcome stagingDir staging target bytes t (.ok ()) t'

/-- **How a staged write ends.** -/
theorem writeStaged_outcome (wf : t.WellFormed) (stagingDir staging target : Path) (bytes : List UInt8) :
    Outcome stagingDir staging target bytes t (writeStaged stagingDir staging target bytes t).1
      (writeStaged stagingDir staging target bytes t).2 := by
  obtain ⟨changes, placed⟩ := makePlaces_spec wf stagingDir target
  rw [writeStaged_eq]
  rcases places : makePlaces stagingDir target t with ⟨e | u, t₁⟩
  · rw [places] at placed
    cases placed e rfl
    exact .unplaced places
  rw [places] at changes
  dsimp only at changes ⊢
  rcases createStaging_spec changes.wellFormed staging with
    ⟨there, failed⟩ | ⟨absent, ⟨lost, failed⟩ | ⟨src, staged, free, created⟩⟩
  · rw [failed]
    exact .taken places there
  · rw [failed]
    exact .obstructed places absent (fun src found => absurd found (lost src)) (.refl changes.wellFormed)
  · rw [created]
    dsimp only
    rcases commit_spec (q := target) changes.wellFormed staged free bytes with
      ⟨rejects, t', failed, restored⟩ | ⟨dst, t', located, no_dir, apart, done, replaced⟩
    · rw [failed]
      refine .obstructed places absent (fun src' found => ?_) restored
      rw [staged] at found
      cases found
      exact rejects
    · rw [done]
      exact .written places absent staged located no_dir apart replaced

/-- **A staged write replaces its target or changes no file.** -/
theorem writeStaged_spec (wf : t.WellFormed) (stagingDir staging target : Path) (bytes : List UInt8) :
    (∃ e t', writeStaged stagingDir staging target bytes t = (.error e, t') ∧
      Changes t (stagedDirs stagingDir target) t.file? t') ∨
    ∃ loc t', t'.locate target = .ok loc ∧
      writeStaged stagingDir staging target bytes t = (.ok (), t') ∧
      Changes t (stagedDirs stagingDir target) (Function.update t.file? loc (some bytes)) t' := by
  have outcome := writeStaged_outcome wf stagingDir staging target bytes
  have changes := (makePlaces_spec wf stagingDir target).1
  generalize writeStaged stagingDir staging target bytes t = ending at outcome ⊢
  obtain ⟨result, t'⟩ := ending
  dsimp only at outcome
  cases outcome with
  | unplaced places =>
    rw [places] at changes
    exact .inl ⟨_, t', rfl, changes⟩
  | taken places there =>
    rw [places] at changes
    exact .inl ⟨_, t', rfl, changes⟩
  | obstructed places absent obstacle restored =>
    rw [places] at changes
    have both := changes.trans restored
    rw [changes.files_eq, List.append_nil] at both
    exact .inl ⟨_, t', rfl, both⟩
  | @written t₁ _ src dst places absent staged located no_dir apart replaced =>
    rw [places] at changes
    have both := changes.trans replaced
    rw [changes.files_eq, List.append_nil] at both
    exact .inr ⟨dst, t', locate_mono replaced.kept located, rfl, both⟩

end Disk

end Datalog
