import Mathlib.Data.List.Induction
import Mathlib.Logic.Function.Basic
import Datalog.Files

/-!
# What file operations do to a tree

A tree is well-formed when every node lies in a directory. Where a path leads depends on its components
alone (`FileTree.resolve`), and whether it leads there depends on the directories of the tree
(`FileTree.locate_mono`). What an operation does is said by what becomes of the files, as a function of
their locations, and of the directories (`FileTree.Changes`).
-/

namespace Datalog.FileTree

variable {t t' t'' : FileTree} {loc l : List String} {n : Node}

/-! ### Nodes and files -/

/-- Every node lies in a directory. -/
def WellFormed (t : FileTree) : Prop :=
  ∀ loc name, t.node? (loc ++ [name]) ≠ none → t.node? loc = some .dir

/-- The bytes of the file at a location. -/
def file? (t : FileTree) (loc : List String) : Option (List UInt8) :=
  match t.node? loc with
  | some (.file bytes) => some bytes
  | _ => none

theorem file?_eq_some_iff {bytes : List UInt8} :
    t.file? loc = some bytes ↔ t.node? loc = some (.file bytes) := by
  unfold file?
  cases t.node? loc with
  | none => simp
  | some n => cases n <;> simp

theorem file?_of_node? (h : t.node? loc = t'.node? l) : t.file? loc = t'.file? l := by
  rw [file?, h]
  rfl

@[simp] theorem node?_nil (t : FileTree) : t.node? [] = some .dir := rfl

theorem node?_insert (inner : loc ≠ []) :
    node? (t.insert loc n) l = if l = loc then some n else t.node? l := by
  unfold node?
  by_cases root : l = []
  · rw [if_pos root, if_pos root, if_neg]
    exact fun same => inner (same ▸ root)
  · rw [if_neg root, if_neg root, SortedMap.get?_insert]
    exact if_congr Std.LawfulEqCmp.compare_eq_iff_eq rfl rfl

theorem node?_erase (inner : loc ≠ []) :
    node? (t.erase loc) l = if l = loc then none else t.node? l := by
  unfold node?
  by_cases root : l = []
  · rw [if_pos root, if_pos root, if_neg]
    exact fun same => inner (same ▸ root)
  · rw [if_neg root, if_neg root, SortedMap.get?_erase]
    exact if_congr (Std.LawfulEqCmp.compare_eq_iff_eq.trans eq_comm) rfl rfl

/-- A location with something below it is a directory. -/
theorem WellFormed.dir_of_below (wf : t.WellFormed) {rest : List String} (below : rest ≠ [])
    (h : t.node? (loc ++ rest) ≠ none) : t.node? loc = some .dir := by
  induction rest using List.reverseRecOn with
  | nil => exact absurd rfl below
  | append_singleton rest name ih =>
    rw [← List.append_assoc] at h
    have parent := wf _ _ h
    by_cases last : rest = []
    · rwa [last, List.append_nil] at parent
    · exact ih last (by rw [parent]; exact nofun)

theorem WellFormed.dropLast (wf : t.WellFormed) (h : t.node? loc = some .dir) :
    t.node? loc.dropLast = some .dir := by
  cases loc using List.reverseRecOn with
  | nil => rfl
  | append_singleton front name =>
    rw [List.dropLast_concat]
    exact wf front name (by rw [h]; exact nofun)

/-- Nothing lies below a file. -/
theorem WellFormed.none_below_file (wf : t.WellFormed) {bytes : List UInt8}
    (h : t.node? loc = some (.file bytes)) {rest : List String} (below : rest ≠ []) :
    t.node? (loc ++ rest) = none := by
  by_contra some_node
  rw [wf.dir_of_below below some_node] at h
  cases h

/-- Well-formedness is a matter of the nodes that a tree lists. -/
theorem wellFormed_iff : t.WellFormed ↔ ∀ e ∈ t.toList, t.node? e.1.dropLast = some .dir := by
  constructor
  · rintro wf ⟨loc, n⟩ listed
    cases loc using List.reverseRecOn with
    | nil => rfl
    | append_singleton loc name =>
      rw [List.dropLast_concat]
      refine wf loc name ?_
      rw [node?, if_neg (by simp), SortedMap.mem_toList_iff.1 listed]
      exact nofun
  · intro all loc name there
    rw [node?, if_neg (by simp)] at there
    obtain ⟨n, found⟩ := Option.ne_none_iff_exists'.1 there
    have parent := all _ (SortedMap.mem_toList_iff.2 found)
    rwa [List.dropLast_concat] at parent

instance (t : FileTree) : Decidable t.WellFormed := decidable_of_iff _ wellFormed_iff.symm

theorem file?_eq_none (dirs : ∀ e ∈ t.toList, e.2 = .dir) (loc : List String) : t.file? loc = none := by
  cases found : t.file? loc with
  | none => rfl
  | some bytes =>
    have node := file?_eq_some_iff.1 found
    by_cases root : loc = []
    · rw [root] at node
      cases node
    · rw [node?, if_neg root] at node
      cases dirs _ (SortedMap.mem_toList_iff.2 node)

/-! ### Changes of a tree -/

/-- What becomes of a tree: directories stay, those that are new are among `dirs`, and the files are
`files`. -/
structure Changes (t : FileTree) (dirs : List (List String))
    (files : List String → Option (List UInt8)) (t' : FileTree) : Prop where
  wellFormed : t'.WellFormed
  kept : ∀ l, t.node? l = some .dir → t'.node? l = some .dir
  fresh : ∀ l, t'.node? l = some .dir → t.node? l = some .dir ∨ l ∈ dirs
  files_eq : t'.file? = files

theorem Changes.refl (wf : t.WellFormed) : Changes t [] t.file? t :=
  ⟨wf, fun _ => id, fun _ => .inl, rfl⟩

theorem Changes.trans {dirs dirs' : List (List String)} {files files' : List String → Option (List UInt8)}
    (first : Changes t dirs files t') (second : Changes t' dirs' files' t'') :
    Changes t (dirs ++ dirs') files' t'' := by
  refine ⟨second.wellFormed, fun l h => second.kept l (first.kept l h), fun l h => ?_, second.files_eq⟩
  rw [List.mem_append]
  rcases second.fresh l h with old | new
  · exact (first.fresh l old).imp id .inl
  · exact .inr (.inr new)

theorem Changes.mono {dirs dirs' : List (List String)} {files : List String → Option (List UInt8)}
    (h : Changes t dirs files t') (more : ∀ l ∈ dirs, t.node? l = some .dir ∨ l ∈ dirs') :
    Changes t dirs' files t' :=
  ⟨h.wellFormed, h.kept, fun l hl => (h.fresh l hl).elim .inl (more l), h.files_eq⟩

/-- Where no file changes, all that was there stays. -/
theorem Changes.node?_eq {dirs : List (List String)} (h : Changes t dirs t.file? t')
    (there : t.node? loc ≠ none) : t'.node? loc = t.node? loc := by
  obtain ⟨n, node⟩ := Option.ne_none_iff_exists'.1 there
  rw [node]
  cases n with
  | dir => exact h.kept loc node
  | file bytes => rw [← file?_eq_some_iff, h.files_eq, file?_eq_some_iff, node]

/-- Nothing appears where no directory is made and no file put. -/
theorem Changes.node?_eq_none {dirs : List (List String)} {files : List String → Option (List UInt8)}
    (h : Changes t dirs files t') (nothing : t.node? loc = none) (not_made : loc ∉ dirs)
    (no_file : files loc = none) : t'.node? loc = none := by
  cases after : t'.node? loc with
  | none => rfl
  | some n =>
    cases n with
    | file bytes =>
      rw [← file?_eq_some_iff, h.files_eq, no_file] at after
      cases after
    | dir =>
      have dir := (h.fresh loc after).resolve_right not_made
      rw [nothing] at dir
      cases dir

/-- Where no file changes and no directory is new, nothing changes. -/
theorem Changes.node?_eq_of_not_fresh {dirs : List (List String)} (h : Changes t dirs t.file? t')
    (old : loc ∈ dirs → t.node? loc = some .dir) : t'.node? loc = t.node? loc := by
  cases there : t.node? loc with
  | some n => rw [h.node?_eq (by rw [there]; exact nofun), there]
  | none =>
    have no_file : t.file? loc = none := by rw [file?, there]
    refine h.node?_eq_none there (fun made => ?_) no_file
    have dir := old made
    rw [there] at dir
    cases dir

/-- A location that is new in its directory. -/
structure Free (t : FileTree) (loc : List String) : Prop where
  inner : loc ≠ []
  parent : ∀ front name, loc = front ++ [name] → t.node? front = some .dir
  none : t.node? loc = none

theorem changes_insert_dir (wf : t.WellFormed) (free : t.Free loc) :
    Changes t [loc] t.file? (t.insert loc .dir) := by
  refine ⟨fun l name h => ?_, fun l h => ?_, fun l h => ?_, funext fun l => ?_⟩
  · rw [node?_insert free.inner] at h ⊢
    by_cases here : l = loc
    · rw [if_pos here]
    · rw [if_neg here]
      by_cases there : l ++ [name] = loc
      · exact free.parent l name there.symm
      · rw [if_neg there] at h
        exact wf l name h
  · rw [node?_insert free.inner]
    split
    · rfl
    · exact h
  · rw [node?_insert free.inner] at h
    split at h
    · next same => exact .inr (List.mem_singleton.2 same)
    · exact .inl h
  · unfold file?
    rw [node?_insert free.inner]
    by_cases here : l = loc
    · rw [if_pos here, here, free.none]
    · rw [if_neg here]

/-- A file takes the place of a file, or of nothing. -/
theorem changes_insert_file (wf : t.WellFormed) (bytes : List UInt8)
    (place : t.Free loc ∨ ∃ old, t.node? loc = some (.file old)) :
    Changes t [] (Function.update t.file? loc (some bytes)) (t.insert loc (.file bytes)) := by
  have inner : loc ≠ [] := by
    rcases place with free | ⟨old, file⟩
    · exact free.inner
    · rintro rfl
      cases file
  have no_dir : t.node? loc ≠ some .dir := by
    rcases place with free | ⟨old, file⟩
    · rw [free.none]
      exact nofun
    · rw [file]
      exact nofun
  have parent : ∀ front name, loc = front ++ [name] → t.node? front = some .dir := by
    rcases place with free | ⟨old, file⟩
    · exact free.parent
    · rintro front name rfl
      exact wf front name (by rw [file]; exact nofun)
  have none_below (l : List String) (name : String) (h : l = loc) : t.node? (l ++ [name]) = none := by
    by_contra some_node
    exact no_dir (h ▸ wf l name some_node)
  refine ⟨fun l name h => ?_, fun l h => ?_, fun l h => ?_, funext fun l => ?_⟩
  · rw [node?_insert inner] at h ⊢
    by_cases there : l ++ [name] = loc
    · have apart : l ≠ loc := fun same => by
        have lengths := congrArg List.length (there.trans same.symm)
        simp at lengths
      rw [if_neg apart]
      exact parent l name there.symm
    · rw [if_neg there] at h
      by_cases here : l = loc
      · exact absurd (none_below l name here) h
      · rw [if_neg here]
        exact wf l name h
  · rw [node?_insert inner, if_neg]
    · exact h
    · rintro rfl
      exact no_dir h
  · rw [node?_insert inner] at h
    split at h
    · cases h
    · exact .inl h
  · unfold file?
    rw [node?_insert inner]
    by_cases here : l = loc
    · rw [if_pos here, here, Function.update_self]
    · rw [if_neg here, Function.update_of_ne here]

theorem changes_erase_file (wf : t.WellFormed) {bytes : List UInt8}
    (file : t.node? loc = some (.file bytes)) :
    Changes t [] (Function.update t.file? loc none) (t.erase loc) := by
  have inner : loc ≠ [] := by
    rintro rfl
    cases file
  refine ⟨fun l name h => ?_, fun l h => ?_, fun l h => ?_, funext fun l => ?_⟩
  · rw [node?_erase inner] at h ⊢
    split at h
    · exact absurd rfl h
    · have parent := wf l name h
      rw [if_neg]
      · exact parent
      · rintro rfl
        rw [file] at parent
        cases parent
  · rw [node?_erase inner, if_neg]
    · exact h
    · rintro rfl
      rw [file] at h
      cases h
  · rw [node?_erase inner] at h
    split at h
    · cases h
    · exact .inl h
  · unfold file?
    rw [node?_erase inner]
    by_cases here : l = loc
    · rw [if_pos here, here, Function.update_self]
    · rw [if_neg here, Function.update_of_ne here]

/-! ### Where paths lead -/

/-- The location of a name within a directory. -/
def next (loc : List String) (name : String) : List String :=
  if name = ".." then loc.dropLast else loc ++ [name]

/-- The location at the end of components. -/
def resolve (loc : List String) (names : List String) : List String := names.foldl next loc

/-- The locations that components lead through. -/
def passed (loc : List String) : List String → List (List String)
  | [] => []
  | name :: names => next loc name :: passed (next loc name) names

theorem eq_next_of_child {name : String} (h : child loc name = .ok l) : l = next loc name := by
  unfold child at h
  unfold next
  split at h
  · next up =>
    cases h
    rw [if_pos up]
  · next down =>
    split at h
    · cases h
    · cases h
      rw [if_neg down]

theorem enter_eq_ok_iff {name : String} :
    t.enter loc name = .ok l ↔ child loc name = .ok l ∧ t.node? l = some .dir := by
  unfold enter
  cases step : child loc name with
  | error e =>
    constructor
    · intro h
      cases h
    · rintro ⟨h, -⟩
      cases h
  | ok l' =>
    simp only [bind, Except.bind]
    split
    · next dir =>
      constructor
      · intro h
        cases h
        exact ⟨rfl, dir⟩
      · rintro ⟨h, -⟩
        exact h
    · next other =>
      refine iff_of_false (fun h => by cases h) ?_
      rintro ⟨h, dir⟩
      cases h
      rw [other] at dir
      cases dir
    · next other =>
      refine iff_of_false (fun h => by cases h) ?_
      rintro ⟨h, dir⟩
      cases h
      rw [other] at dir
      cases dir

theorem walk_cons_eq_ok_iff {name : String} {names : List String} :
    t.walk loc (name :: names) = .ok l ↔
      ∃ l', child loc name = .ok l' ∧ t.node? l' = some .dir ∧ t.walk l' names = .ok l := by
  rw [walk]
  cases step : t.enter loc name with
  | error e =>
    refine iff_of_false (fun h => by cases h) ?_
    rintro ⟨l', found, dir, -⟩
    rw [enter_eq_ok_iff.2 ⟨found, dir⟩] at step
    cases step
  | ok l' =>
    obtain ⟨found, dir⟩ := enter_eq_ok_iff.1 step
    constructor
    · intro h
      exact ⟨l', found, dir, h⟩
    · rintro ⟨l'', found', -, h⟩
      rw [found] at found'
      cases found'
      exact h

/-- A walk ends where its components lead, at a directory. -/
theorem of_walk {names : List String} (h : t.walk loc names = .ok l) :
    l = resolve loc names ∧ (t.node? loc = some .dir → t.node? l = some .dir) ∧
      ∀ l' ∈ passed loc names, t.node? l' = some .dir := by
  induction names generalizing loc with
  | nil =>
    cases h
    exact ⟨rfl, id, by simp [passed]⟩
  | cons name names ih =>
    obtain ⟨l', found, dir, rest⟩ := walk_cons_eq_ok_iff.1 h
    obtain ⟨same, ends, through⟩ := ih rest
    rw [eq_next_of_child found] at same dir through ends
    exact ⟨same, fun _ => ends dir, List.forall_mem_cons.2 ⟨dir, through⟩⟩

theorem walk_append {names names' : List String} :
    t.walk loc (names ++ names') = .ok l ↔
      ∃ l', t.walk loc names = .ok l' ∧ t.walk l' names' = .ok l := by
  induction names generalizing loc with
  | nil => simp [walk]
  | cons name names ih =>
    simp only [List.cons_append, walk_cons_eq_ok_iff, ih]
    constructor
    · rintro ⟨l₁, found, dir, l₂, first, rest⟩
      exact ⟨l₂, ⟨l₁, found, dir, first⟩, rest⟩
    · rintro ⟨l₂, ⟨l₁, found, dir, first⟩, rest⟩
      exact ⟨l₁, found, dir, l₂, first, rest⟩

/-- A walk works as well with more directories. -/
theorem walk_mono (kept : ∀ l, t.node? l = some .dir → t'.node? l = some .dir) {names : List String}
    (h : t.walk loc names = .ok l) : t'.walk loc names = .ok l := by
  induction names generalizing loc with
  | nil => exact h
  | cons name names ih =>
    obtain ⟨l', found, dir, rest⟩ := walk_cons_eq_ok_iff.1 h
    exact walk_cons_eq_ok_iff.2 ⟨l', found, kept l' dir, ih rest⟩

/-- How a path is located. -/
theorem locate_eq_ok_iff {p : Path} :
    t.locate p = .ok loc ↔ p.isValid = true ∧ Path.isTooLong p.components = false ∧
      (p.endsInDirectory = true ∧ t.walk [] p.components = .ok loc ∨
        p.endsInDirectory = false ∧
          (p.components = [] ∧ loc = [] ∨
            ∃ names name parent, p.components = names ++ [name] ∧ t.walk [] names = .ok parent ∧
              child parent name = .ok loc)) := by
  unfold locate
  cases valid : p.isValid with
  | false => simp
  | true =>
    cases long : Path.isTooLong p.components with
    | true => simp
    | false =>
      cases ends : p.endsInDirectory with
      | true => simp
      | false =>
        simp only [Bool.not_true, Bool.or_self, Bool.false_eq_true, if_false, true_and, false_and,
          false_or]
        cases components : p.components using List.reverseRecOn with
        | nil =>
          constructor
          · intro h
            cases h
            exact .inl ⟨rfl, rfl⟩
          · rintro (⟨-, rfl⟩ | ⟨names, name, parent, h, -⟩)
            · rfl
            · simp at h
        | append_singleton names name =>
          rw [List.getLast?_concat, List.dropLast_concat]
          dsimp only
          cases walked : t.walk [] names with
          | error e =>
            refine iff_of_false (fun h => by cases h) ?_
            rintro (⟨h, -⟩ | ⟨names', name', parent, h, h', -⟩)
            · simp at h
            · obtain ⟨rfl, same⟩ := List.append_inj' h rfl
              rw [walked] at h'
              cases h'
          | ok parent =>
            constructor
            · intro h
              exact .inr ⟨names, name, parent, rfl, walked, h⟩
            · rintro (⟨h, -⟩ | ⟨names', name', parent', h, h', found⟩)
              · simp at h
              · obtain ⟨rfl, same⟩ := List.append_inj' h rfl
                cases same
                rw [walked] at h'
                cases h'
                exact found

/-- A path is located by its directories. -/
theorem locate_mono (kept : ∀ l, t.node? l = some .dir → t'.node? l = some .dir) {p : Path}
    (h : t.locate p = .ok loc) : t'.locate p = .ok loc := by
  rw [locate_eq_ok_iff] at h ⊢
  obtain ⟨valid, short, ⟨ends, walked⟩ | ⟨ends, root | ⟨names, name, parent, parts, walked, found⟩⟩⟩ := h
  · exact ⟨valid, short, .inl ⟨ends, walk_mono kept walked⟩⟩
  · exact ⟨valid, short, .inr ⟨ends, .inl root⟩⟩
  · exact ⟨valid, short, .inr ⟨ends, .inr ⟨names, name, parent, parts, walk_mono kept walked, found⟩⟩⟩

theorem child_ne_alreadyExists {name : String} : child loc name ≠ .error .alreadyExists := by
  unfold child
  split
  · exact nofun
  · split <;> exact nofun

theorem walk_ne_alreadyExists {names : List String} : t.walk loc names ≠ .error .alreadyExists := by
  induction names generalizing loc with
  | nil => exact nofun
  | cons name names ih =>
    rw [walk, enter]
    cases step : child loc name with
    | error e =>
      intro failed
      cases failed
      exact child_ne_alreadyExists step
    | ok l =>
      simp only [bind, Except.bind]
      cases t.node? l with
      | none => exact nofun
      | some n =>
        cases n with
        | file bytes => exact nofun
        | dir => exact ih

/-- What stands at the end of a path does not matter for its location. -/
theorem locate_ne_alreadyExists {p : Path} : t.locate p ≠ .error .alreadyExists := by
  unfold locate
  split
  · exact nofun
  · split
    · exact walk_ne_alreadyExists
    · split
      · exact nofun
      · next name _ =>
        cases walked : t.walk [] p.components.dropLast with
        | error e =>
          intro failed
          cases failed
          exact walk_ne_alreadyExists walked
        | ok parent => exact child_ne_alreadyExists

/-- A path leads where its components do. -/
theorem eq_resolve_of_locate {p : Path} (h : t.locate p = .ok loc) : loc = resolve [] p.components := by
  obtain ⟨-, -, ⟨-, walked⟩ | ⟨-, ⟨none, root⟩ | ⟨names, name, parent, parts, walked, found⟩⟩⟩ :=
    locate_eq_ok_iff.1 h
  · exact (of_walk walked).1
  · rw [none, root]
    rfl
  · rw [parts, resolve, List.foldl_append, eq_next_of_child found, (of_walk walked).1]
    rfl

/-- A path that leads to nothing leads to a free place in a directory. -/
theorem free_of_locate (wf : t.WellFormed) {p : Path} (h : t.locate p = .ok loc)
    (none : t.node? loc = none) : t.Free loc := by
  have no_dir : t.node? loc ≠ some .dir := by
    rw [none]
    exact nofun
  obtain ⟨-, -, ⟨-, walked⟩ | ⟨-, ⟨-, root⟩ | ⟨names, name, parent, -, walked, found⟩⟩⟩ :=
    locate_eq_ok_iff.1 h
  · exact absurd ((of_walk walked).2.1 rfl) no_dir
  · rw [root] at no_dir
    exact absurd rfl no_dir
  · have dir := (of_walk walked).2.1 rfl
    unfold child at found
    split at found
    · cases found
      exact absurd (wf.dropLast dir) no_dir
    · split at found
      · cases found
      · cases found
        refine ⟨by simp, fun front name' same => ?_, none⟩
        obtain ⟨rfl, -⟩ := List.append_inj' same rfl
        exact dir

/-! ### Operations on the node that a path leads to -/

section Located

variable {p : Path} (found : t.locate p = .ok loc)

include found

theorem createNew_eq : t.createNew p =
    match t.node? loc with
    | some _ => .error .alreadyExists
    | none => .ok (t.insert loc (.file [])) := by
  rw [createNew, found]
  rfl

theorem write_eq (bytes : List UInt8) : t.write p bytes =
    match t.node? loc with
    | some .dir => .error .other
    | _ => .ok (t.insert loc (.file bytes)) := by
  rw [write, found]
  rfl

theorem removeFile_eq : t.removeFile p =
    match t.node? loc with
    | some (.file _) => .ok (t.erase loc)
    | some .dir => .error .other
    | none => .error .notFound := by
  rw [removeFile, found]
  rfl

theorem find_eq : t.find p =
    match t.node? loc with
    | some n => .ok n
    | none => .error .notFound := by
  rw [find, found]
  rfl

theorem read_eq : t.read p =
    match t.node? loc with
    | some (.file bytes) => .ok bytes
    | some .dir => .error .other
    | none => .error .notFound := by
  rw [read, find_eq found]
  cases t.node? loc with
  | none => rfl
  | some n => cases n <;> rfl

end Located

/-- What a path finds stands where it leads. -/
theorem find_eq_ok_iff {p : Path} {n : Node} :
    t.find p = .ok n ↔ ∃ loc, t.locate p = .ok loc ∧ t.node? loc = some n := by
  cases found : t.locate p with
  | error e =>
    have lost : t.find p = .error e := by
      rw [find, found]
      rfl
    simp [lost]
  | ok loc =>
    rw [find_eq found]
    cases node : t.node? loc <;> simp [node]

/-- What is there has a location. -/
theorem locate_of_has {p : Path} (there : t.has p = true) :
    ∃ loc, t.locate p = .ok loc ∧ t.node? loc ≠ none := by
  cases found : t.locate p with
  | error e =>
    rw [has, find, found] at there
    cases there
  | ok loc =>
    refine ⟨loc, rfl, fun none => ?_⟩
    rw [has, find_eq found, none] at there
    cases there

/-- Where a path finds nothing, nothing is. -/
theorem node?_eq_none_of_has {p : Path} (found : t.locate p = .ok loc) (absent : t.has p = false) :
    t.node? loc = none := by
  rw [has, find_eq found] at absent
  cases node : t.node? loc with
  | none => rfl
  | some n =>
    rw [node] at absent
    cases absent

/-! ### Making directories -/

/-- Making directories adds some of those on the way, and nothing else; when it succeeds, all of them
are there. -/
theorem makeDirsFrom_spec (wf : t.WellFormed) (dir : t.node? loc = some .dir) (names : List String) :
    Changes t (passed loc names) t.file? (t.makeDirsFrom loc names).2 ∧
      ((t.makeDirsFrom loc names).1 = .ok () →
        (t.makeDirsFrom loc names).2.walk loc names = .ok (resolve loc names)) := by
  induction names generalizing t loc with
  | nil => exact ⟨.refl wf, fun _ => rfl⟩
  | cons name names ih =>
    rw [makeDirsFrom]
    cases found : child loc name with
    | error e => exact ⟨(Changes.refl wf).mono (by simp), fun h => by cases h⟩
    | ok l =>
      have same := eq_next_of_child found
      dsimp only
      cases node : t.node? l with
      | some n =>
        cases n with
        | file bytes => exact ⟨(Changes.refl wf).mono (by simp), fun h => by cases h⟩
        | dir =>
          obtain ⟨changes, walks⟩ := ih wf node
          rw [passed, ← same]
          refine ⟨changes.mono fun l' hl' => .inr (List.mem_cons_of_mem _ hl'), fun ok => ?_⟩
          refine walk_cons_eq_ok_iff.2 ⟨l, found, changes.kept l node, ?_⟩
          rw [show resolve loc (name :: names) = resolve (next loc name) names from rfl, ← same]
          exact walks ok
      | none =>
        have free : t.Free l := by
          unfold child at found
          split at found
          · cases found
            rw [wf.dropLast dir] at node
            cases node
          · split at found
            · cases found
            · cases found
              refine ⟨by simp, fun front name' same => ?_, node⟩
              obtain ⟨rfl, -⟩ := List.append_inj' same rfl
              exact dir
        have made := changes_insert_dir wf free
        have made_dir : node? (t.insert l .dir) l = some .dir := by
          rw [node?_insert free.inner, if_pos rfl]
        obtain ⟨changes, walks⟩ := ih made.wellFormed made_dir
        rw [made.files_eq] at changes
        rw [passed, ← same]
        refine ⟨made.trans changes, fun ok => ?_⟩
        refine walk_cons_eq_ok_iff.2 ⟨l, found, changes.kept l made_dir, ?_⟩
        rw [show resolve loc (name :: names) = resolve (next loc name) names from rfl, ← same]
        exact walks ok

/-! ### Renaming -/

theorem get?_foldl_insert_of_ne {g : List String → List String} {es : List (List String × Node)}
    (other : ∀ e ∈ es, g e.1 ≠ l) (base : FileTree) :
    (es.foldl (fun t e => t.insert (g e.1) e.2) base).get? l = base.get? l := by
  induction es generalizing base with
  | nil => rfl
  | cons e es ih =>
    obtain ⟨first, others⟩ := List.forall_mem_cons.1 other
    rw [List.foldl_cons, ih others, SortedMap.get?_insert_of_ne (Ne.symm first)]

theorem get?_foldl_insert_of_mem {g : List String → List String} {es : List (List String × Node)}
    (same : ∀ e ∈ es, g e.1 = l → e.2 = n) (member : ∃ e ∈ es, g e.1 = l) (base : FileTree) :
    (es.foldl (fun t e => t.insert (g e.1) e.2) base).get? l = some n := by
  induction es generalizing base with
  | nil =>
    obtain ⟨e, he, -⟩ := member
    cases he
  | cons e es ih =>
    obtain ⟨first, others⟩ := List.forall_mem_cons.1 same
    rw [List.foldl_cons]
    by_cases later : ∃ e' ∈ es, g e'.1 = l
    · exact ih others later _
    · obtain ⟨e', he', here⟩ := member
      rcases List.mem_cons.1 he' with rfl | rest
      · rw [get?_foldl_insert_of_ne fun e'' he'' h => later ⟨e'', he'', h⟩, here,
          SortedMap.get?_insert_self, first here]
      · exact absurd ⟨e', rest, here⟩ later

theorem mem_below_iff {e : List String × Node} :
    e ∈ t.below loc ↔ t.get? e.1 = some e.2 ∧ loc <+: e.1 := by
  unfold below
  rw [List.mem_filter, List.isPrefixOf_iff_prefix, ← SortedMap.mem_toList_iff]

theorem node?_eraseTree (inner : loc ≠ []) (l : List String) :
    node? (t.eraseTree loc) l = if loc <+: l then none else t.node? l := by
  by_cases root : l = []
  · subst root
    rw [if_neg fun h => inner (List.prefix_nil.1 h)]
    rfl
  · unfold node? eraseTree
    rw [if_neg root, if_neg root, SortedMap.get?_filter]
    by_cases within : loc <+: l
    · rw [if_pos within]
      cases t.get? l <;> simp [Option.filter, List.isPrefixOf_iff_prefix.2 within]
    · have outside : loc.isPrefixOf l = false := by
        rw [← Bool.not_eq_true, List.isPrefixOf_iff_prefix]
        exact within
      rw [if_neg within]
      cases t.get? l <;> simp [Option.filter, outside]

/-- Moving puts what is at and below one location at another that has nothing below it. -/
theorem node?_move {src dst : List String} (inner : src ≠ []) (inner' : dst ≠ [])
    (empty : ∀ rest ≠ [], t.node? (dst ++ rest) = none) (l : List String) :
    node? (t.move src dst) l =
      if dst <+: l then t.node? (src ++ l.drop dst.length)
      else if src <+: l then none else t.node? l := by
  have moved {e : List String × Node} (he : e ∈ t.below src) :
      ∃ rest, e.1 = src ++ rest ∧ dst ++ e.1.drop src.length = dst ++ rest := by
    obtain ⟨rest, h⟩ := (mem_below_iff.1 he).2
    exact ⟨rest, h.symm, by rw [← h, List.drop_left]⟩
  by_cases root : l = []
  · subst root
    rw [if_neg fun h => inner' (List.prefix_nil.1 h), if_neg fun h => inner (List.prefix_nil.1 h)]
    rfl
  have base : node? ((t.eraseTree src).erase dst) l =
      if l = dst then none else if src <+: l then none else t.node? l := by
    rw [node?_erase inner', node?_eraseTree inner]
  have at_l : node? (t.move src dst) l = (t.move src dst).get? l := if_neg root
  have at_base : node? ((t.eraseTree src).erase dst) l = ((t.eraseTree src).erase dst).get? l :=
    if_neg root
  rw [at_l, move]
  by_cases target : dst <+: l
  · obtain ⟨rest, rfl⟩ := target
    rw [if_pos (List.prefix_append _ _), List.drop_left]
    have source : t.node? (src ++ rest) = t.get? (src ++ rest) := if_neg (by simp [inner])
    cases node : t.node? (src ++ rest) with
    | some n =>
      refine get?_foldl_insert_of_mem (g := fun k => dst ++ k.drop src.length) (fun e he same => ?_)
        ⟨(src ++ rest, n), mem_below_iff.2 ⟨source.symm.trans node, List.prefix_append _ _⟩,
          by dsimp only; rw [List.drop_left]⟩ _
      obtain ⟨rest', at_e, lands⟩ := moved he
      rw [lands, List.append_cancel_left_eq] at same
      have there := (mem_below_iff.1 he).1
      rw [at_e, same, ← source, node] at there
      exact (Option.some.inj there).symm
    | none =>
      -- Nothing moves here. The node at the target was erased, and nothing lay below it.
      rw [get?_foldl_insert_of_ne (g := fun k => dst ++ k.drop src.length), ← at_base, base]
      · by_cases here : dst ++ rest = dst
        · rw [if_pos here]
        · have below : rest ≠ [] := fun h => here (by rw [h, List.append_nil])
          rw [if_neg here, empty rest below, ite_self]
      · intro e he same
        obtain ⟨rest', at_e, lands⟩ := moved he
        rw [lands, List.append_cancel_left_eq] at same
        have there := (mem_below_iff.1 he).1
        rw [at_e, same, ← source, node] at there
        cases there
  · rw [if_neg target, get?_foldl_insert_of_ne (g := fun k => dst ++ k.drop src.length), ← at_base,
      base, if_neg]
    · exact fun h => target (h ▸ List.prefix_refl _)
    · intro e he same
      obtain ⟨rest', -, lands⟩ := moved he
      exact target (by rw [← same, lands]; exact List.prefix_append _ _)

/-- Moving a file changes the nodes at the two ends. -/
theorem node?_move_file (wf : t.WellFormed) {src dst : List String} {bytes : List UInt8}
    (file : t.node? src = some (.file bytes)) (inner : dst ≠ [])
    (empty : ∀ rest ≠ [], t.node? (dst ++ rest) = none) (l : List String) :
    node? (t.move src dst) l =
      if l = dst then some (.file bytes) else if l = src then none else t.node? l := by
  have inner' : src ≠ [] := by
    rintro rfl
    cases file
  rw [node?_move inner' inner empty]
  by_cases target : dst <+: l
  · obtain ⟨rest, rfl⟩ := target
    rw [if_pos (List.prefix_append _ _), List.drop_left]
    by_cases here : rest = []
    · rw [here, List.append_nil, List.append_nil, if_pos rfl, file]
    · rw [if_neg (by simpa using here), wf.none_below_file file here]
      split
      · rfl
      · exact (empty rest here).symm
  · have elsewhere : l ≠ dst := fun h => target (h ▸ List.prefix_refl _)
    rw [if_neg target, if_neg elsewhere]
    by_cases source : src <+: l
    · obtain ⟨rest, rfl⟩ := source
      rw [if_pos (List.prefix_append _ _)]
      by_cases here : rest = []
      · rw [here, List.append_nil, if_pos rfl]
      · rw [wf.none_below_file file here, ite_self]
    · rw [if_neg source, if_neg fun h : l = src => source (h ▸ List.prefix_refl _)]

/-- A file moves to a place that is free or has a file. -/
theorem changes_move_file (wf : t.WellFormed) {src dst : List String} {bytes : List UInt8}
    (file : t.node? src = some (.file bytes))
    (place : t.Free dst ∨ ∃ old, t.node? dst = some (.file old)) :
    Changes t [] (Function.update (Function.update t.file? src none) dst (some bytes))
      (t.move src dst) := by
  have no_dir : t.node? dst ≠ some .dir := by
    rcases place with free | ⟨old, there⟩
    · rw [free.none]
      exact nofun
    · rw [there]
      exact nofun
  have inner : dst ≠ [] := by
    rintro rfl
    exact no_dir rfl
  have parent : ∀ front name, dst = front ++ [name] → t.node? front = some .dir := by
    rcases place with free | ⟨old, there⟩
    · exact free.parent
    · rintro front name rfl
      exact wf front name (by rw [there]; exact nofun)
  have after := node?_move_file wf file inner fun rest below => by
    by_contra some_node
    exact no_dir (wf.dir_of_below below some_node)
  have unchanged (l : List String) (dir : t.node? l = some .dir) : l ≠ dst ∧ l ≠ src := by
    constructor
    · rintro rfl
      exact no_dir dir
    · rintro rfl
      rw [file] at dir
      cases dir
  refine ⟨fun l name h => ?_, fun l h => ?_, fun l h => ?_, funext fun l => ?_⟩
  · rw [after] at h
    have dir : t.node? l = some .dir := by
      split at h
      · next there => exact parent l name there.symm
      · split at h
        · exact absurd rfl h
        · exact wf l name h
    rw [after, if_neg (unchanged l dir).1, if_neg (unchanged l dir).2]
    exact dir
  · rw [after, if_neg (unchanged l h).1, if_neg (unchanged l h).2]
    exact h
  · rw [after] at h
    split at h
    · cases h
    · split at h
      · cases h
      · exact .inl h
  · unfold file?
    rw [after]
    by_cases here : l = dst
    · rw [if_pos here, here, Function.update_self]
    · rw [if_neg here, Function.update_of_ne here]
      by_cases source : l = src
      · rw [if_pos source, source, Function.update_self]
      · rw [if_neg source, Function.update_of_ne source]

/-- Moving a directory to a place at the same depth changes only files that lie deeper. -/
theorem file?_move_dir (wf : t.WellFormed) {src dst : List String} (inner : src ≠ []) (inner' : dst ≠ [])
    (dir : t.node? src = some .dir) (depth : src.length = dst.length)
    (parent : ∀ front name, dst = front ++ [name] → t.node? front = some .dir)
    (empty : ∀ rest ≠ [], t.node? (dst ++ rest) = none) (no_file : t.file? dst = none) :
    (t.move src dst).WellFormed ∧ ∀ l, l.length ≤ src.length → file? (t.move src dst) l = t.file? l := by
  have after := node?_move (t := t) inner inner' empty
  constructor
  · intro l name h
    rw [after] at h ⊢
    by_cases target : dst <+: l
    · obtain ⟨rest, rfl⟩ := target
      rw [List.append_assoc, if_pos (List.prefix_append _ _), List.drop_left, ← List.append_assoc] at h
      rw [if_pos (List.prefix_append _ _), List.drop_left]
      exact wf _ _ h
    · rw [if_neg target]
      by_cases last : dst <+: l ++ [name]
      · have whole : dst = l ++ [name] := by
          rcases List.prefix_concat_iff.1 last with same | front
          · exact same
          · exact absurd front target
        have outside : ¬src <+: l := fun within => by
          have longer := within.length_le
          rw [depth, whole, List.length_append, List.length_singleton] at longer
          omega
        rw [if_neg outside]
        exact parent l name whole
      · rw [if_neg last] at h
        by_cases source : src <+: l ++ [name]
        · rw [if_pos source] at h
          exact absurd rfl h
        · rw [if_neg source] at h
          rw [if_neg fun front => source (front.trans (List.prefix_append _ _))]
          exact wf l name h
  · intro l short
    by_cases target : dst <+: l
    · have same : dst = l := target.eq_of_length_le (by omega)
      subst same
      have moved : file? (t.move src dst) dst = t.file? src := by
        refine file?_of_node? ?_
        rw [after, if_pos (List.prefix_refl _), List.drop_length, List.append_nil]
      rw [moved, no_file, file?, dir]
    · by_cases source : src <+: l
      · have same : src = l := source.eq_of_length_le short
        subst same
        rw [file?, file?, after, if_neg target, if_pos (List.prefix_refl _), dir]
      · exact file?_of_node? (by rw [after, if_neg target, if_neg source])

theorem rename_eq {p q : Path} {src dst : List String} (source : t.locate p = .ok src)
    (target : t.locate q = .ok dst) :
    t.rename p q =
      match t.node? src, t.node? dst with
      | none, _ => .error .notFound
      | some (.file _), some .dir => .error .other
      | some .dir, some (.file _) => .error .other
      | some .dir, some .dir =>
        if src = dst then .ok t
        else if t.isEmptyDir dst && !src.isPrefixOf dst then .ok (t.move src dst) else .error .other
      | some .dir, none => if src.isPrefixOf dst then .error .other else .ok (t.move src dst)
      | some (.file _), _ => if src = dst then .ok t else .ok (t.move src dst) := by
  rw [rename, source, target]
  rfl

/-- A file is renamed where no directory is. -/
theorem rename_file (wf : t.WellFormed) {p q : Path} {src dst : List String} {bytes : List UInt8}
    (source : t.locate p = .ok src) (target : t.locate q = .ok dst)
    (file : t.node? src = some (.file bytes)) :
    (t.node? dst = some .dir ∧ t.rename p q = .error .other) ∨
      ∃ t', t.rename p q = .ok t' ∧
        Changes t [] (Function.update (Function.update t.file? src none) dst (some bytes)) t' := by
  rw [rename_eq source target, file]
  have moved (place : t.Free dst ∨ ∃ old, t.node? dst = some (.file old)) :
      ∃ t', (if src = dst then Except.ok t else .ok (t.move src dst) : Except FileError FileTree) =
        .ok t' ∧ Changes t [] (Function.update (Function.update t.file? src none) dst (some bytes)) t' := by
    by_cases same : src = dst
    · subst same
      have back : Function.update (Function.update t.file? src none) src (some bytes) = t.file? := by
        rw [Function.update_idem, ← file?_eq_some_iff.2 file, Function.update_eq_self]
      exact ⟨t, if_pos rfl, by rw [back]; exact .refl wf⟩
    · exact ⟨_, if_neg same, changes_move_file wf file place⟩
  cases there : t.node? dst with
  | none => exact .inr (moved (.inl (free_of_locate wf target there)))
  | some n =>
    cases n with
    | dir => exact .inl ⟨rfl, rfl⟩
    | file old => exact .inr (moved (.inr ⟨old, there⟩))

theorem eq_nil_of_isEmptyDir (inner : loc ≠ []) (dir : t.node? loc = some .dir)
    (empty : t.isEmptyDir loc = true) : ∀ rest ≠ [], t.node? (loc ++ rest) = none := by
  intro rest below
  by_contra some_node
  obtain ⟨n, node⟩ := Option.ne_none_iff_exists'.1 some_node
  have self : (loc, Node.dir) ∈ t.below loc := by
    refine mem_below_iff.2 ⟨?_, List.prefix_refl _⟩
    rw [node?, if_neg inner] at dir
    exact dir
  have other : (loc ++ rest, n) ∈ t.below loc := by
    refine mem_below_iff.2 ⟨?_, List.prefix_append _ _⟩
    rw [node?, if_neg (by simp [inner])] at node
    exact node
  have distinct : (loc, Node.dir) ≠ (loc ++ rest, n) := by
    intro same
    exact below (List.self_eq_append_right.1 (Prod.mk.inj same).1)
  have short : (t.below loc).length ≤ 1 := by simpa [isEmptyDir] using empty
  match entries : t.below loc with
  | [] =>
    rw [entries] at self
    cases self
  | [e] =>
    rw [entries, List.mem_singleton] at self other
    exact distinct (self.trans other.symm)
  | _ :: _ :: _ =>
    rw [entries] at short
    simp at short

/-- Renaming a directory at the same depth changes only files that lie deeper. -/
theorem rename_dir (wf : t.WellFormed) {p q : Path} {src dst : List String}
    (source : t.locate p = .ok src) (target : t.locate q = .ok dst) (dir : t.node? src = some .dir)
    (depth : src.length = dst.length) (inner : src ≠ []) (h : t.rename p q = .ok t') :
    t'.WellFormed ∧ ∀ l, l.length ≤ src.length → t'.file? l = t.file? l := by
  have inner' : dst ≠ [] := by
    rintro rfl
    exact inner (List.eq_nil_of_length_eq_zero depth)
  rw [rename_eq source target, dir] at h
  cases there : t.node? dst with
  | none =>
    rw [there] at h
    dsimp only at h
    split at h
    · cases h
    · next apart =>
      cases h
      have free := free_of_locate wf target there
      refine file?_move_dir wf inner inner' dir depth free.parent (fun rest below => ?_)
        (by rw [file?, there])
      by_contra some_node
      rw [wf.dir_of_below below some_node] at there
      cases there
  | some n =>
    rw [there] at h
    cases n with
    | file bytes => cases h
    | dir =>
      dsimp only at h
      split at h
      · cases h
        exact ⟨wf, fun _ _ => rfl⟩
      · next other =>
        split at h
        · next empty =>
          cases h
          rw [Bool.and_eq_true] at empty
          refine file?_move_dir wf inner inner' dir depth ?_ (eq_nil_of_isEmptyDir inner' there empty.1)
            (by rw [file?, there])
          rintro front name rfl
          exact wf front name (by rw [there]; exact nofun)
        · cases h

end Datalog.FileTree
