import Mathlib.Algebra.Group.Nat.Defs
import Datalog.Proofs.FactFileNames
import Datalog.Proofs.FactFiles
import Datalog.Proofs.StagedWrites

/-!
# Where the files of a project lie

The location of a project is where the components of its path lead. A file of the project is reached by
further plain names, and its location is that of the project followed by these names
(`Layout.eq_of_locate`). Whether a path to something that is there can be used depends on the length of
the path and of its names alone (`Layout.Fits`).
-/

namespace Datalog

/-- Splitting splits at every separator, wherever the list is cut. -/
theorem Text.splitOn_append {α : Type} [DecidableEq α] (sep : α) (front back : List α) :
    splitOn sep (front ++ sep :: back) = splitOn sep front ++ splitOn sep back := by
  induction front with
  | nil => simp [splitOn]
  | cons a front ih =>
    obtain ⟨w, ws, pieces⟩ := List.exists_cons_of_ne_nil (splitOn_ne_nil sep front)
    rw [List.cons_append, splitOn, splitOn, ih]
    split
    · rfl
    · rw [pieces]
      rfl

/-- A piece has no separator, and nothing that the list does not have. -/
theorem Text.of_mem_splitOn {α : Type} [DecidableEq α] {sep : α} {l w : List α} (h : w ∈ splitOn sep l) :
    sep ∉ w ∧ ∀ a ∈ w, a ∈ l := by
  induction l generalizing w with
  | nil =>
    rw [splitOn, List.mem_singleton] at h
    simp [h]
  | cons a l ih =>
    obtain ⟨v, vs, pieces⟩ := List.exists_cons_of_ne_nil (splitOn_ne_nil sep l)
    rw [pieces] at ih
    rw [splitOn, pieces] at h
    split at h
    · rcases List.mem_cons.1 h with rfl | later
      · simp
      · exact ⟨(ih later).1, fun b hb => List.mem_cons_of_mem _ ((ih later).2 b hb)⟩
    · next other =>
      rcases List.mem_cons.1 h with rfl | later
      · obtain ⟨clean, within⟩ := ih List.mem_cons_self
        constructor
        · simpa [Ne.symm other] using clean
        · exact List.forall_mem_cons.2
            ⟨List.mem_cons_self, fun b hb => List.mem_cons_of_mem _ (within b hb)⟩
      · obtain ⟨clean, within⟩ := ih (List.mem_cons_of_mem _ later)
        exact ⟨clean, fun b hb => List.mem_cons_of_mem _ (within b hb)⟩

/-! ### Plain names -/

namespace Path

/-- A name that leads one step down. -/
structure PlainName (name : String) : Prop where
  ne_empty : name ≠ ""
  ne_dot : name ≠ "."
  ne_dots : name ≠ ".."
  no_slash : '/' ∉ name.toList
  no_nul : '\x00' ∉ name.toList

/-- A name without slashes is one component, unless it is empty or a single dot. -/
theorem nameComponents_of_no_slash {name : String} (no_slash : '/' ∉ name.toList) :
    nameComponents name = if name = "" ∨ name = "." then [] else [name] := by
  rw [nameComponents, Text.splitOn_of_not_mem no_slash]
  by_cases empty : name = ""
  · simp [empty]
  · by_cases dot : name = "." <;> simp [empty, dot]

theorem nameComponents_of_plain {name : String} (plain : PlainName name) :
    nameComponents name = [name] := by
  rw [nameComponents_of_no_slash plain.no_slash, if_neg (not_or.2 ⟨plain.ne_empty, plain.ne_dot⟩)]

theorem isAbsolute_of_no_slash {name : String} (no_slash : '/' ∉ name.toList) :
    isAbsolute name = false := by
  unfold isAbsolute
  cases chars : name.toList with
  | nil => rfl
  | cons c cs =>
    have other : c ≠ '/' := fun same => no_slash (by rw [chars, same]; exact List.mem_cons_self)
    simpa using other

theorem isAbsolute_of_plain {name : String} (plain : PlainName name) : isAbsolute name = false :=
  isAbsolute_of_no_slash plain.no_slash

/-- Names without slashes lead on from where the path leads. -/
theorem components_append_of_no_slash {p : Path} {names : List String}
    (no_slash : ∀ name ∈ names, '/' ∉ name.toList) :
    (p ++ names).components = p.components ++ names.flatMap nameComponents := by
  induction names generalizing p with
  | nil => simp
  | cons name names ih =>
    obtain ⟨first, others⟩ := List.forall_mem_cons.1 no_slash
    have one : (p ++ [name]).components = p.components ++ nameComponents name := by
      rw [components, List.foldl_append, List.foldl_cons, List.foldl_nil, isAbsolute_of_no_slash first]
      rfl
    rw [List.append_cons, ih others, one, List.append_assoc, List.flatMap_cons]

theorem mem_components {p : Path} {c : String} (h : c ∈ p.components) :
    ∃ name ∈ p, c ∈ nameComponents name := by
  induction p using List.reverseRecOn with
  | nil => cases h
  | append_singleton p name ih =>
    have last : name ∈ p ++ [name] := by simp
    rw [components, List.foldl_append, List.foldl_cons, List.foldl_nil] at h
    have either : c ∈ components p ∨ c ∈ nameComponents name := by
      split at h
      · exact .inr h
      · exact List.mem_append.1 h
    rcases either with before | here
    · obtain ⟨name', hname', found⟩ := ih before
      exact ⟨name', List.mem_append_left _ hname', found⟩
    · exact ⟨name, last, here⟩

/-- A component of a path that can be used is a plain name, unless it leads upward. -/
theorem plain_of_mem_components {p : Path} (valid : p.isValid = true) {c : String}
    (h : c ∈ p.components) (down : c ≠ "..") : PlainName c := by
  obtain ⟨name, hname, found⟩ := mem_components h
  rw [nameComponents, List.mem_filter] at found
  obtain ⟨piece, kept⟩ := found
  obtain ⟨w, hw, rfl⟩ := List.mem_map.1 piece
  obtain ⟨no_slash, within⟩ := Text.of_mem_splitOn hw
  rw [Bool.and_eq_true, decide_eq_true_iff, decide_eq_true_iff] at kept
  refine ⟨kept.1, kept.2, down, by rwa [String.toList_ofList], fun nul => ?_⟩
  rw [String.toList_ofList] at nul
  have chars := List.all_eq_true.1 (List.all_eq_true.1 valid name hname) _ (within _ nul)
  exact of_decide_eq_true chars rfl

theorem isValid_components {p : Path} (valid : p.isValid = true) : Path.isValid p.components = true := by
  refine List.all_eq_true.2 fun c hc => List.all_eq_true.2 fun a ha => decide_eq_true fun nul => ?_
  by_cases up : c = ".."
  · rw [up, nul] at ha
    exact absurd ha (by decide)
  · exact (plain_of_mem_components valid hc up).no_nul (nul ▸ ha)

variable {p : Path} {names : List String} (plain : ∀ name ∈ names, PlainName name)

include plain

theorem components_append : (p ++ names).components = p.components ++ names := by
  have kept : names.flatMap nameComponents = names := by
    induction names with
    | nil => rfl
    | cons name names ih =>
      obtain ⟨first, others⟩ := List.forall_mem_cons.1 plain
      rw [List.flatMap_cons, nameComponents_of_plain first, ih others, List.singleton_append]
  rw [components_append_of_no_slash fun name hname => (plain name hname).no_slash, kept]

theorem isValid_append : (p ++ names).isValid = p.isValid := by
  have valid : names.all (fun name => name.toList.all (· ≠ '\x00')) = true := by
    rw [List.all_eq_true]
    intro name hname
    rw [List.all_eq_true]
    intro c hc
    have other : c ≠ '\x00' := fun same => (plain name hname).no_nul (same ▸ hc)
    simpa using other
  rw [isValid, List.all_append, valid, Bool.and_true]
  rfl

/-- A path to a plain name need not lead to a directory. -/
theorem endsInDirectory_append (some_name : names ≠ []) : (p ++ names).endsInDirectory = false := by
  obtain ⟨front, name, rfl⟩ : ∃ front name, names = front ++ [name] :=
    ⟨_, _, (List.dropLast_append_getLast some_name).symm⟩
  have last := plain name (by simp)
  have piece (left : List Char) :
      (Text.splitOn '/' (left ++ '/' :: name.toList)).getLast? = some name.toList := by
    rw [Text.splitOn_append, Text.splitOn_of_not_mem last.no_slash, List.getLast?_concat]
  have alone : (Text.splitOn '/' name.toList).getLast? = some name.toList := by
    rw [Text.splitOn_of_not_mem last.no_slash]
    rfl
  have ends : (Text.splitOn '/' (p ++ (front ++ [name])).text.toList).getLast? = some name.toList := by
    rw [← List.append_assoc]
    cases before : p ++ front with
    | nil => exact alone
    | cons first rest =>
      have text : Path.text (first :: rest ++ [name]) = joinText (Path.text (first :: rest)) name := by
        rw [List.cons_append, Path.text, Path.text, List.foldl_append]
        rfl
      rw [text, joinText, isAbsolute_of_plain last, if_neg (by simp)]
      split
      · next short =>
        rw [String.toList_append]
        rcases Bool.or_eq_true_iff.1 short with empty | slash
        · rw [String.isEmpty_iff.1 empty]
          exact alone
        · have front : (Path.text (first :: rest)).toList.getLast? = some '/' := by simpa using slash
          rw [← List.dropLast_append_getLast? '/' front, List.append_assoc]
          exact piece _
      · rw [String.toList_append, String.toList_append, List.append_assoc]
        exact piece _
  have ne_empty : name.toList ≠ [] := by simpa using last.ne_empty
  have ne_dot : name.toList ≠ ['.'] := fun same => last.ne_dot (by
    rw [← String.ofList_toList (s := name), same])
  rw [endsInDirectory, ends]
  simp [ne_empty, ne_dot]

end Path

/-! ### Locations of a project -/

namespace FileTree

variable {t : FileTree} {loc l : List String}

theorem next_of_plain {name : String} (plain : Path.PlainName name) : next loc name = loc ++ [name] :=
  if_neg plain.ne_dots

/-- Names that do not lead upward lead down, one by one. -/
theorem resolve_of_down {names : List String} (down : ".." ∉ names) : resolve loc names = loc ++ names := by
  induction names generalizing loc with
  | nil => simp [resolve]
  | cons name names ih =>
    rw [List.mem_cons, not_or] at down
    rw [show resolve loc (name :: names) = resolve (next loc name) names from rfl, next,
      if_neg (Ne.symm down.1), ih down.2, List.append_assoc, List.singleton_append]

theorem resolve_of_plain {names : List String} (plain : ∀ name ∈ names, Path.PlainName name) :
    resolve loc names = loc ++ names :=
  resolve_of_down fun up => (plain _ up).ne_dots rfl

theorem resolve_append (names names' : List String) :
    resolve loc (names ++ names') = resolve (resolve loc names) names' := List.foldl_append

theorem passed_append (names names' : List String) :
    passed loc (names ++ names') = passed loc names ++ passed (resolve loc names) names' := by
  induction names generalizing loc with
  | nil => rfl
  | cons name names ih =>
    rw [List.cons_append, passed, passed, ih]
    rfl

/-- What is passed on the way down lies before the end. -/
theorem of_mem_passed_of_down {names : List String} (down : ".." ∉ names) (h : l ∈ passed loc names) :
    l.length ≤ loc.length + names.length := by
  induction names generalizing loc with
  | nil => cases h
  | cons name names ih =>
    rw [List.mem_cons, not_or] at down
    rw [passed, next, if_neg (Ne.symm down.1)] at h
    rw [List.length_cons]
    rcases List.mem_cons.1 h with rfl | later
    · rw [List.length_append, List.length_singleton]
      omega
    · have shorter := ih down.2 later
      rw [List.length_append, List.length_singleton] at shorter
      omega

theorem child_of_plain {name : String} (plain : Path.PlainName name) :
    child loc name = .ok l ↔ name.utf8ByteSize ≤ maxNameLength ∧ l = loc ++ [name] := by
  rw [child, if_neg plain.ne_dots]
  split
  · next long =>
    refine iff_of_false (fun h => by cases h) ?_
    rintro ⟨short, -⟩
    omega
  · next short =>
    constructor
    · intro h
      cases h
      exact ⟨by omega, rfl⟩
    · rintro ⟨-, rfl⟩
      rfl

/-- Plain names lead to a directory when they are short enough and there is something below. -/
theorem walk_of_plain (wf : t.WellFormed) {names : List String}
    (plain : ∀ name ∈ names, Path.PlainName name)
    (short : ∀ name ∈ names, name.utf8ByteSize ≤ maxNameLength)
    (dir : t.node? (loc ++ names) = some .dir) : t.walk loc names = .ok (loc ++ names) := by
  induction names generalizing loc with
  | nil => rw [walk, List.append_nil]
  | cons name names ih =>
    obtain ⟨first, others⟩ := List.forall_mem_cons.1 plain
    obtain ⟨fits, short⟩ := List.forall_mem_cons.1 short
    rw [List.append_cons] at dir ⊢
    have below : t.node? (loc ++ [name]) = some .dir := by
      by_cases last : names = []
      · rwa [last, List.append_nil] at dir
      · exact wf.dir_of_below last (by rw [dir]; exact Option.some_ne_none _)
    exact walk_cons_eq_ok_iff.2
      ⟨loc ++ [name], (child_of_plain first).2 ⟨fits, rfl⟩, below, ih others short dir⟩

theorem short_of_walk {names : List String} (plain : ∀ name ∈ names, Path.PlainName name)
    (h : t.walk loc names = .ok l) : ∀ name ∈ names, name.utf8ByteSize ≤ maxNameLength := by
  induction names generalizing loc with
  | nil => simp
  | cons name names ih =>
    obtain ⟨first, others⟩ := List.forall_mem_cons.1 plain
    obtain ⟨l', found, -, rest⟩ := walk_cons_eq_ok_iff.1 h
    exact List.forall_mem_cons.2 ⟨((child_of_plain first).1 found).1, ih others rest⟩

end FileTree

namespace Layout

open FileTree

variable {l : Layout} {t : FileTree} {names : List String} {loc : List String}

/-- The location of the project. -/
def root (l : Layout) : List String := resolve [] l.project.components

/-- The project directory is there. -/
structure Present (l : Layout) (t : FileTree) : Prop where
  valid : l.project.isValid = true
  walk : t.walk [] l.project.components = .ok l.root

/-- A path within the project is short enough, and so are its names. -/
structure Fits (l : Layout) (names : List String) : Prop where
  path : Path.isTooLong (l.project.components ++ names) = false
  names : ∀ name ∈ names, name.utf8ByteSize ≤ maxNameLength

theorem Fits.of_append {more : List String} (fits : l.Fits (names ++ more)) : l.Fits names := by
  refine ⟨?_, fun name hname => fits.names name (List.mem_append_left _ hname)⟩
  have sum (cs ds : List String) : cs.foldr (fun c n => c.utf8ByteSize + 1 + n) 0 ≤
      (cs ++ ds).foldr (fun c n => c.utf8ByteSize + 1 + n) 0 := by
    induction cs with
    | nil => exact Nat.zero_le _
    | cons c cs ih => exact Nat.add_le_add_left ih _
  have whole := fits.path
  rw [← List.append_assoc, Path.isTooLong, decide_eq_false_iff_not, Nat.not_lt] at whole
  rw [Path.isTooLong, decide_eq_false_iff_not, Nat.not_lt]
  exact (sum _ _).trans whole

theorem Present.mono {t' : FileTree} (present : l.Present t)
    (kept : ∀ l, t.node? l = some .dir → t'.node? l = some .dir) : l.Present t' :=
  ⟨present.valid, walk_mono kept present.walk⟩

variable (plain : ∀ name ∈ names, Path.PlainName name)

include plain

theorem eq_of_locate (h : t.locate (l.project ++ names) = .ok loc) : loc = l.root ++ names := by
  rw [eq_resolve_of_locate h, Path.components_append plain, resolve_append, resolve_of_plain plain]
  rfl

/-- What a path within the project needs to be located. -/
theorem of_locate (some_name : names ≠ []) (h : t.locate (l.project ++ names) = .ok loc) :
    l.Present t ∧ l.Fits names := by
  have components := Path.components_append (p := l.project) plain
  obtain ⟨valid, short, found⟩ := locate_eq_ok_iff.1 h
  rw [Path.isValid_append plain] at valid
  rw [components] at short found
  rw [Path.endsInDirectory_append plain some_name] at found
  obtain ⟨ends, -⟩ | ⟨-, ⟨none, -⟩ | ⟨front, name, parent, parts, walked, last⟩⟩ := found
  · cases ends
  · exact absurd (List.append_eq_nil_iff.1 none).2 some_name
  · obtain ⟨inner, rfl⟩ : ∃ inner, names = inner ++ [name] := by
      refine ⟨names.dropLast, ?_⟩
      have ends := congrArg List.getLast? parts
      rw [List.getLast?_append_of_ne_nil _ some_name, List.getLast?_concat] at ends
      exact (List.dropLast_append_getLast? name ends).symm
    rw [← List.append_assoc] at parts
    obtain ⟨rfl, -⟩ := List.append_inj' parts rfl
    obtain ⟨root, first, rest⟩ := walk_append.1 walked
    have plain_inner : ∀ n ∈ inner, Path.PlainName n := fun n hn => plain n (List.mem_append_left _ hn)
    have plain_last : Path.PlainName name := plain name (by simp)
    refine ⟨⟨valid, ?_⟩, short, ?_⟩
    · rw [first, (of_walk first).1]
      rfl
    · intro n hn
      rcases List.mem_append.1 hn with before | at_last
      · exact short_of_walk plain_inner rest n before
      · rw [List.mem_singleton.1 at_last]
        exact ((child_of_plain plain_last).1 last).1

/-- A path to something that is there can be used if it fits. -/
theorem locate_of_parent (wf : t.WellFormed) (present : l.Present t) {name : String}
    (plain_last : Path.PlainName name) (fits : l.Fits (names ++ [name]))
    (dir : t.node? (l.root ++ names) = some .dir) :
    t.locate (l.project ++ (names ++ [name])) = .ok (l.root ++ (names ++ [name])) := by
  have plain' : ∀ n ∈ names ++ [name], Path.PlainName n := by
    intro n hn
    rcases List.mem_append.1 hn with before | at_last
    · exact plain n before
    · rw [List.mem_singleton.1 at_last]
      exact plain_last
  rw [locate_eq_ok_iff, Path.isValid_append plain', Path.components_append plain',
    Path.endsInDirectory_append plain' (by simp)]
  refine ⟨present.valid, fits.path, .inr ⟨rfl, .inr
    ⟨l.project.components ++ names, name, l.root ++ names, by simp, ?_, ?_⟩⟩⟩
  · refine walk_append.2 ⟨l.root, present.walk, walk_of_plain wf plain (fun n hn => ?_) dir⟩
    exact fits.names n (List.mem_append_left _ hn)
  · exact (child_of_plain plain_last).2 ⟨fits.names name (by simp), by simp⟩

theorem locate_of_node (wf : t.WellFormed) (present : l.Present t) (some_name : names ≠ [])
    (fits : l.Fits names) (there : t.node? (l.root ++ names) ≠ none) :
    t.locate (l.project ++ names) = .ok (l.root ++ names) := by
  obtain ⟨front, name, rfl⟩ : ∃ front name, names = front ++ [name] :=
    ⟨_, _, (List.dropLast_append_getLast some_name).symm⟩
  rw [← List.append_assoc] at there
  exact locate_of_parent (fun n hn => plain n (List.mem_append_left _ hn)) wf present
    (plain name (by simp)) fits (wf _ _ there)

end Layout

/-! ### The names within a project -/

/-- What a signed numeral is made of. -/
theorem Decimal.of_readSigned? {cs : List Char} {z : Int} (h : readSigned? cs = some z) :
    (∃ c ∈ cs, c.isDigit = true) ∧ ∀ c ∈ cs, c.isDigit = true ∨ c = '+' ∨ c = '-' := by
  have digits {cs : List Char} {n : Nat} (h : readNat? cs = some n) :
      (∃ c ∈ cs, c.isDigit = true) ∧ ∀ c ∈ cs, c.isDigit = true := by
    unfold readNat? at h
    split at h
    · next run =>
      obtain ⟨c, rest, rfl⟩ := List.exists_cons_of_ne_nil run.1
      have all := List.all_eq_true.1 run.2
      exact ⟨⟨c, List.mem_cons_self, all c List.mem_cons_self⟩, all⟩
    · cases h
  have signed {cs : List Char} {n : Nat} (sign : Char) (h : readNat? cs = some n)
      (known : sign = '+' ∨ sign = '-') : (∃ c ∈ sign :: cs, c.isDigit = true) ∧
        ∀ c ∈ sign :: cs, c.isDigit = true ∨ c = '+' ∨ c = '-' := by
    obtain ⟨⟨c, hc, digit⟩, all⟩ := digits h
    refine ⟨⟨c, List.mem_cons_of_mem _ hc, digit⟩, List.forall_mem_cons.2 ⟨.inr known, ?_⟩⟩
    exact fun c hc => .inl (all c hc)
  unfold readSigned? at h
  split at h
  · next cs =>
    obtain ⟨n, read, -⟩ := Option.map_eq_some_iff.1 h
    obtain ⟨m, read, -⟩ := Option.bind_eq_some_iff.1 read
    exact signed '-' read (.inr rfl)
  · obtain ⟨n, read, -⟩ := Option.map_eq_some_iff.1 h
    unfold readUnsigned? at read
    split at read
    · exact signed '+' read (.inl rfl)
    · exact ⟨(digits read).1, fun c hc => .inl ((digits read).2 c hc)⟩

namespace Directory

theorem isPartitionName_toString (location : Int32) :
    isPartitionName (toString location.toInt) = true := by
  rw [isPartitionName, Decimal.readSigned?_toString, Option.any_some, Int32.ofInt_toInt]
  exact decide_eq_true rfl

theorem toString_location_injective {a b : Int32} (same : toString a.toInt = toString b.toInt) :
    a = b := by
  have read := Decimal.readSigned?_toString a.toInt
  rw [same, Decimal.readSigned?_toString] at read
  exact Int32.toInt_inj.1 (Option.some.inj read).symm

theorem plain_of_isPartitionName {name : String} (h : isPartitionName name = true) :
    Path.PlainName name := by
  obtain ⟨z, read, -⟩ := (Option.any_eq_true _ _).1 h
  obtain ⟨⟨d, hd, digit⟩, all⟩ := Decimal.of_readSigned? read
  have lacks {c : Char} (other : ¬(c.isDigit = true ∨ c = '+' ∨ c = '-')) : c ∉ name.toList :=
    fun hc => other (all c hc)
  have differs {s : String} (none : s.toList.any Char.isDigit = false) : name ≠ s := by
    rintro rfl
    rw [List.any_eq_true.2 ⟨d, hd, digit⟩] at none
    cases none
  exact ⟨differs (by decide), differs (by decide), differs (by decide), lacks (by decide), lacks (by decide)⟩

end Directory

/-- A predicate whose facts can be kept in a file. Its symbol is part of a file name; its length in bytes
and the arity fit a machine word. -/
structure Predicate.Storable (p : Predicate) : Prop where
  ne_empty : p.symbol ≠ ""
  no_slash : '/' ∉ p.symbol.toList
  no_nul : '\x00' ∉ p.symbol.toList
  short : (Text.bytes p.symbol).length < 2 ^ 64
  arity : p.arity < UInt64.size

instance (p : Predicate) : Decidable p.Storable :=
  decidable_of_iff (p.symbol ≠ "" ∧ '/' ∉ p.symbol.toList ∧ '\x00' ∉ p.symbol.toList ∧
      (Text.bytes p.symbol).length < 2 ^ 64 ∧ p.arity < UInt64.size)
    ⟨fun ⟨ne_empty, no_slash, no_nul, short, arity⟩ => ⟨ne_empty, no_slash, no_nul, short, arity⟩,
      fun ⟨ne_empty, no_slash, no_nul, short, arity⟩ => ⟨ne_empty, no_slash, no_nul, short, arity⟩⟩

namespace Layout

theorem partitionTable_eq (l : Layout) : l.partitionTable = l.project ++ ["facts", "_predicates"] := by
  rw [partitionTable, factsRoot, List.append_assoc, List.singleton_append]

theorem factFile_eq (l : Layout) (location : Int32) (p : Predicate) :
    l.factFile location p = l.project ++ ["facts", toString location.toInt, factFileName p] := by
  rw [factFile, factsDir, factsRoot, List.append_assoc, List.append_assoc, List.singleton_append,
    List.singleton_append]

theorem toList_factFileName (p : Predicate) : (factFileName p).toList =
    p.symbol.toList ++ '_' :: (Nat.toDigits 10 p.arity ++ ['.', 'j', 's', 'o', 'n', 'l']) := by
  rw [factFileName, String.toList_append, String.toList_append, String.toList_append,
    show toString p.arity = p.arity.repr from rfl, Nat.toList_repr]
  simp [factFileExtension]

theorem length_factFileName (p : Predicate) : 6 < (factFileName p).toList.length := by
  rw [toList_factFileName]
  simp only [List.length_append, List.length_cons, List.length_nil]
  omega

/-- A character in the name of a fact file is in the symbol, unless it is one of the few others. -/
theorem not_mem_factFileName {p : Predicate} {c : Char} (symbol : c ∉ p.symbol.toList)
    (digit : c.isDigit = false) (other : c ∉ ['_', '.', 'j', 's', 'o', 'n', 'l']) :
    c ∉ (factFileName p).toList := by
  rw [toList_factFileName]
  intro hc
  rcases List.mem_append.1 hc with front | back
  · exact symbol front
  · rcases List.mem_cons.1 back with rfl | back
    · exact other List.mem_cons_self
    · rcases List.mem_append.1 back with digits | ext
      · rw [Decimal.isDigit_of_mem_toDigits digits] at digit
        cases digit
      · exact other (List.mem_cons_of_mem _ ext)

theorem plain_factFileName {p : Predicate} (storable : p.Storable) : Path.PlainName (factFileName p) := by
  have longer {s : String} (short : s.toList.length < 6) : factFileName p ≠ s := by
    rintro rfl
    have long := length_factFileName p
    omega
  exact ⟨longer (by decide), longer (by decide), longer (by decide),
    not_mem_factFileName storable.no_slash (by decide) (by decide),
    not_mem_factFileName storable.no_nul (by decide) (by decide)⟩

theorem factFileName_injective {p q : Predicate} (first : p.Storable) (second : q.Storable)
    (same : factFileName p = factFileName q) : p = q :=
  eq_of_factFileName_eq first.ne_empty first.arity second.ne_empty second.arity same

end Layout

end Datalog
