import Mathlib.Algebra.Ring.Int.Defs
import Datalog.Proofs.Partitions

/-!
# Runs of the partition map

A run starts from a map without entries and accounts for batches one after the other. As long as no
word overflows, the entries and the locations can be read off the batches: identifiers are given out in
order of first mention and counts are sums (`PartitionMap.Entered`); a location is taken by the symbol
whose count reaches the block size next, reported as a move, and kept (`PartitionMap.Placed`). Both are
kept by accounting for one symbol, hence by batches and by runs (`PartitionMap.placed_addAll`); what one
batch reports is the difference of the placements before and after it (`PartitionMap.Placed.reports`).
-/

namespace Datalog.PartitionMap

variable {m m' : PartitionMap} {symbol s : String} {count : Int64}
  {given given' : List (String × Int64)} {moves moves' : List Relocation}

/-- Accounts for batches one after the other. The answer lists the moves of each batch. -/
def addAll (m : PartitionMap) : List (List (String × Int64)) → PartitionMap × List (List Relocation)
  | [] => (m, [])
  | batch :: batches =>
    let (m', moved) := m.add batch
    let (last, moves) := m'.addAll batches
    (last, moved :: moves)

/-- The number of facts that were counted for a symbol. -/
def total (given : List (String × Int64)) (s : String) : Int :=
  ((given.filter fun c => c.1 = s).map fun c => c.2.toInt).sum

/-- The sums that are formed to account for facts of a symbol are words: the next location always, the
next identifier only for a new symbol. -/
structure Fits (m : PartitionMap) (symbol : String) (count : Int64) : Prop where
  location : (greatest? (m.entries.map PartitionEntry.location)).getD sharedLocation < Int32.maxValue
  id : m.find? symbol = none →
    (greatest? (m.entries.map PartitionEntry.id)).all (· < Int32.maxValue) = true
  count : Int64.minValue.toInt ≤ (m.entryOf symbol).count.toInt + count.toInt ∧
    (m.entryOf symbol).count.toInt + count.toInt ≤ Int64.maxValue.toInt

instance : Decidable (m.Fits symbol count) :=
  decidable_of_iff (_ ∧ _ ∧ _) ⟨fun h => ⟨h.1, h.2.1, h.2.2⟩, fun h => ⟨h.location, h.id, h.count⟩⟩

/-- No sum overflows while facts are accounted for. -/
def NeverOverflows : PartitionMap → List (String × Int64) → Prop
  | _, [] => True
  | m, (symbol, count) :: counts => m.Fits symbol count ∧ (m.addOne symbol count).NeverOverflows counts

theorem neverOverflows_append :
    m.NeverOverflows (given ++ given') ↔
      m.NeverOverflows given ∧ (m.add given).1.NeverOverflows given' := by
  induction given generalizing m with
  | nil => simp [NeverOverflows, add]
  | cons c given ih =>
    rw [List.cons_append, NeverOverflows, NeverOverflows, ih, and_assoc]
    rfl

theorem length_addAll (m : PartitionMap) (batches : List (List (String × Int64))) :
    (m.addAll batches).2.length = batches.length := by
  induction batches generalizing m with
  | nil => rfl
  | cons batch batches ih => exact congrArg (· + 1) (ih (m.add batch).1)

theorem addAll_take (m : PartitionMap) (batches : List (List (String × Int64))) (n : Nat) :
    (m.addAll (batches.take n)).2 = (m.addAll batches).2.take n := by
  induction batches generalizing m n with
  | nil => simp [addAll]
  | cons batch batches ih =>
    cases n with
    | zero => rfl
    | succ n =>
      have later := ih (m.add batch).1 n
      rw [List.take_succ_cons, addAll, addAll]
      exact congrArg ((m.add batch).2 :: ·) later

/-! ### Sums and greatest members -/

theorem total_append (given : List (String × Int64)) (c : String × Int64) (s : String) :
    total (given ++ [c]) s = total given s + if c.1 = s then c.2.toInt else 0 := by
  unfold total
  rw [List.filter_append, List.map_append, List.sum_append]
  by_cases same : c.1 = s <;> simp [same]

theorem greatest?_eq_none_iff {l : List Int32} : greatest? l = none ↔ l = [] := by
  cases l with
  | nil => exact iff_of_true rfl rfl
  | cons a l =>
    refine iff_of_false (fun h => ?_) (List.cons_ne_nil a l)
    rw [greatest?] at h
    split at h <;> cases h

theorem of_greatest? {l : List Int32} {b : Int32} (h : greatest? l = some b) :
    b ∈ l ∧ ∀ a ∈ l, a.toInt ≤ b.toInt := by
  induction l generalizing b with
  | nil => cases h
  | cons a l ih =>
    rw [greatest?] at h
    cases rest : greatest? l with
    | none =>
      rw [rest] at h
      cases h
      rw [greatest?_eq_none_iff.1 rest]
      simp
    | some c =>
      obtain ⟨member, above⟩ := ih rest
      rw [rest] at h
      simp only [Option.some.injEq] at h
      split at h
      · next less =>
        subst h
        refine ⟨List.mem_cons_of_mem _ member, List.forall_mem_cons.2 ⟨?_, above⟩⟩
        exact Int.le_of_lt (Int32.lt_iff_toInt_lt.1 less)
      · next notLess =>
        subst h
        refine ⟨List.mem_cons_self, List.forall_mem_cons.2 ⟨Int.le_refl _, fun a' ha' => ?_⟩⟩
        rw [Int32.lt_iff_toInt_lt, Int.not_lt] at notLess
        exact Int.le_trans (above a' ha') notLess

theorem exists_greatest? {l : List Int32} {n : Int} (attained : ∃ a ∈ l, a.toInt = n)
    (bounded : ∀ a ∈ l, a.toInt ≤ n) : ∃ b, greatest? l = some b ∧ b.toInt = n := by
  obtain ⟨a, ha, rfl⟩ := attained
  cases greatest : greatest? l with
  | none =>
    rw [greatest?_eq_none_iff.1 greatest] at ha
    cases ha
  | some b =>
    obtain ⟨member, above⟩ := of_greatest? greatest
    exact ⟨b, rfl, Int.le_antisymm (bounded b member) (above a ha)⟩

theorem toInt_add_one {n : Int32} (fits : n < Int32.maxValue) : (n + 1).toInt = n.toInt + 1 := by
  have low := n.le_toInt
  have high := Int32.lt_iff_toInt_lt.1 fits
  rw [Int32.toInt_maxValue] at high
  rw [Int32.toInt_add]
  exact Int.bmod_eq_of_le (by simp; omega) (by simp; omega)

/-! ### Lookups -/

theorem find?_eq_none_iff : m.find? s = none ↔ s ∉ m.entries.map PartitionEntry.symbol := by
  rw [find?, List.find?_eq_none]
  simp

theorem of_find? {e : PartitionEntry} (h : m.find? s = some e) : e ∈ m.entries ∧ e.symbol = s := by
  unfold find? at h
  exact ⟨List.mem_of_find?_eq_some h, by simpa using List.find?_some h⟩

/-- Where symbols are distinct, every entry is the one of its symbol. -/
theorem entryOf_symbol (distinct : (m.entries.map PartitionEntry.symbol).Nodup) {e : PartitionEntry}
    (he : e ∈ m.entries) : m.entryOf e.symbol = e := by
  unfold entryOf
  cases found : m.find? e.symbol with
  | none => exact absurd (List.mem_map_of_mem he) (find?_eq_none_iff.1 found)
  | some e' =>
    obtain ⟨he', same⟩ := of_find? found
    exact List.inj_on_of_nodup_map distinct he' he same

theorem map_updateFirst {α : Type} {g : PartitionEntry → α} {f : PartitionEntry → PartitionEntry}
    (keeps : ∀ e, g (f e) = g e) (es : List PartitionEntry) :
    (updateFirst symbol f es).map g = es.map g := by
  induction es with
  | nil => rfl
  | cons e es ih =>
    rw [updateFirst]
    split
    · rw [List.map_cons, List.map_cons, keeps]
    · rw [List.map_cons, List.map_cons, ih]

/-- What growing leaves as it is stays in the list; a new symbol adds its own. -/
theorem map_addOne {α : Type} {g : PartitionEntry → α} (keeps : ∀ e, g (m.grow count e) = g e) :
    (m.addOne symbol count).entries.map g =
      if symbol ∈ m.entries.map PartitionEntry.symbol then m.entries.map g
      else m.entries.map g ++ [g (m.freshEntry symbol)] := by
  unfold addOne
  cases found : m.find? symbol with
  | none =>
    rw [if_neg (find?_eq_none_iff.1 found)]
    show (m.entries ++ [m.grow count (m.freshEntry symbol)]).map g = _
    rw [List.map_append, List.map_singleton, keeps]
  | some e =>
    obtain ⟨he, rfl⟩ := of_find? found
    rw [if_pos (List.mem_map_of_mem he)]
    exact map_updateFirst keeps m.entries

theorem blockSize_addOne : (m.addOne symbol count).blockSize = m.blockSize := by
  unfold addOne
  split <;> rfl

/-! ### Entries -/

/-- The entries are those of the symbols counted, in order of first mention. -/
structure Entered (given : List (String × Int64)) (m : PartitionMap) : Prop where
  symbols : m.entries.map PartitionEntry.symbol = (given.map Prod.fst).eraseDups
  distinct : (m.entries.map PartitionEntry.symbol).Nodup
  ids : (m.entries.map fun e => e.id.toInt) = (List.range m.entries.length).map Int.ofNat
  counts : ∀ s, (m.entryOf s).count.toInt = total given s

theorem Entered.mem_symbols (entered : Entered given m) :
    s ∈ m.entries.map PartitionEntry.symbol ↔ s ∈ given.map Prod.fst := by
  rw [entered.symbols, List.mem_eraseDups]

/-- The next identifier is the number of entries. -/
theorem Entered.nextId (entered : Entered given m) (fits : m.Fits symbol count)
    (absent : m.find? symbol = none) : m.nextId.toInt = m.entries.length := by
  have listed (z : Int) : (∃ a ∈ m.entries.map PartitionEntry.id, a.toInt = z) ↔
      ∃ k < m.entries.length, (k : Int) = z := by
    have same : z ∈ (m.entries.map fun e => e.id.toInt) ↔
        z ∈ (List.range m.entries.length).map Int.ofNat := by rw [entered.ids]
    simpa using same
  unfold PartitionMap.nextId
  rcases Nat.eq_zero_or_pos m.entries.length with empty | nonempty
  · rw [List.length_eq_zero_iff.1 empty]
    rfl
  · obtain ⟨n, greatest, last⟩ := exists_greatest?
      ((listed (m.entries.length - 1 : Nat)).2 ⟨_, by omega, rfl⟩) fun a ha => by
        obtain ⟨k, below, same⟩ := (listed a.toInt).1 ⟨a, ha, rfl⟩
        omega
    have below : n < Int32.maxValue := by simpa [greatest] using fits.id absent
    rw [greatest]
    show (n + 1).toInt = _
    rw [toInt_add_one below, last]
    omega

theorem eraseDups_concat (l : List String) (a : String) :
    (l ++ [a]).eraseDups = if a ∈ l then l.eraseDups else l.eraseDups ++ [a] := by
  rw [List.eraseDups_append]
  by_cases member : a ∈ l <;> simp [member, List.removeAll, List.eraseDups_cons]

/-- A count grows by what is accounted for its symbol. -/
theorem count_entryOf_addOne :
    ((m.addOne symbol count).entryOf s).count =
      if s = symbol then (m.entryOf symbol).count + count else (m.entryOf s).count := by
  unfold entryOf
  rw [find?_addOne]
  by_cases same : s = symbol
  · rw [if_pos same, if_pos same]
    rfl
  · rw [if_neg same, if_neg same]
    cases m.find? s <;> rfl

theorem Fits.toInt_count (fits : m.Fits symbol count) :
    ((m.entryOf symbol).count + count).toInt = (m.entryOf symbol).count.toInt + count.toInt := by
  obtain ⟨low, high⟩ := fits.count
  rw [Int64.toInt_minValue] at low
  rw [Int64.toInt_maxValue] at high
  rw [Int64.toInt_add]
  exact Int.bmod_eq_of_le (by simp; omega) (by simp; omega)

theorem Entered.start (blockSize : Int64) : Entered [] { blockSize } where
  symbols := rfl
  distinct := List.nodup_nil
  ids := rfl
  counts _ := rfl

theorem Entered.addOne (entered : Entered given m) (fits : m.Fits symbol count) :
    Entered (given ++ [(symbol, count)]) (m.addOne symbol count) := by
  have symbols := @map_addOne m symbol count _ PartitionEntry.symbol fun _ => rfl
  have ids := @map_addOne m symbol count _ (fun e => e.id.toInt) fun _ => rfl
  have length : (m.addOne symbol count).entries.length =
      ((m.addOne symbol count).entries.map PartitionEntry.symbol).length := (List.length_map _).symm
  refine ⟨?_, ?_, ?_, fun s => ?_⟩
  · rw [symbols, List.map_append, List.map_singleton, eraseDups_concat, entered.symbols]
    simp only [List.mem_eraseDups]
    rfl
  · rw [symbols]
    split
    · exact entered.distinct
    · next fresh =>
      refine entered.distinct.append (List.nodup_singleton _) ?_
      simpa [freshEntry] using fresh
  · rw [length, symbols, ids]
    split
    · rw [List.length_map]
      exact entered.ids
    · next fresh =>
      have next := entered.nextId fits (find?_eq_none_iff.2 fresh)
      rw [List.length_append, List.length_map, List.length_singleton, List.range_succ, List.map_append,
        entered.ids]
      exact congrArg (_ ++ [·]) next
  · rw [count_entryOf_addOne, total_append]
    by_cases same : s = symbol
    · subst same
      rw [if_pos rfl, if_pos rfl, fits.toInt_count, entered.counts]
    · rw [if_neg same, if_neg (Ne.symm same), Int.add_zero, entered.counts]

/-! ### Locations -/

/-- The moves are those of the symbols that have a location of their own, in order, and a symbol is
moved when its count reaches the block size. -/
structure Placed (given : List (String × Int64)) (moves : List Relocation) (m : PartitionMap) :
    Prop where
  sources : ∀ move ∈ moves, move.source = sharedLocation
  targets : ∀ (k : Nat) move, moves[k]? = some move → move.target.toInt = k + 1
  once : (moves.map Relocation.symbol).Nodup
  kept : ∀ move ∈ moves, m.locationOf move.symbol = move.target
  moved : ∀ s, m.locationOf s ≠ sharedLocation → s ∈ moves.map Relocation.symbol
  below : ∀ s ∈ given.map Prod.fst, m.locationOf s = sharedLocation →
    total given s < m.blockSize.toInt
  reached : (∀ c ∈ given, 0 ≤ c.2) → ∀ s, m.locationOf s ≠ sharedLocation →
    m.blockSize.toInt ≤ total given s

namespace Placed

theorem start (blockSize : Int64) : Placed [] [] { blockSize } where
  sources := List.forall_mem_nil _
  targets k move h := by cases h
  once := List.nodup_nil
  kept := List.forall_mem_nil _
  moved s h := absurd rfl h
  below := List.forall_mem_nil _
  reached _ s h := absurd rfl h

theorem target_pos (placed : Placed given moves m) {move : Relocation} (h : move ∈ moves) :
    0 < move.target.toInt ∧ move.target.toInt ≤ moves.length := by
  obtain ⟨k, hk⟩ := List.mem_iff_getElem?.1 h
  have within := (List.getElem?_eq_some_iff.1 hk).1
  rw [placed.targets k move hk]
  omega

theorem target_ne (placed : Placed given moves m) {move : Relocation} (h : move ∈ moves) :
    move.target ≠ sharedLocation := by
  intro same
  have pos := (placed.target_pos h).1
  rw [same] at pos
  exact absurd pos (by decide)

/-- The symbols that were moved are those that have a location of their own. -/
theorem moved_iff (placed : Placed given moves m) :
    s ∈ moves.map Relocation.symbol ↔ m.locationOf s ≠ sharedLocation := by
  refine ⟨fun h => ?_, placed.moved s⟩
  obtain ⟨move, hmove, rfl⟩ := List.mem_map.1 h
  rw [placed.kept move hmove]
  exact placed.target_ne hmove

theorem locationOf_le (placed : Placed given moves m) (s : String) :
    0 ≤ (m.locationOf s).toInt ∧ (m.locationOf s).toInt ≤ moves.length := by
  by_cases shares : m.locationOf s = sharedLocation
  · rw [shares]
    exact ⟨Int.le_refl 0, Int.natCast_nonneg _⟩
  · obtain ⟨move, hmove, rfl⟩ := List.mem_map.1 (placed.moved s shares)
    rw [placed.kept move hmove]
    exact ⟨Int.le_of_lt (placed.target_pos hmove).1, (placed.target_pos hmove).2⟩

end Placed

theorem locationOf_symbol (distinct : (m.entries.map PartitionEntry.symbol).Nodup)
    {e : PartitionEntry} (he : e ∈ m.entries) : m.locationOf e.symbol = e.location := by
  rw [locationOf_eq, entryOf_symbol distinct he]

theorem exists_entry (own : m.locationOf s ≠ sharedLocation) :
    ∃ e ∈ m.entries, e.symbol = s ∧ e.location = m.locationOf s := by
  unfold locationOf at own ⊢
  cases found : m.find? s with
  | none =>
    rw [found] at own
    exact absurd rfl own
  | some e =>
    obtain ⟨he, same⟩ := of_find? found
    exact ⟨e, he, same, rfl⟩

/-- The next location comes after those that moves have taken. -/
theorem Placed.nextLocation (placed : Placed given moves m)
    (distinct : (m.entries.map PartitionEntry.symbol).Nodup) (fits : m.Fits symbol count) :
    m.nextLocation.toInt = moves.length + 1 := by
  have bounded : ∀ a ∈ m.entries.map PartitionEntry.location, a.toInt ≤ moves.length := by
    intro a ha
    obtain ⟨e, he, rfl⟩ := List.mem_map.1 ha
    rw [← locationOf_symbol distinct he]
    exact (placed.locationOf_le e.symbol).2
  suffices highest : ((greatest? (m.entries.map PartitionEntry.location)).getD sharedLocation).toInt =
      moves.length by
    rw [PartitionMap.nextLocation, toInt_add_one fits.location, highest]
  cases greatest : greatest? (m.entries.map PartitionEntry.location) with
  | none =>
    rw [greatest?_eq_none_iff, List.map_eq_nil_iff] at greatest
    -- Without entries there is no symbol that was moved.
    cases moves with
    | nil => rfl
    | cons move moves =>
      obtain ⟨e, he, -⟩ := exists_entry (placed.moved_iff.1 (List.mem_map_of_mem List.mem_cons_self))
      rw [greatest] at he
      cases he
  | some b =>
    obtain ⟨member, above⟩ := of_greatest? greatest
    refine Int.le_antisymm (bounded b member) ?_
    rcases List.eq_nil_or_concat' moves with rfl | ⟨earlier, move, rfl⟩
    · obtain ⟨e, he, rfl⟩ := List.mem_map.1 member
      rw [Option.getD_some, ← locationOf_symbol distinct he]
      exact (placed.locationOf_le e.symbol).1
    · -- The last move has taken the highest location, and its symbol has an entry.
      have last : move ∈ earlier ++ [move] := List.mem_append_right _ List.mem_cons_self
      obtain ⟨e, he, -, at_target⟩ :=
        exists_entry (placed.moved_iff.1 (List.mem_map_of_mem last))
      have highest := above e.location (List.mem_map_of_mem he)
      rw [at_target, placed.kept move last,
        placed.targets earlier.length move (by simp)] at highest
      simpa using highest

theorem relocation?_eq (m : PartitionMap) (symbol : String) (count : Int64) :
    m.relocation? symbol count = if m.promotes count (m.entryOf symbol)
      then some ⟨symbol, m.locationOf symbol, m.nextLocation⟩ else none := by
  rw [locationOf_eq]
  rfl

/-- A symbol is moved when it shares and what was counted for it reaches the block size. -/
theorem promotes_iff (entered : Entered given m) (fits : m.Fits symbol count) :
    m.promotes count (m.entryOf symbol) = true ↔ m.locationOf symbol = sharedLocation ∧
      m.blockSize.toInt ≤ total (given ++ [(symbol, count)]) symbol := by
  rw [promotes, Bool.and_eq_true, decide_eq_true_iff, decide_eq_true_iff, locationOf_eq,
    Int64.le_iff_toInt_le, fits.toInt_count, entered.counts, total_append, if_pos rfl]

/-- What is counted for one symbol changes nothing for the others. -/
theorem total_append_of_ne (other : s ≠ symbol) :
    total (given ++ [(symbol, count)]) s = total given s := by
  rw [total_append, if_neg (Ne.symm other), Int.add_zero]

theorem mem_mentions {counted : String} :
    counted ∈ (given ++ [(symbol, count)]).map Prod.fst ↔
      counted ∈ given.map Prod.fst ∨ counted = symbol := by
  rw [List.map_append, List.mem_append, List.map_singleton, List.mem_singleton]

/-- A symbol that is moved takes the next location, and the others stay. -/
theorem Placed.move (entered : Entered given m) (placed : Placed given moves m)
    (fits : m.Fits symbol count) (promoted : m.promotes count (m.entryOf symbol) = true) :
    Placed (given ++ [(symbol, count)])
      (moves ++ [⟨symbol, m.locationOf symbol, m.nextLocation⟩]) (m.addOne symbol count) := by
  obtain ⟨shares, enough⟩ := (promotes_iff entered fits).1 promoted
  have next := placed.nextLocation entered.distinct fits
  have fresh : symbol ∉ moves.map Relocation.symbol := fun h => placed.moved_iff.1 h shares
  have own : (m.addOne symbol count).locationOf symbol = m.nextLocation := by
    rw [locationOf_addOne_self, relocation?_eq, if_pos promoted]
    rfl
  have others {s : String} (other : s ≠ symbol) :
      (m.addOne symbol count).locationOf s = m.locationOf s := locationOf_addOne_of_ne other
  refine ⟨?_, fun k move hmove => ?_, ?_, ?_, fun s away => ?_, fun s hs shared => ?_,
    fun counts s away => ?_⟩
  · exact List.forall_mem_append.2 ⟨placed.sources, List.forall_mem_singleton.2 shares⟩
  · rcases Nat.lt_or_ge k moves.length with old | new
    · rw [List.getElem?_append_left old] at hmove
      exact placed.targets k move hmove
    · rw [List.getElem?_append_right new, List.getElem?_singleton] at hmove
      split at hmove
      · cases hmove
        show m.nextLocation.toInt = _
        omega
      · cases hmove
  · rw [List.map_append]
    exact placed.once.append (List.nodup_singleton _) (by simpa using fresh)
  · refine List.forall_mem_append.2 ⟨fun move hmove => ?_, List.forall_mem_singleton.2 own⟩
    have ne : move.symbol ≠ symbol := fun same => fresh (same ▸ List.mem_map_of_mem hmove)
    rw [others ne, placed.kept move hmove]
  · rw [List.map_append, List.mem_append]
    by_cases same : s = symbol
    · exact .inr (by simp [same])
    · rw [others same] at away
      exact .inl (placed.moved s away)
  · by_cases same : s = symbol
    · rw [same, own, ← Int32.toInt_inj, next] at shared
      exact absurd shared (by simp [sharedLocation]; omega)
    · rw [others same] at shared
      rw [total_append_of_ne same, blockSize_addOne]
      exact placed.below s ((mem_mentions.1 hs).resolve_right same) shared
  · by_cases same : s = symbol
    · rw [same, blockSize_addOne]
      exact enough
    · rw [others same] at away
      rw [total_append_of_ne same, blockSize_addOne]
      exact placed.reached (fun c hc => counts c (List.mem_append_left _ hc)) s away

/-- Without a move all symbols stay where they are. -/
theorem Placed.stay (entered : Entered given m) (placed : Placed given moves m)
    (fits : m.Fits symbol count) (stays : m.promotes count (m.entryOf symbol) = false) :
    Placed (given ++ [(symbol, count)]) moves (m.addOne symbol count) := by
  have few : m.locationOf symbol = sharedLocation →
      total (given ++ [(symbol, count)]) symbol < m.blockSize.toInt := by
    intro shares
    by_contra enough
    rw [(promotes_iff entered fits).2 ⟨shares, Int.not_lt.1 enough⟩] at stays
    cases stays
  have same_place (s : String) : (m.addOne symbol count).locationOf s = m.locationOf s := by
    by_cases same : s = symbol
    · rw [same, locationOf_addOne_self, relocation?_eq, stays]
      rfl
    · exact locationOf_addOne_of_ne same
  refine ⟨placed.sources, placed.targets, placed.once, fun move hmove => ?_, fun s away => ?_,
    fun s hs shared => ?_, fun counts s away => ?_⟩
  · rw [same_place, placed.kept move hmove]
  · rw [same_place] at away
    exact placed.moved s away
  · rw [same_place] at shared
    rw [blockSize_addOne]
    by_cases same : s = symbol
    · exact same ▸ few (same ▸ shared)
    · rw [total_append_of_ne same]
      exact placed.below s ((mem_mentions.1 hs).resolve_right same) shared
  · rw [same_place] at away
    have before := placed.reached (fun c hc => counts c (List.mem_append_left _ hc)) s away
    have more := Int64.le_iff_toInt_le.1
      (counts (symbol, count) (List.mem_append_right _ List.mem_cons_self))
    rw [blockSize_addOne, total_append]
    split
    · exact Int.le_trans before (Int.le_add_of_nonneg_right more)
    · rwa [Int.add_zero]

/-- **What accounting for one symbol keeps.** -/
theorem Placed.addOne (entered : Entered given m) (placed : Placed given moves m)
    (fits : m.Fits symbol count) :
    Placed (given ++ [(symbol, count)]) (moves ++ (m.relocation? symbol count).toList)
      (m.addOne symbol count) := by
  rw [relocation?_eq]
  cases promoted : m.promotes count (m.entryOf symbol) with
  | true => exact placed.move entered fits promoted
  | false =>
    rw [if_neg Bool.false_ne_true, Option.toList_none, List.append_nil]
    exact placed.stay entered fits promoted

/-! ### Batches and runs -/

/-- **What accounting for a batch keeps.** -/
theorem placed_add (entered : Entered given m) (placed : Placed given moves m)
    (fits : m.NeverOverflows given') :
    Entered (given ++ given') (m.add given').1 ∧
      Placed (given ++ given') (moves ++ (m.add given').2) (m.add given').1 := by
  induction given' generalizing m given moves with
  | nil =>
    rw [List.append_nil]
    exact ⟨entered, (List.append_nil moves).symm ▸ placed⟩
  | cons c given' ih =>
    obtain ⟨symbol, count⟩ := c
    obtain ⟨first, later⟩ := fits
    have kept := ih (entered.addOne first) (placed.addOne entered first) later
    rw [List.append_assoc, List.append_assoc] at kept
    exact kept

/-- **What a run keeps.** -/
theorem placed_addAll (entered : Entered given m) (placed : Placed given moves m)
    {batches : List (List (String × Int64))} (fits : m.NeverOverflows batches.flatten) :
    Entered (given ++ batches.flatten) (m.addAll batches).1 ∧
      Placed (given ++ batches.flatten) (moves ++ (m.addAll batches).2.flatten)
        (m.addAll batches).1 := by
  induction batches generalizing m given moves with
  | nil =>
    rw [List.flatten_nil, List.append_nil]
    exact ⟨entered, (List.append_nil moves).symm ▸ placed⟩
  | cons batch batches ih =>
    rw [List.flatten_cons, neverOverflows_append] at fits
    obtain ⟨entered', placed'⟩ := placed_add entered placed fits.1
    have kept := ih entered' placed' fits.2
    rw [List.append_assoc, List.append_assoc] at kept
    exact kept

/-! ### What a run can be told by -/

/-- The moves are the changes of location from one map to the next, each listed once. -/
structure Reports (m m' : PartitionMap) (moves : List Relocation) : Prop where
  distinct : (moves.map Relocation.symbol).Nodup
  ends : ∀ move ∈ moves,
    move.source = m.locationOf move.symbol ∧ move.target = m'.locationOf move.symbol
  changed_iff : ∀ s, s ∈ moves.map Relocation.symbol ↔ m'.locationOf s ≠ m.locationOf s

namespace Placed

/-- A location once taken is kept, whatever moves follow. -/
theorem keeps (placed : Placed given moves m) (placed' : Placed given' (moves ++ moves') m')
    (own : m.locationOf s ≠ sharedLocation) : m'.locationOf s = m.locationOf s := by
  obtain ⟨move, hmove, rfl⟩ := List.mem_map.1 (placed.moved s own)
  rw [placed.kept move hmove, placed'.kept move (List.mem_append_left _ hmove)]

/-- **The moves that follow are reported exactly.** -/
theorem reports (placed : Placed given moves m) (placed' : Placed given' (moves ++ moves') m') :
    Reports m m' moves' := by
  have once := placed'.once
  rw [List.map_append, List.nodup_append'] at once
  obtain ⟨-, distinct, apart⟩ := once
  have shared_before {s : String} (h : s ∈ moves'.map Relocation.symbol) :
      m.locationOf s = sharedLocation := by
    by_contra own
    exact apart (placed.moved s own) h
  refine ⟨distinct, fun move hmove => ⟨?_, ?_⟩, fun s => ⟨fun h => ?_, fun changed => ?_⟩⟩
  · rw [shared_before (List.mem_map_of_mem hmove)]
    exact placed'.sources move (List.mem_append_right _ hmove)
  · exact (placed'.kept move (List.mem_append_right _ hmove)).symm
  · rw [shared_before h]
    refine placed'.moved_iff.1 ?_
    rw [List.map_append]
    exact List.mem_append_right _ h
  · have shared : m.locationOf s = sharedLocation := by
      by_contra own
      exact changed (placed.keeps placed' own)
    have member := placed'.moved s (shared ▸ changed)
    rw [List.map_append, List.mem_append] at member
    exact member.resolve_left fun old => placed.moved_iff.1 old shared

/-- No two symbols have the same location of their own. -/
theorem eq_of_locationOf_eq {s' : String} (placed : Placed given moves m)
    (own : m.locationOf s ≠ sharedLocation) (same : m.locationOf s = m.locationOf s') : s = s' := by
  obtain ⟨move, hmove, rfl⟩ := List.mem_map.1 (placed.moved s own)
  obtain ⟨move', hmove', rfl⟩ := List.mem_map.1 (placed.moved s' (same ▸ own))
  obtain ⟨k, hk⟩ := List.mem_iff_getElem?.1 hmove
  obtain ⟨k', hk'⟩ := List.mem_iff_getElem?.1 hmove'
  rw [placed.kept move hmove, placed.kept move' hmove', ← Int32.toInt_inj, placed.targets k move hk,
    placed.targets k' move' hk'] at same
  have same_number : k = k' := by omega
  rw [same_number, hk'] at hk
  rw [Option.some.inj hk]

/-- Each of the locations that moves have taken belongs to one entry. -/
theorem existsUnique_entry (placed : Placed given moves m)
    (distinct : (m.entries.map PartitionEntry.symbol).Nodup) {k : Nat} (pos : 0 < k)
    (le : k ≤ moves.length) : ∃! e, e ∈ m.entries ∧ e.location.toInt = k := by
  have within : k - 1 < moves.length := by omega
  have taken := placed.targets (k - 1) moves[k - 1] (List.getElem?_eq_getElem within)
  have listed : moves[k - 1] ∈ moves := List.getElem_mem within
  obtain ⟨e, he, -, at_target⟩ := exists_entry (placed.moved_iff.1 (List.mem_map_of_mem listed))
  have at_k : e.location.toInt = k := by
    rw [at_target, placed.kept _ listed, taken]
    omega
  have own : e.location ≠ sharedLocation := by
    intro shared
    rw [shared] at at_k
    have zero : sharedLocation.toInt = 0 := rfl
    omega
  refine ⟨e, ⟨he, at_k⟩, fun e' ⟨he', at_k'⟩ => ?_⟩
  have same : e'.location = e.location := by rw [← Int32.toInt_inj, at_k, at_k']
  rw [← locationOf_symbol distinct he, ← locationOf_symbol distinct he'] at same
  rw [← locationOf_symbol distinct he] at own
  exact List.inj_on_of_nodup_map distinct he' he (placed.eq_of_locationOf_eq (same ▸ own) same)

end Placed

/-- The map after the first batches of a run. -/
def stage (blockSize : Int64) (batches : List (List (String × Int64))) (n : Nat) : PartitionMap :=
  (addAll { blockSize } (batches.take n)).1

theorem blockSize_add (m : PartitionMap) (counts : List (String × Int64)) :
    (m.add counts).1.blockSize = m.blockSize := by
  induction counts generalizing m with
  | nil => rfl
  | cons c counts ih => exact (ih _).trans blockSize_addOne

theorem blockSize_addAll (m : PartitionMap) (batches : List (List (String × Int64))) :
    (m.addAll batches).1.blockSize = m.blockSize := by
  induction batches generalizing m with
  | nil => rfl
  | cons batch batches ih => exact (ih _).trans (blockSize_add m batch)

section Run

variable {blockSize : Int64} {batches : List (List (String × Int64))}

theorem placed_stage (fits : NeverOverflows { blockSize } batches.flatten) (n : Nat) :
    Placed (batches.take n).flatten ((addAll { blockSize } batches).2.take n).flatten
      (stage blockSize batches n) := by
  have front : NeverOverflows { blockSize } (batches.take n).flatten := by
    rw [← List.take_append_drop n batches, List.flatten_append, neverOverflows_append] at fits
    exact fits.1
  rw [← addAll_take]
  exact (placed_addAll (.start blockSize) (.start blockSize) front).2

/-- **The partition map over whole runs.** Account for any batches one after the other, starting without
entries, so that no sum overflows. Then symbols are distinct and in order of first mention; entry `i`
has identifier `i` and the sum of all that was counted for its symbol. The locations apart from the
shared one are `1, …, n`, where `n` is the number of moves, and each belongs to one entry; the move with
number `k` takes location `k + 1`, and whatever location a symbol has to itself at some stage of the run
it has at the end. Each batch reports exactly the symbols whose location it changed, with the location
before and after. When no count is negative, the symbols that share are those below the block size. -/
theorem addAll_exact {m : PartitionMap} {moves : List (List Relocation)}
    (run : addAll { blockSize } batches = (m, moves))
    (fits : NeverOverflows { blockSize } batches.flatten) :
    (m.entries.map PartitionEntry.symbol).Nodup ∧
    m.entries.map PartitionEntry.symbol = (batches.flatten.map Prod.fst).eraseDups ∧
    (∀ (i : Nat) e, m.entries[i]? = some e →
      e.id.toInt = i ∧ e.count.toInt = total batches.flatten e.symbol) ∧
    (∀ e ∈ m.entries, 0 ≤ e.location.toInt ∧ e.location.toInt ≤ moves.flatten.length) ∧
    (∀ k : Nat, 0 < k → k ≤ moves.flatten.length → ∃! e, e ∈ m.entries ∧ e.location.toInt = k) ∧
    (∀ (k : Nat) move, moves.flatten[k]? = some move →
      move.target.toInt = k + 1 ∧ m.locationOf move.symbol = move.target) ∧
    (∀ n s, (stage blockSize batches n).locationOf s ≠ sharedLocation →
      m.locationOf s = (stage blockSize batches n).locationOf s) ∧
    moves.length = batches.length ∧
    (∀ (n : Nat) moved, moves[n]? = some moved →
      Reports (stage blockSize batches n) (stage blockSize batches (n + 1)) moved) ∧
    ((∀ c ∈ batches.flatten, 0 ≤ c.2) →
      ∀ e ∈ m.entries, e.location = sharedLocation ↔ e.count < blockSize) := by
  obtain ⟨entered, placed⟩ := placed_addAll (.start blockSize) (.start blockSize) fits
  have stages := placed_stage fits
  have length := length_addAll { blockSize } batches
  have size := blockSize_addAll { blockSize } batches
  rw [run] at entered placed stages length size
  simp only [List.nil_append] at entered placed size
  have distinct := entered.distinct
  have location {e : PartitionEntry} (he : e ∈ m.entries) : m.locationOf e.symbol = e.location :=
    locationOf_symbol distinct he
  have counted {e : PartitionEntry} (he : e ∈ m.entries) :
      e.count.toInt = total batches.flatten e.symbol := by
    rw [← entered.counts, entryOf_symbol distinct he]
  refine ⟨distinct, entered.symbols, fun i e hi => ⟨?_, counted (List.mem_of_getElem? hi)⟩,
    fun e he => location he ▸ placed.locationOf_le e.symbol,
    fun k pos le => placed.existsUnique_entry distinct pos le,
    fun k move hk => ⟨placed.targets k move hk, placed.kept move (List.mem_of_getElem? hk)⟩,
    fun n s own => ?_, length, fun n moved hn => ?_,
    fun counts e he => ⟨fun shares => ?_, fun few => ?_⟩⟩
  · obtain ⟨within, rfl⟩ := List.getElem?_eq_some_iff.1 hi
    have numbered := congrArg (·[i]?) entered.ids
    simpa [within] using numbered
  · rw [← List.take_append_drop n moves, List.flatten_append] at placed
    exact (stages n).keeps placed own
  · have grown : (moves.take (n + 1)).flatten = (moves.take n).flatten ++ moved := by
      rw [List.take_add_one, hn, List.flatten_append, Option.toList_some, List.flatten_singleton]
    have next := stages (n + 1)
    exact (stages n).reports (grown ▸ next)
  · have mentioned := entered.mem_symbols.1 (List.mem_map_of_mem he)
    have few := placed.below e.symbol mentioned ((location he).trans shares)
    rwa [size, ← counted he, ← Int64.lt_iff_toInt_lt] at few
  · by_contra own
    have enough := placed.reached counts e.symbol (location he ▸ own)
    rw [size, ← counted he] at enough
    exact absurd (Int64.lt_iff_toInt_lt.1 few) (Int.not_lt.2 enough)

/-- Three symbols with a block size of ten: one is moved at once, one by two counts of a batch, and one
by counts of two batches. -/
def threeBatches : List (List (String × Int64)) :=
  [[("a", 6), ("b", 12), ("a", 5)], [("c", 3), ("b", 1)], [("c", 7)]]

/-- The three moves of the batches, and the one symbol at the location of the last. -/
theorem addAll_threeBatches :
    NeverOverflows { blockSize := 10 } threeBatches.flatten ∧
    ∃ m, addAll { blockSize := 10 } threeBatches =
        (m, [[⟨"b", 0, 1⟩, ⟨"a", 0, 2⟩], [], [⟨"c", 0, 3⟩]]) ∧
      m.entries.map PartitionEntry.symbol = ["a", "b", "c"] ∧
      (∃! e, e ∈ m.entries ∧ e.location.toInt = 3) ∧
      Reports (stage 10 threeBatches 0) (stage 10 threeBatches 1) [⟨"b", 0, 1⟩, ⟨"a", 0, 2⟩] := by
  have fits : NeverOverflows { blockSize := 10 } threeBatches.flatten :=
    ⟨by decide +kernel, by decide +kernel, by decide +kernel, by decide +kernel, by decide +kernel,
      by decide +kernel, trivial⟩
  have moved : (addAll { blockSize := 10 } threeBatches).2 =
      [[⟨"b", 0, 1⟩, ⟨"a", 0, 2⟩], [], [⟨"c", 0, 3⟩]] := by decide +kernel
  obtain ⟨-, symbols, -, -, unique, -, -, -, reports, -⟩ := addAll_exact (Prod.ext rfl moved) fits
  exact ⟨fits, _, Prod.ext rfl moved, symbols, unique 3 (by decide) (by decide), reports 0 _ rfl⟩

end Run

end Datalog.PartitionMap
