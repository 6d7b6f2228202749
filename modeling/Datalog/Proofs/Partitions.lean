import Mathlib.Algebra.Group.Nat.Defs
import Mathlib.Data.List.Nodup
import Datalog.Proofs.FactFiles

/-!
# Partitions, and the table that keeps them

The partition table reads back (`PartitionTable.read?_write`): a record starts with the length of its
symbol and all else in it has a fixed width, so records need no separator. Accounting for a batch
changes the location of a symbol only where it lists a move, from where the symbol was to where it
then is (`PartitionMap.Moved`).
-/

namespace Datalog

/-! ### The table -/

namespace PartitionTable

@[simp] theorem length_lowBytes (k n : Nat) : (lowBytes k n).length = k := by
  induction k generalizing n with
  | zero => rfl
  | succ k ih => rw [lowBytes, List.length_cons, ih]

theorem ofLowBytes_lowBytes {k n : Nat} (fits : n < 256 ^ k) : ofLowBytes (lowBytes k n) = n := by
  induction k generalizing n with
  | zero =>
    rw [Nat.pow_zero, Nat.lt_one_iff] at fits
    rw [fits]
    rfl
  | succ k ih =>
    have rest : n / 256 < 256 ^ k := by
      rw [Nat.div_lt_iff_lt_mul (by decide), ← Nat.pow_succ]
      exact fits
    rw [lowBytes, ofLowBytes, ih rest, UInt8.toNat_ofNat']
    exact Nat.mod_add_div n 256

theorem take?_append (front rest : List UInt8) :
    take? front.length (front ++ rest) = some (front, rest) := by
  rw [take?, if_neg (by simp), List.splitAt_eq]
  simp

theorem takeNat?_lowBytes {k n : Nat} (fits : n < 256 ^ k) (rest : List UInt8) :
    takeNat? k (lowBytes k n ++ rest) = some (n, rest) := by
  have taken := take?_append (lowBytes k n) rest
  rw [length_lowBytes] at taken
  simp [takeNat?, taken, ofLowBytes_lowBytes fits]

theorem readEntry?_writeEntry {e : PartitionEntry} (short : (Text.bytes e.symbol).length < 2 ^ 64)
    (rest : List UInt8) : readEntry? (writeEntry e ++ rest) = some (e, rest) := by
  have word32 (n : UInt32) : n.toNat < 256 ^ 4 := n.toNat_lt
  have word64 (n : UInt64) : n.toNat < 256 ^ 8 := n.toNat_lt
  simp only [writeEntry, List.append_assoc, readEntry?, takeNat?_lowBytes (k := 8) short,
    takeNat?_lowBytes (word32 _), takeNat?_lowBytes (word64 _), take?_append, Text.ofBytes?_bytes,
    Option.bind_eq_bind, Option.bind_some]
  simp

theorem writeEntry_ne_nil (e : PartitionEntry) : writeEntry e ≠ [] := by
  simp [writeEntry, lowBytes]

theorem readUpTo?_write {es : List PartitionEntry}
    (short : ∀ e ∈ es, (Text.bytes e.symbol).length < 2 ^ 64) {n : Nat} (enough : es.length ≤ n) :
    readUpTo? n (write es) = some es := by
  induction es generalizing n with
  | nil =>
    cases n <;> rfl
  | cons e es ih =>
    obtain ⟨first, others⟩ := List.forall_mem_cons.1 short
    obtain ⟨b, bs, starts⟩ := List.exists_cons_of_ne_nil (writeEntry_ne_nil e)
    have records : write (e :: es) = writeEntry e ++ write es := List.flatMap_cons
    cases n with
    | zero => cases enough
    | succ n =>
      have entry := readEntry?_writeEntry first (write es)
      rw [records]
      rw [starts] at entry ⊢
      rw [List.cons_append] at entry ⊢
      have rest : readUpTo? n (write es) = some es := ih others (by simpa using enough)
      simp [readUpTo?, entry, rest]

theorem length_le_length_write (es : List PartitionEntry) : es.length ≤ (write es).length := by
  induction es with
  | nil => exact Nat.le_refl _
  | cons e es ih =>
    have some_byte := List.length_pos_iff.2 (writeEntry_ne_nil e)
    rw [write, List.flatMap_cons, List.length_cons, List.length_append]
    rw [write] at ih
    omega

/-- **The partition table reads back.** -/
theorem read?_write {es : List PartitionEntry}
    (short : ∀ e ∈ es, (Text.bytes e.symbol).length < 2 ^ 64) : read? (write es) = some es :=
  readUpTo?_write short (length_le_length_write es)

end PartitionTable

/-! ### Locations -/

namespace PartitionMap

variable {m : PartitionMap} {symbol s : String} {count : Int64}

theorem find?_updateFirst {f : PartitionEntry → PartitionEntry} (keeps : ∀ e, (f e).symbol = e.symbol)
    (es : List PartitionEntry) (s : String) :
    (updateFirst symbol f es).find? (fun e => e.symbol = s) =
      if s = symbol then (es.find? fun e => e.symbol = s).map f else es.find? fun e => e.symbol = s := by
  induction es with
  | nil => simp [updateFirst]
  | cons e es ih =>
    rw [updateFirst]
    by_cases first : e.symbol = symbol
    · rw [if_pos first, List.find?_cons, List.find?_cons, keeps, first]
      by_cases same : symbol = s
      · simp [same]
      · simp [same, Ne.symm same]
    · rw [if_neg first, List.find?_cons, List.find?_cons, ih]
      by_cases found : e.symbol = s
      · subst found
        simp [first]
      · simp [found]

/-- The entry of a symbol that facts are accounted for. -/
def entryOf (m : PartitionMap) (symbol : String) : PartitionEntry :=
  (m.find? symbol).getD (m.freshEntry symbol)

theorem locationOf_eq (m : PartitionMap) (symbol : String) :
    m.locationOf symbol = (m.entryOf symbol).location := by
  unfold locationOf entryOf
  cases m.find? symbol <;> rfl

theorem find?_addOne (m : PartitionMap) (symbol : String) (count : Int64) (s : String) :
    (m.addOne symbol count).find? s =
      if s = symbol then some (m.grow count (m.entryOf symbol)) else m.find? s := by
  unfold addOne entryOf
  cases found : m.find? symbol with
  | some e =>
    show (updateFirst symbol (m.grow count) m.entries).find? (fun e => e.symbol = s) = _
    rw [find?_updateFirst (f := m.grow count) fun _ => rfl]
    split
    · next same =>
      subst same
      show (m.find? s).map (m.grow count) = _
      rw [found]
      rfl
    · rfl
  | none =>
    show (m.entries ++ [m.grow count (m.freshEntry symbol)]).find? (fun e => e.symbol = s) = _
    rw [List.find?_append]
    by_cases same : s = symbol
    · subst same
      show (m.find? s).or _ = _
      rw [found]
      simp [grow, freshEntry]
    · rw [if_neg same]
      show (m.find? s).or _ = _
      simp [grow, freshEntry, Ne.symm same]

theorem locationOf_addOne_of_ne (other : s ≠ symbol) :
    (m.addOne symbol count).locationOf s = m.locationOf s := by
  rw [locationOf, find?_addOne, if_neg other]
  rfl

/-- A symbol is then where the move takes it, if there is one. -/
theorem locationOf_addOne_self (m : PartitionMap) (symbol : String) (count : Int64) :
    (m.addOne symbol count).locationOf symbol =
      ((m.relocation? symbol count).map Relocation.target).getD (m.locationOf symbol) := by
  rw [locationOf, find?_addOne, if_pos rfl, locationOf_eq]
  show (m.grow count (m.entryOf symbol)).location =
    ((if m.promotes count (m.entryOf symbol) then
      some (Relocation.mk symbol (m.entryOf symbol).location m.nextLocation) else none).map
        Relocation.target).getD _
  unfold grow
  cases m.promotes count (m.entryOf symbol) <;> rfl

theorem of_relocation? {move : Relocation} (h : m.relocation? symbol count = some move) :
    move.symbol = symbol ∧ move.source = m.locationOf symbol ∧ move.source = sharedLocation := by
  rw [locationOf_eq]
  unfold relocation? at h
  dsimp only at h
  split at h
  · next promoted =>
    cases h
    rw [promotes, Bool.and_eq_true] at promoted
    exact ⟨rfl, rfl, of_decide_eq_true promoted.1⟩
  · cases h

/-- The moves lead from the shared partition to the locations in another map; other symbols stay. -/
structure Moved (m m' : PartitionMap) (moves : List Relocation) : Prop where
  distinct : (moves.map Relocation.symbol).Nodup
  ends : ∀ move ∈ moves,
    move.source = m.locationOf move.symbol ∧ move.target = m'.locationOf move.symbol
  shared : ∀ move ∈ moves, move.source = sharedLocation
  others : ∀ s, s ∉ moves.map Relocation.symbol → m'.locationOf s = m.locationOf s

theorem moved_addOne (m : PartitionMap) (symbol : String) (count : Int64) :
    Moved m (m.addOne symbol count) (m.relocation? symbol count).toList := by
  have self := locationOf_addOne_self m symbol count
  cases moves : m.relocation? symbol count with
  | none =>
    rw [moves] at self
    refine ⟨List.nodup_nil, by simp, by simp, fun s _ => ?_⟩
    by_cases same : s = symbol
    · rw [same]
      exact self
    · exact locationOf_addOne_of_ne same
  | some move =>
    rw [moves] at self
    obtain ⟨named, source, shared⟩ := of_relocation? moves
    refine ⟨List.nodup_singleton _, ?_, ?_, fun s hs => locationOf_addOne_of_ne ?_⟩
    · simp only [Option.toList_some, List.mem_singleton, forall_eq, named]
      exact ⟨source, self.symm⟩
    · simpa using shared
    · simpa [named] using hs

theorem Moved.trans {m' m'' : PartitionMap} {moves moves' : List Relocation}
    (first : Moved m m' moves) (second : Moved m' m'' moves')
    (apart : (moves.map Relocation.symbol).Disjoint (moves'.map Relocation.symbol)) :
    Moved m m'' (moves ++ moves') := by
  refine ⟨?_, fun move hmove => ?_, fun move hmove => ?_, fun s hs => ?_⟩
  · rw [List.map_append]
    exact first.distinct.append second.distinct apart
  · rcases List.mem_append.1 hmove with earlier | later
    · have stays := second.others move.symbol (apart (List.mem_map_of_mem earlier))
      rw [stays]
      exact first.ends move earlier
    · have stayed := first.others move.symbol fun h => apart h (List.mem_map_of_mem later)
      rw [← stayed]
      exact second.ends move later
  · exact (List.mem_append.1 hmove).elim (first.shared move) (second.shared move)
  · rw [List.map_append, List.mem_append, not_or] at hs
    rw [second.others s hs.2, first.others s hs.1]

/-- Accounting for a batch that counts each symbol once moves symbols that it counts. -/
theorem moved_add {counts : List (String × Int64)} (distinct : (counts.map Prod.fst).Nodup)
    (m : PartitionMap) :
    Moved m (m.add counts).1 (m.add counts).2 ∧
      ∀ move ∈ (m.add counts).2, move.symbol ∈ counts.map Prod.fst := by
  induction counts generalizing m with
  | nil => exact ⟨⟨List.nodup_nil, by simp [add], by simp [add], fun _ _ => rfl⟩, by simp [add]⟩
  | cons entry counts ih =>
    obtain ⟨symbol, count⟩ := entry
    rw [List.map_cons, List.nodup_cons] at distinct
    obtain ⟨later, counted⟩ := ih distinct.2 (m.addOne symbol count)
    have named : ∀ move ∈ (m.relocation? symbol count).toList, move.symbol = symbol := by
      intro move hmove
      exact (of_relocation? (Option.mem_toList.1 hmove)).1
    constructor
    · refine (moved_addOne m symbol count).trans later fun s hs hs' => ?_
      obtain ⟨move, hmove, rfl⟩ := List.mem_map.1 hs
      obtain ⟨move', hmove', same⟩ := List.mem_map.1 hs'
      have again := counted move' hmove'
      rw [same, named move hmove] at again
      exact distinct.1 again
    · intro move hmove
      rw [List.map_cons, List.mem_cons]
      rcases List.mem_append.1 hmove with first | rest
      · exact .inl (named move first)
      · exact .inr (counted move rest)

theorem mem_updateFirst {f : PartitionEntry → PartitionEntry} {es : List PartitionEntry}
    {e : PartitionEntry} (h : e ∈ updateFirst symbol f es) : e ∈ es ∨ ∃ e' ∈ es, e = f e' := by
  induction es with
  | nil => cases h
  | cons e' es ih =>
    rw [updateFirst] at h
    split at h
    · rcases List.mem_cons.1 h with rfl | rest
      · exact .inr ⟨e', List.mem_cons_self, rfl⟩
      · exact .inl (List.mem_cons_of_mem _ rest)
    · rcases List.mem_cons.1 h with rfl | rest
      · exact .inl List.mem_cons_self
      · rcases ih rest with old | ⟨e'', member, same⟩
        · exact .inl (List.mem_cons_of_mem _ old)
        · exact .inr ⟨e'', List.mem_cons_of_mem _ member, same⟩

/-- The symbols of entries are those there were and those that were counted. -/
theorem forall_symbol_add {P : String → Prop} {counts : List (String × Int64)}
    (old : ∀ e ∈ m.entries, P e.symbol) (counted : ∀ c ∈ counts, P c.1) :
    ∀ e ∈ (m.add counts).1.entries, P e.symbol := by
  induction counts generalizing m with
  | nil => exact old
  | cons entry counts ih =>
    obtain ⟨symbol, count⟩ := entry
    obtain ⟨first, others⟩ := List.forall_mem_cons.1 counted
    refine ih (m := m.addOne symbol count) (fun e he => ?_) others
    unfold addOne at he
    split at he
    · rcases mem_updateFirst he with kept | ⟨e', member, rfl⟩
      · exact old e kept
      · exact old e' member
    · rcases List.mem_append.1 he with kept | fresh
      · exact old e kept
      · rw [List.mem_singleton.1 fresh]
        exact first

end PartitionMap

end Datalog
