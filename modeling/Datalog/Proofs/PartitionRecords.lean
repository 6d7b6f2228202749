import Datalog.Proofs.Partitions

/-!
# Partition records have one written form

Writing the partition table and reading it are inverse to each other: bytes are accepted exactly when
they are the records of entries whose symbols fit the length field, and then those are the entries
(`PartitionTable.read?_eq_some_iff`). Every step of the reader has one lemma that says which bytes it
takes. Records need no mark at their end, since no record is the beginning of another; so records that
are cut off are accepted only where one of them ends, and are then the first ones
(`PartitionTable.prefix_of_write`).
-/

namespace Datalog.PartitionTable

variable {k n : Nat} {bs rest : List UInt8} {e : PartitionEntry} {es es' : List PartitionEntry}

/-! ### Fields -/

theorem ofLowBytes_lt (bs : List UInt8) : ofLowBytes bs < 256 ^ bs.length := by
  induction bs with
  | nil => exact Nat.one_pos
  | cons b bs ih =>
    have low : b.toNat < 256 := b.toNat_lt
    rw [ofLowBytes, List.length_cons, Nat.pow_succ]
    omega

theorem lowBytes_ofLowBytes (bs : List UInt8) : lowBytes bs.length (ofLowBytes bs) = bs := by
  induction bs with
  | nil => rfl
  | cons b bs ih =>
    have low : b.toNat < 256 := b.toNat_lt
    have first : UInt8.ofNat (b.toNat + 256 * ofLowBytes bs) = b := by
      rw [← UInt8.toNat_inj, UInt8.toNat_ofNat']
      omega
    have others : (b.toNat + 256 * ofLowBytes bs) / 256 = ofLowBytes bs := by omega
    rw [ofLowBytes, List.length_cons, lowBytes, first, others, ih]

theorem take?_eq_some_iff {front : List UInt8} :
    take? k bs = some (front, rest) ↔ front.length = k ∧ bs = front ++ rest := by
  constructor
  · intro h
    rw [take?] at h
    split at h
    · cases h
    · next enough =>
      rw [List.splitAt_eq] at h
      cases h
      exact ⟨List.length_take_of_le (Nat.not_lt.1 enough), (List.take_append_drop k bs).symm⟩
  · rintro ⟨rfl, rfl⟩
    exact take?_append front rest

theorem takeNat?_eq_some_iff :
    takeNat? k bs = some (n, rest) ↔ n < 256 ^ k ∧ bs = lowBytes k n ++ rest := by
  constructor
  · intro h
    obtain ⟨⟨front, rest'⟩, taken, h⟩ := Option.bind_eq_some_iff.1 h
    cases h
    obtain ⟨rfl, rfl⟩ := take?_eq_some_iff.1 taken
    exact ⟨ofLowBytes_lt front, by rw [lowBytes_ofLowBytes]⟩
  · rintro ⟨fits, rfl⟩
    exact takeNat?_lowBytes fits rest

/-! ### Records -/

/-- The length of the symbol in bytes fits the 64 bits that a record has for it. -/
def Writable (e : PartitionEntry) : Prop := (Text.bytes e.symbol).length < 2 ^ 64

instance : DecidablePred Writable := fun _ => inferInstanceAs (Decidable (_ < _))

/-- What is read as a record is the record of the entry. -/
theorem writeEntry_of_read (h : readEntry? bs = some (e, rest)) :
    Writable e ∧ bs = writeEntry e ++ rest := by
  obtain ⟨⟨length, bs₁⟩, lengthRead, h⟩ := Option.bind_eq_some_iff.1 h
  obtain ⟨⟨front, bs₂⟩, symbolRead, h⟩ := Option.bind_eq_some_iff.1 h
  obtain ⟨symbol, decoded, h⟩ := Option.bind_eq_some_iff.1 h
  obtain ⟨⟨id, bs₃⟩, idRead, h⟩ := Option.bind_eq_some_iff.1 h
  obtain ⟨⟨location, bs₄⟩, locationRead, h⟩ := Option.bind_eq_some_iff.1 h
  obtain ⟨⟨count, bs₅⟩, countRead, h⟩ := Option.bind_eq_some_iff.1 h
  cases h
  obtain ⟨lengthFits, rfl⟩ := takeNat?_eq_some_iff.1 lengthRead
  obtain ⟨rfl, rfl⟩ := take?_eq_some_iff.1 symbolRead
  obtain ⟨idFits, rfl⟩ := takeNat?_eq_some_iff.1 idRead
  obtain ⟨locationFits, rfl⟩ := takeNat?_eq_some_iff.1 locationRead
  obtain ⟨countFits, rfl⟩ := takeNat?_eq_some_iff.1 countRead
  cases Text.eq_bytes_of_ofBytes? decoded
  have word32 {m : Nat} (fits : m < 256 ^ 4) : (UInt32.ofNat m).toNat = m :=
    UInt32.toNat_ofNat_of_lt' fits
  have word64 {m : Nat} (fits : m < 256 ^ 8) : (UInt64.ofNat m).toNat = m :=
    UInt64.toNat_ofNat_of_lt' fits
  refine ⟨lengthFits, ?_⟩
  simp only [writeEntry, UInt32.toUInt32_toInt32, UInt64.toUInt64_toInt64, word32 idFits,
    word32 locationFits, word64 countFits, List.append_assoc]

theorem readEntry?_eq_some_iff :
    readEntry? bs = some (e, rest) ↔ Writable e ∧ bs = writeEntry e ++ rest := by
  refine ⟨writeEntry_of_read, ?_⟩
  rintro ⟨fits, rfl⟩
  exact readEntry?_writeEntry fits rest

/-- No record is the beginning of another. -/
theorem writeEntry_append_inj {e' : PartitionEntry} {rest' : List UInt8} (fits : Writable e)
    (fits' : Writable e') (same : writeEntry e ++ rest = writeEntry e' ++ rest') :
    e = e' ∧ rest = rest' := by
  have read := readEntry?_writeEntry fits rest
  rw [same, readEntry?_writeEntry fits' rest'] at read
  cases read
  exact ⟨rfl, rfl⟩

/-! ### Tables -/

theorem write_cons (e : PartitionEntry) (es : List PartitionEntry) :
    write (e :: es) = writeEntry e ++ write es := List.flatMap_cons

/-- What is read as a table is the table of the entries. -/
theorem write_of_read (h : readUpTo? n bs = some es) : (∀ e ∈ es, Writable e) ∧ bs = write es := by
  induction n generalizing bs es with
  | zero =>
    cases bs with
    | nil =>
      cases h
      exact ⟨List.forall_mem_nil _, rfl⟩
    | cons b bs => cases h
  | succ n ih =>
    cases bs with
    | nil =>
      cases h
      exact ⟨List.forall_mem_nil _, rfl⟩
    | cons b bs =>
      obtain ⟨⟨e, rest⟩, first, h⟩ := Option.bind_eq_some_iff.1 h
      obtain ⟨others, later, h⟩ := Option.bind_eq_some_iff.1 h
      cases h
      obtain ⟨fits, start⟩ := readEntry?_eq_some_iff.1 first
      obtain ⟨othersFit, rfl⟩ := ih later
      exact ⟨List.forall_mem_cons.2 ⟨fits, othersFit⟩, by rw [start, write_cons]⟩

/-- Bytes are accepted exactly when they are the records of entries that can be written. -/
theorem read?_eq_some_iff : read? bs = some es ↔ (∀ e ∈ es, Writable e) ∧ bs = write es := by
  refine ⟨write_of_read, ?_⟩
  rintro ⟨fits, rfl⟩
  exact read?_write fits

/-- Records that begin other records are the first of them. -/
theorem prefix_of_write (fits : ∀ e ∈ es, Writable e) (fits' : ∀ e ∈ es', Writable e)
    (front : write es' <+: write es) : es' <+: es := by
  induction es' generalizing es with
  | nil => exact List.nil_prefix
  | cons e' es' ih =>
    obtain ⟨rest, same⟩ := front
    obtain ⟨first', others'⟩ := List.forall_mem_cons.1 fits'
    rw [write_cons, List.append_assoc] at same
    cases es with
    | nil =>
      obtain ⟨empty, -⟩ := List.append_eq_nil_iff.1 same
      exact absurd empty (writeEntry_ne_nil e')
    | cons e es =>
      obtain ⟨first, others⟩ := List.forall_mem_cons.1 fits
      rw [write_cons] at same
      obtain ⟨rfl, later⟩ := writeEntry_append_inj first' first same
      exact List.cons_prefix_cons.2 ⟨rfl, ih others others' ⟨rest, later⟩⟩

/-- **Partition records are an exact format.** Reading accepts just the bytes that writing makes of
entries whose symbols are shorter than `2 ^ 64` bytes, and gives back the entries. The beginning of a
written table is accepted exactly when it ends where a record does; the entries read are then the first
entries of the table. -/
theorem reading_exact :
    (∀ bs es, read? bs = some es ↔ (∀ e ∈ es, Writable e) ∧ bs = write es) ∧
    ∀ es, (∀ e ∈ es, Writable e) → ∀ bs, bs <+: write es →
      ∀ es', read? bs = some es' ↔ es' <+: es ∧ bs = write es' := by
  refine ⟨fun bs es => read?_eq_some_iff, fun es fits bs front es' => ?_⟩
  rw [read?_eq_some_iff]
  constructor
  · rintro ⟨fits', rfl⟩
    exact ⟨prefix_of_write fits fits' front, rfl⟩
  · rintro ⟨first, rfl⟩
    exact ⟨fun e he => fits e (first.subset he), rfl⟩

/-- Two entries, one of them with a symbol beyond ASCII and a negative count. -/
def twoEntries : List PartitionEntry := [⟨"edge", 0, 1, 1024⟩, ⟨"größe", 1, 0, -3⟩]

/-- The table of two entries is read after its first record, and not three bytes later. -/
theorem reading_twoEntries_cut :
    (∀ e ∈ twoEntries, Writable e) ∧ (write twoEntries).length = 59 ∧
    read? ((write twoEntries).take 28) = some (twoEntries.take 1) ∧
    read? ((write twoEntries).take 31) = none := by
  have fits : ∀ e ∈ twoEntries, Writable e := by decide +kernel
  have whole : (write twoEntries).length = 59 := by decide +kernel
  refine ⟨fits, whole, ?_, ?_⟩
  · refine (reading_exact.2 twoEntries fits _ (List.take_prefix ..) _).2 ⟨List.take_prefix .., ?_⟩
    decide +kernel
  · rw [Option.eq_none_iff_forall_ne_some]
    intro es' accepted
    obtain ⟨first, cut⟩ := (reading_exact.2 twoEntries fits _ (List.take_prefix ..) _).1 accepted
    have ends : ∀ n ≤ 2, (write twoEntries).take 31 ≠ write (twoEntries.take n) := by decide +kernel
    rw [List.prefix_iff_eq_take.1 first] at cut
    exact ends es'.length first.length_le cut

end Datalog.PartitionTable
