import Mathlib.Data.List.Basic
import Datalog.Proofs.JsonText
import Datalog.Storage.Directory

/-!
# Fact files read back

The record of a ground tuple that nests within the limit decodes to the tuple
(`FactRecord.decode_encode`), and different tuples have different records in any case
(`FactRecord.encode_injective`). A record holds no line break, so the file of a relation splits into the
records of its tuples, and reading the file gives the relation (`FactFile.readLines_write`).
-/

namespace Datalog

namespace Json

mutual

/-- The number of containers that a document nests. -/
def nesting : Json → Nat
  | .arr js => nestingItems js + 1
  | .obj ms => nestingMembers ms + 1
  | _ => 0

/-- The most containers that one of the items nests. -/
def nestingItems : List Json → Nat
  | [] => 0
  | j :: js => max j.nesting (nestingItems js)

/-- The most containers that one of the members nests. -/
def nestingMembers : List (String × Json) → Nat
  | [] => 0
  | (_, j) :: ms => max j.nesting (nestingMembers ms)

end

end Json

/-! ### Records -/

namespace FactRecord

theorem value?_ofValue (v : Value) : value? (ofValue v) = some v := by
  cases v with
  | int n =>
    have word : Word.ofInt? n.toInt = some n := Word.ofInt?_eq_some_iff.2 rfl
    simp [ofValue, value?, Json.integer?_int, word]
  | str s => simp [ofValue, value?, Json.text?]
  | bool b => simp [ofValue, value?]

theorem nesting_ofValue (v : Value) : (ofValue v).nesting = 1 := by
  cases v <;> simp [ofValue, Json.nesting, Json.nestingMembers, Json.int]

mutual

/-- A term reads back from its document exactly within its nesting. -/
theorem term?_ofTerm : ∀ (b : Nat) (t : Term),
    term? b (ofTerm t) = if (ofTerm t).nesting ≤ b then some t else none
  | b, .var x => by
    rw [ofTerm, term?.eq_def]
    simp [Json.text?, Json.nesting, Json.nestingMembers]
  | b, .const v => by
    have nested : (ofTerm (.const v)).nesting = 2 := by
      simp [ofTerm, Json.nesting, Json.nestingMembers, nesting_ofValue]
    rw [nested, ofTerm, term?.eq_def]
    simp [value?_ofValue]
  | b, .app f ts => by
    have nested : (ofTerm (.app f ts)).nesting = Json.nestingItems (ofTerms ts) + 3 := by
      simp [ofTerm, Json.nesting, Json.nestingMembers]
    rw [nested]
    match b with
    | 0 | 1 | 2 => simp [ofTerm, term?]
    | b + 3 =>
      have args := term?_ofTerms b ts
      simp [ofTerm, term?, application?, member?, Json.members, Json.text?, Json.items?, args]
      split <;> rfl

theorem term?_ofTerms : ∀ (b : Nat) (ts : List Term),
    (ofTerms ts).mapM (term? b) = if Json.nestingItems (ofTerms ts) ≤ b then some ts else none
  | b, [] => by simp [ofTerms, Json.nestingItems]
  | b, t :: ts => by
    have first := term?_ofTerm b t
    have others := term?_ofTerms b ts
    simp only [ofTerms, Json.nestingItems, List.mapM_cons, first, others, Nat.max_le]
    split_ifs with both <;> simp_all

end

theorem tuple?_ofTuple (t : Tuple) :
    tuple? (ofTuple t) = if (ofTuple t).nesting ≤ nestingLimit then some t else none := by
  have nested : (ofTuple t).nesting = Json.nestingItems (ofTerms t) + 2 := by
    simp [ofTuple, Json.nesting, Json.nestingMembers]
  have terms := term?_ofTerms (nestingLimit - 2) t
  have limits : Json.nestingItems (ofTerms t) + 2 ≤ nestingLimit ↔
      Json.nestingItems (ofTerms t) ≤ nestingLimit - 2 := by
    unfold nestingLimit
    omega
  rw [nested, if_congr limits rfl rfl, ← terms]
  simp [ofTuple, tuple?, member?, Json.members, Json.items?]

theorem plain_ofValue (v : Value) : (ofValue v).Plain := by
  cases v with
  | int n => exact ⟨⟨n.toInt, rfl⟩, trivial⟩
  | str s => exact ⟨trivial, trivial⟩
  | bool b => exact ⟨trivial, trivial⟩

mutual

theorem plain_ofTerm : ∀ t : Term, (ofTerm t).Plain
  | .var _ => ⟨trivial, trivial⟩
  | .const v => ⟨plain_ofValue v, trivial⟩
  | .app _ ts => ⟨⟨trivial, plain_ofTerms ts, trivial⟩, trivial⟩

theorem plain_ofTerms : ∀ ts : List Term, Json.PlainItems (ofTerms ts)
  | [] => trivial
  | t :: ts => ⟨plain_ofTerm t, plain_ofTerms ts⟩

end

theorem plain_ofTuple (t : Tuple) : (ofTuple t).Plain := ⟨plain_ofTerms t, trivial⟩

/-- A tuple that can be kept as a fact of a predicate: ground, of its arity, and with a record that
nests within the limit. -/
structure Storable (p : Predicate) (t : Tuple) : Prop where
  arity : t.length = p.arity
  ground : t.isGround = true
  nesting : (ofTuple t).nesting ≤ nestingLimit

instance (p : Predicate) (t : Tuple) : Decidable (Storable p t) :=
  decidable_of_iff (t.length = p.arity ∧ t.isGround = true ∧ (ofTuple t).nesting ≤ nestingLimit)
    ⟨fun ⟨arity, ground, nesting⟩ => ⟨arity, ground, nesting⟩,
      fun ⟨arity, ground, nesting⟩ => ⟨arity, ground, nesting⟩⟩

/-- What reading makes of a record that was written. -/
theorem decode_encode_eq (p : Predicate) (t : Tuple) :
    decode p (encode t) =
      if nestingLimit < (ofTuple t).nesting then .error .record
      else if t.length ≠ p.arity then .error (.recordArity t.length p)
      else if t.isGround then .ok t
      else .error (.openRecord t p) := by
  unfold decode encode
  rw [Json.parse?_render (plain_ofTuple t), Option.bind_some, tuple?_ofTuple]
  by_cases deep : nestingLimit < (ofTuple t).nesting
  · rw [if_neg (Nat.not_le.2 deep), if_pos deep]
  · rw [if_pos (Nat.not_lt.1 deep), if_neg deep]
    cases ground : t.isGround <;> simp [ground]

/-- **Records read back.** -/
theorem decode_encode {p : Predicate} {t : Tuple} (storable : Storable p t) :
    decode p (encode t) = .ok t := by
  rw [decode_encode_eq, if_neg (Nat.not_lt.2 storable.nesting), if_neg (not_not.2 storable.arity),
    if_pos storable.ground]

/-- Different tuples have different records, whether these can be read back or not. -/
theorem encode_injective : Function.Injective encode := by
  intro t t' same
  have docs : ofTuple t = ofTuple t' := by
    have parsed := Json.parse?_render (plain_ofTuple t)
    rw [← encode, same, encode, Json.parse?_render (plain_ofTuple t')] at parsed
    exact (Option.some.inj parsed).symm
  have terms : ofTerms t = ofTerms t' := by simpa [ofTuple] using docs
  -- Read within as many containers as it nests, each document gives its terms back.
  have read := term?_ofTerms (Json.nestingItems (ofTerms t)) t
  rw [terms, term?_ofTerms, if_pos (Nat.le_refl _), if_pos (Nat.le_refl _)] at read
  exact (Option.some.inj read).symm

/-- A record stands between braces and holds no line break. -/
theorem toList_encode (t : Tuple) :
    ∃ inner, (encode t).toList = '\x7b' :: inner ++ ['\x7d'] ∧ '\n' ∉ inner := by
  have reads : Json.Scanner.Reads (ofTuple t).tokens [] :=
    Json.Scanner.reads_tokens (plain_ofTuple t) fun c hc => by cases hc
  have text : (encode t).toList = Json.spellAll (ofTuple t).tokens := String.toList_ofList
  have tokens : (ofTuple t).tokens =
      [.openObj] ++ (.str "terms" :: .colon :: (Json.arr (ofTerms t)).tokens) ++ [.closeObj] := by
    simp [ofTuple, Json.tokens, Json.memberTokens]
  have unbroken := reads.unbroken
  refine ⟨Json.spellAll (.str "terms" :: .colon :: (Json.arr (ofTerms t)).tokens), ?_, fun broken => ?_⟩
  · rw [text, tokens, Json.spellAll, List.flatMap_append, List.flatMap_append]
    rfl
  · rw [tokens, Json.spellAll, List.flatMap_append, List.flatMap_append] at unbroken
    exact unbroken (List.mem_append_left _ (List.mem_append_right _ broken))

end FactRecord

/-! ### Files -/

namespace Text

theorem bytes_ofList (cs : List Char) : bytes (String.ofList cs) = cs.flatMap String.utf8EncodeChar := by
  rw [bytes, String.toUTF8, String.toByteArray_ofList, List.utf8Encode, List.data_toByteArray]

theorem bytes_eq_flatMap (s : String) : bytes s = s.toList.flatMap String.utf8EncodeChar := by
  rw [← bytes_ofList, String.ofList_toList]

theorem bytes_append (s t : String) : bytes (s ++ t) = bytes s ++ bytes t := by
  rw [bytes_eq_flatMap, bytes_eq_flatMap, bytes_eq_flatMap, String.toList_append, List.flatMap_append]

/-- Only the line break is encoded with its byte. -/
theorem eq_newline_of_mem_utf8EncodeChar {c : Char} (h : 10 ∈ String.utf8EncodeChar c) : c = '\n' := by
  have byte {n : Nat} (same : (10 : UInt8) = UInt8.ofNat n) : 10 = n % 256 := by
    have toNat := congrArg UInt8.toNat same
    rwa [UInt8.toNat_ofNat'] at toNat
  unfold String.utf8EncodeChar at h
  dsimp only at h
  split_ifs at h with one two three
  · simp only [List.mem_singleton] at h
    have value := byte h
    have code : c.toNat = 10 := by
      show c.val.toNat = 10
      omega
    exact Char.toNat_inj.1 code
  all_goals
    simp only [List.mem_cons, List.not_mem_nil, or_false] at h
    exfalso
  · rcases h with h | h <;> · have := byte h; omega
  · rcases h with h | h | h <;> · have := byte h; omega
  · rcases h with h | h | h | h <;> · have := byte h; omega

theorem newline_mem_bytes {s : String} (h : 10 ∈ bytes s) : '\n' ∈ s.toList := by
  rw [bytes_eq_flatMap, List.mem_flatMap] at h
  obtain ⟨c, hc, encoded⟩ := h
  rw [← eq_newline_of_mem_utf8EncodeChar encoded]
  exact hc

/-- A piece ends at the first separator. -/
theorem splitOn_append_cons {α : Type} [DecidableEq α] {sep : α} {w : List α} (clean : sep ∉ w)
    (l : List α) : splitOn sep (w ++ sep :: l) = w :: splitOn sep l := by
  induction w with
  | nil => rw [List.nil_append, splitOn, if_pos rfl]
  | cons a w ih =>
    obtain ⟨other, rest⟩ := List.ne_and_not_mem_of_not_mem_cons clean
    rw [List.cons_append, splitOn, if_neg (Ne.symm other), ih rest]

/-- A list of pieces that each end in the separator, and hold it nowhere else, splits into them. -/
theorem splitOn_flatMap {α : Type} [DecidableEq α] {sep : α} {pieces : List (List α)}
    (clean : ∀ w ∈ pieces, sep ∉ w) :
    splitOn sep (pieces.flatMap fun w => w ++ [sep]) = pieces ++ [[]] := by
  induction pieces with
  | nil => rfl
  | cons w pieces ih =>
    obtain ⟨first, others⟩ := List.forall_mem_cons.1 clean
    rw [List.flatMap_cons, List.append_assoc, List.singleton_append, splitOn_append_cons first,
      ih others, List.cons_append]

end Text

namespace FactFile

/-- The bytes of a record hold no line break and do not end in a carriage return. -/
theorem bytes_encode (t : Tuple) :
    10 ∉ Text.bytes (FactRecord.encode t) ∧ (Text.bytes (FactRecord.encode t)).getLast? = some 125 := by
  obtain ⟨inner, text, unbroken⟩ := FactRecord.toList_encode t
  constructor
  · intro broken
    have char := Text.newline_mem_bytes broken
    rw [text] at char
    simp [unbroken] at char
  · rw [Text.bytes_eq_flatMap, text, List.flatMap_append]
    have brace : ['\x7d'].flatMap String.utf8EncodeChar = [125] := by decide
    rw [brace, List.getLast?_append]
    rfl

/-- The lines of the file of a relation are the records of its tuples. -/
theorem lines_write (r : Relation) :
    lines (write r) = r.toList.map fun t => Text.bytes (FactRecord.encode t) := by
  have newline : Text.bytes "\n" = [10] := by decide
  have file : write r = (r.toList.map fun t => Text.bytes (FactRecord.encode t)).flatMap
      fun w => w ++ [10] := by
    rw [write, List.flatMap_map]
    simp only [Text.bytes_append, newline]
  have pieces : Text.splitOn 10 (write r) =
      (r.toList.map fun t => Text.bytes (FactRecord.encode t)) ++ [[]] := by
    rw [file]
    refine Text.splitOn_flatMap fun w hw => ?_
    obtain ⟨t, -, rfl⟩ := List.mem_map.1 hw
    exact (bytes_encode t).1
  have kept (t : Tuple) : dropReturn (Text.bytes (FactRecord.encode t)) =
      Text.bytes (FactRecord.encode t) := by
    rw [dropReturn, if_neg]
    rw [(bytes_encode t).2]
    decide
  rw [lines, pieces]
  simp [kept, Function.comp_def]

/-- A line of the file of a relation is the record of a tuple exactly if the relation has the tuple. -/
theorem mem_lines_write {r : Relation} {t : Tuple} :
    Text.bytes (FactRecord.encode t) ∈ lines (write r) ↔ t ∈ r := by
  have records : Function.Injective fun t => Text.bytes (FactRecord.encode t) := by
    intro t t' same
    have text := congrArg Text.ofBytes? same
    rw [Text.ofBytes?_bytes, Text.ofBytes?_bytes] at text
    exact FactRecord.encode_injective (Option.some.inj text)
  rw [lines_write, List.mem_map_of_injective records]
  rfl

theorem not_isBlank_encode (t : Tuple) : Text.isBlank (FactRecord.encode t) = false := by
  obtain ⟨inner, text, -⟩ := FactRecord.toList_encode t
  rw [Text.isBlank, text, List.cons_append, List.all_cons]
  have brace : Text.isBlankChar '\x7b' = false := by decide
  rw [brace]
  rfl

theorem readLines_records {p : Predicate} {ts : List Tuple}
    (storable : ∀ t ∈ ts, FactRecord.Storable p t) :
    readLines p (ts.map fun t => Text.bytes (FactRecord.encode t)) = .ok ts := by
  induction ts with
  | nil => rfl
  | cons t ts ih =>
    obtain ⟨first, others⟩ := List.forall_mem_cons.1 storable
    rw [List.map_cons, readLines, Text.ofBytes?_bytes]
    dsimp only
    rw [not_isBlank_encode, FactRecord.decode_encode first, ih others]
    rfl

/-- **The lines of the file of a relation decode to its tuples.** -/
theorem readLines_write {p : Predicate} {r : Relation} (storable : ∀ t ∈ r, FactRecord.Storable p t) :
    readLines p (lines (write r)) = .ok r.toList := by
  rw [lines_write]
  exact readLines_records storable

theorem read_write {p : Predicate} {r : Relation} (storable : ∀ t ∈ r, FactRecord.Storable p t) :
    read p (write r) = .ok r := by
  have listed : SortedSet.ofList r.toList = r := SortedSet.ext_mem fun t => by
    rw [SortedSet.mem_ofList]
    rfl
  rw [read, readLines_write storable]
  show Except.ok (SortedSet.ofList r.toList) = _
  rw [listed]

end FactFile

end Datalog
