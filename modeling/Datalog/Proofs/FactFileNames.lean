import Mathlib.Data.List.Basic
import Mathlib.Data.List.Induction
import Datalog.Proofs.JsonText
import Datalog.Storage.Layout

/-!
# The names of fact files

Digits are the numeral of their value behind leading zeros (`Decimal.exists_zeros`), and a list is cut at
its last separator in one way (`Text.splitLast?_eq_some_iff`). So a name is read as a predicate exactly when
it spells the predicate: the symbol, an underscore, the arity with leading zeros or a plus sign if there are
any, and the extension (`Layout.parseFactFileName?_eq_some_iff`). The symbol may hold anything, the
underscore and the extension included.
-/

namespace Datalog

namespace Decimal

/-- A digit is the numeral of its value. -/
theorem toDigits_of_isDigit {c : Char} (digit : c.isDigit = true) :
    c.toNat - '0'.toNat < 10 ∧ Nat.toDigits 10 (c.toNat - '0'.toNat) = [c] := by
  have zero : '0'.toNat = 48 := rfl
  obtain ⟨low, high⟩ : 48 ≤ c.toNat ∧ c.toNat ≤ 57 := by
    rw [Char.isDigit, Bool.and_eq_true, decide_eq_true_iff, decide_eq_true_iff] at digit
    exact digit
  have small : c.toNat - '0'.toNat < 10 := by omega
  refine ⟨small, ?_⟩
  rw [Nat.toDigits_of_lt_base small]
  refine congrArg (fun d => [d]) (Char.toNat_inj.1 ?_)
  rw [Nat.toNat_digitChar_of_lt_ten small]
  omega

/-- Leading zeros do not count. -/
theorem ofDigitChars_zeros (zeros : Nat) (cs : List Char) :
    Nat.ofDigitChars 10 (List.replicate zeros '0' ++ cs) 0 = Nat.ofDigitChars 10 cs 0 := by
  induction zeros with
  | zero => rfl
  | succ zeros ih =>
    rw [List.replicate_succ, List.cons_append, Nat.ofDigitChars_cons]
    exact ih

/-- Digits are the numeral of their value behind leading zeros. -/
theorem exists_zeros {cs : List Char} (some_digit : cs ≠ []) (digits : ∀ c ∈ cs, c.isDigit = true) :
    ∃ zeros, cs = List.replicate zeros '0' ++ Nat.toDigits 10 (Nat.ofDigitChars 10 cs 0) := by
  induction cs using List.reverseRecOn with
  | nil => exact absurd rfl some_digit
  | append_singleton front c ih =>
    obtain ⟨small, last⟩ := toDigits_of_isDigit (digits c (by simp))
    have value : Nat.ofDigitChars 10 (front ++ [c]) 0 =
        10 * Nat.ofDigitChars 10 front 0 + (c.toNat - '0'.toNat) := by
      rw [Nat.ofDigitChars_append]
      rfl
    rw [value]
    by_cases alone : front = []
    · subst alone
      refine ⟨0, ?_⟩
      show [c] = Nat.toDigits 10 (0 + (c.toNat - '0'.toNat))
      rw [Nat.zero_add, last]
    obtain ⟨zeros, before⟩ := ih alone fun d hd => digits d (List.mem_append_left _ hd)
    rcases Nat.eq_zero_or_pos (Nat.ofDigitChars 10 front 0) with zero | positive
    · -- All that comes before is zeros, and the last digit is the numeral.
      refine ⟨zeros + 1, ?_⟩
      rw [zero] at before ⊢
      rw [Nat.mul_zero, Nat.zero_add, last, before, List.replicate_succ']
      rfl
    · refine ⟨zeros, ?_⟩
      rw [← Nat.toDigits_append_toDigits (by decide) positive small, last, ← List.append_assoc, ← before]

theorem readNat?_eq_some_iff {cs : List Char} {n : Nat} :
    readNat? cs = some n ↔ ∃ zeros, cs = List.replicate zeros '0' ++ Nat.toDigits 10 n := by
  unfold readNat?
  constructor
  · intro h
    split at h
    · next run =>
      cases h
      exact exists_zeros run.1 (List.all_eq_true.1 run.2)
    · cases h
  · rintro ⟨zeros, rfl⟩
    have digits : (List.replicate zeros '0' ++ Nat.toDigits 10 n).all Char.isDigit = true := by
      rw [List.all_eq_true]
      intro c hc
      rcases List.mem_append.1 hc with zero | digit
      · rw [List.eq_of_mem_replicate zero]
        rfl
      · exact isDigit_of_mem_toDigits digit
    rw [if_pos ⟨by simp [Nat.toDigits_ne_nil], digits⟩, ofDigitChars_zeros,
      Nat.ofDigitChars_toDigits (by decide) (by decide)]

/-- The plus sign of a numeral, if it has one. -/
def plusSign (signed : Bool) : List Char := if signed then ['+'] else []

theorem readUnsigned?_eq_some_iff {cs : List Char} {n : Nat} :
    readUnsigned? cs = some n ↔
      ∃ signed zeros, cs = plusSign signed ++ (List.replicate zeros '0' ++ Nat.toDigits 10 n) := by
  have no_sign {zeros : Nat} {rest : List Char} :
      '+' :: rest ≠ List.replicate zeros '0' ++ Nat.toDigits 10 n := by
    intro same
    have first : '+' ∈ List.replicate zeros '0' ++ Nat.toDigits 10 n := same ▸ List.mem_cons_self
    rcases List.mem_append.1 first with zero | digit
    · exact absurd (List.eq_of_mem_replicate zero) (by decide)
    · exact absurd (isDigit_of_mem_toDigits digit) (by decide)
  unfold readUnsigned?
  split
  · next rest =>
    rw [readNat?_eq_some_iff]
    constructor
    · rintro ⟨zeros, rfl⟩
      exact ⟨true, zeros, rfl⟩
    · rintro ⟨signed, zeros, same⟩
      cases signed with
      | true => exact ⟨zeros, (List.cons.inj same).2⟩
      | false => exact absurd same no_sign
  · next unsigned =>
    rw [readNat?_eq_some_iff]
    constructor
    · rintro ⟨zeros, same⟩
      exact ⟨false, zeros, same⟩
    · rintro ⟨signed, zeros, same⟩
      cases signed with
      | true => exact absurd same (unsigned _)
      | false => exact ⟨zeros, same⟩

end Decimal

namespace Text

variable {α : Type} [DecidableEq α] {sep : α} {l front back : List α}

theorem splitLast?_eq_none_iff : splitLast? sep l = none ↔ sep ∉ l := by
  induction l with
  | nil => exact iff_of_true rfl List.not_mem_nil
  | cons a l ih =>
    rw [splitLast?, List.mem_cons, not_or, ← ih]
    cases splitLast? sep l with
    | some cut => simp
    | none =>
      by_cases here : a = sep
      · simp [here]
      · simp [here, Ne.symm here]

/-- A list is cut at its last separator in one way. -/
theorem splitLast?_eq_some_iff :
    splitLast? sep l = some (front, back) ↔ l = front ++ sep :: back ∧ sep ∉ back := by
  constructor
  · intro h
    induction l generalizing front with
    | nil => cases h
    | cons a l ih =>
      rw [splitLast?] at h
      split at h
      · next later =>
        cases h
        obtain ⟨rfl, clean⟩ := ih later
        exact ⟨rfl, clean⟩
      · next none =>
        split at h
        · next here =>
          cases h
          exact ⟨by rw [here]; rfl, splitLast?_eq_none_iff.1 none⟩
        · cases h
  · rintro ⟨rfl, clean⟩
    induction front with
    | nil => rw [List.nil_append, splitLast?, splitLast?_eq_none_iff.2 clean, if_pos rfl]
    | cons a front ih => rw [List.cons_append, splitLast?, ih]

end Text

namespace Layout

/-- A name for the file of a predicate: that of the file, but with leading zeros before the arity, and
with a plus sign before these if it is signed. -/
def spelling (p : Predicate) (signed : Bool) (zeros : Nat) : String :=
  p.symbol ++ "_" ++ (if signed then "+" else "") ++ String.ofList (List.replicate zeros '0') ++
    toString p.arity ++ factFileExtension

theorem factFileName_eq_spelling (p : Predicate) : factFileName p = spelling p false 0 := by
  simp [factFileName, spelling]

/-- The numeral of the arity as it is spelled. -/
theorem toList_spelling (p : Predicate) (signed : Bool) (zeros : Nat) :
    (spelling p signed zeros).toList =
      p.symbol.toList ++ '_' :: (Decimal.plusSign signed ++
        (List.replicate zeros '0' ++ Nat.toDigits 10 p.arity)) ++ factFileExtension.toList := by
  cases signed <;> simp [spelling, Decimal.plusSign]

/-- No underscore comes after the one before the arity. -/
theorem underscore_not_mem_numeral {signed : Bool} {zeros n : Nat} :
    '_' ∉ Decimal.plusSign signed ++ (List.replicate zeros '0' ++ Nat.toDigits 10 n) := by
  rw [List.mem_append, List.mem_append, not_or, not_or]
  refine ⟨?_, ?_, ?_⟩
  · cases signed <;> decide
  · intro zero
    exact absurd (List.eq_of_mem_replicate zero) (by decide)
  · intro digit
    exact absurd (Decimal.isDigit_of_mem_toDigits digit) (by decide)

/-- **A name is read as a predicate when it spells the predicate.** -/
theorem parseFactFileName?_eq_some_iff {name : String} {p : Predicate} :
    parseFactFileName? name = some p ↔
      p.symbol ≠ "" ∧ p.arity < UInt64.size ∧ ∃ signed zeros, name = spelling p signed zeros := by
  unfold parseFactFileName?
  simp only [Option.bind_eq_bind, Option.bind_eq_some_iff]
  constructor
  · rintro ⟨stem, suffix, ⟨symbol, digits⟩, cut, arity, read, h⟩
    split at h
    · cases h
    · next fits =>
      cases h
      rw [Bool.or_eq_true, not_or, decide_eq_true_iff, Nat.not_le, List.isEmpty_iff] at fits
      obtain ⟨signed, zeros, rfl⟩ := Decimal.readUnsigned?_eq_some_iff.1 read
      obtain ⟨rfl, -⟩ := Text.splitLast?_eq_some_iff.1 cut
      refine ⟨?_, fits.2, signed, zeros, ?_⟩
      · simpa using fits.1
      · rw [← String.toList_inj, toList_spelling, String.toList_ofList]
        exact (List.isSuffixOf?_eq_some_iff_append_eq.1 suffix).symm
  · rintro ⟨symbol, arity, signed, zeros, rfl⟩
    refine ⟨_, List.isSuffixOf?_eq_some_iff_append_eq.2 (toList_spelling p signed zeros).symm, _,
      Text.splitLast?_eq_some_iff.2 ⟨rfl, underscore_not_mem_numeral⟩, p.arity,
      Decimal.readUnsigned?_eq_some_iff.2 ⟨signed, zeros, rfl⟩, ?_⟩
    have some_symbol : p.symbol.toList.isEmpty = false := by simpa using symbol
    rw [some_symbol, Bool.false_or, if_neg (by simpa using arity), String.ofList_toList]

/-- The name of a fact file tells its predicate. -/
theorem parseFactFileName?_factFileName {p : Predicate} (symbol : p.symbol ≠ "")
    (arity : p.arity < UInt64.size) : parseFactFileName? (factFileName p) = some p :=
  parseFactFileName?_eq_some_iff.2 ⟨symbol, arity, false, 0, factFileName_eq_spelling p⟩

theorem eq_of_factFileName_eq {p q : Predicate} (symbol : p.symbol ≠ "") (arity : p.arity < UInt64.size)
    (symbol' : q.symbol ≠ "") (arity' : q.arity < UInt64.size)
    (same : factFileName p = factFileName q) : p = q := by
  have read := parseFactFileName?_factFileName symbol arity
  rw [same, parseFactFileName?_factFileName symbol' arity'] at read
  exact (Option.some.inj read).symm

/-- **The names of fact files identify predicates.** The name of the file of a predicate is read as the
predicate, so no two predicates share one, whatever their symbols are. Each name that is read as a
predicate has the symbol and the arity of the predicate in it, with a plus sign or zeros before the arity at
most; the name of the predicate's own file is read as the same predicate. -/
theorem fact_file_names_exact :
    (∀ p : Predicate, p.symbol ≠ "" → p.arity < UInt64.size →
      parseFactFileName? (factFileName p) = some p) ∧
    (∀ p q : Predicate, p.symbol ≠ "" → p.arity < UInt64.size → q.symbol ≠ "" →
      q.arity < UInt64.size → factFileName p = factFileName q → p = q) ∧
    ∀ name q, parseFactFileName? name = some q →
      q.symbol ≠ "" ∧ parseFactFileName? (factFileName q) = some q ∧
        ∃ signed zeros, name = spelling q signed zeros := by
  refine ⟨fun p symbol arity => parseFactFileName?_factFileName symbol arity, ?_, ?_⟩
  · intro p q symbol arity symbol' arity' same
    exact eq_of_factFileName_eq symbol arity symbol' arity' same
  · intro name q read
    obtain ⟨symbol, arity, spelled⟩ := parseFactFileName?_eq_some_iff.1 read
    exact ⟨symbol, parseFactFileName?_factFileName symbol arity, spelled⟩

/-- A predicate whose symbol looks like the name of a fact file. -/
def fileLike : Predicate := ⟨"a_1.jsonl", 7⟩

/-- Only the last underscore and the last extension count, and the arity may be spelled with zeros. -/
theorem fileLike_read :
    fileLike.symbol ≠ "" ∧ fileLike.arity < UInt64.size ∧
      parseFactFileName? "a_1.jsonl_7.jsonl" = some fileLike ∧
      parseFactFileName? "a_1.jsonl_+007.jsonl" = some fileLike ∧
      ∃ signed zeros, "a_1.jsonl_+007.jsonl" = spelling fileLike signed zeros := by
  have symbol : fileLike.symbol ≠ "" := by decide
  have arity : fileLike.arity < UInt64.size := by decide
  have own : parseFactFileName? (factFileName fileLike) = some fileLike :=
    fact_file_names_exact.1 fileLike symbol arity
  have other : parseFactFileName? "a_1.jsonl_+007.jsonl" = some fileLike := by decide +kernel
  obtain ⟨-, -, spelled⟩ := fact_file_names_exact.2.2 _ fileLike other
  exact ⟨symbol, arity, own, other, spelled⟩

end Layout

end Datalog
