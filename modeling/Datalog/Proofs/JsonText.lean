import Mathlib.Data.List.TakeWhile
import Datalog.Json.Document

/-!
# Rendered documents read back

`Json.parse?` gives a document back from its text when its numerals are integers and nothing in it is
garbled (`Json.parse?_render`). The argument has two halves that meet at the tokens. The scanner is at
rest between two tokens, so a token that does not run into the next one is read alone
(`Scanner.reads_tokens`). The reader, at any stack, takes the tokens of a value to the state in which the
value is finished (`Reader.foldlM_tokens`); the stack gets no higher than there are tokens.
-/

namespace Datalog

/-! ### Integers as numerals -/

namespace Decimal

theorem toList_toString_natCast (n : Nat) : (toString (n : Int)).toList = Nat.toDigits 10 n := by
  show n.repr.toList = _
  exact Nat.toList_repr

theorem toList_toString_negSucc (n : Nat) :
    (toString (Int.negSucc n)).toList = '-' :: Nat.toDigits 10 (n + 1) := by
  show ("-" ++ (n + 1).repr).toList = _
  rw [String.toList_append, Nat.toList_repr]
  rfl

theorem isDigit_of_mem_toDigits {n : Nat} {c : Char} (h : c ∈ Nat.toDigits 10 n) :
    c.isDigit = true := Nat.isDigit_of_mem_toDigits (by decide) (by decide) h

/-- Only the numeral of zero starts with a zero. -/
theorem head?_toDigits {n : Nat} (positive : 0 < n) : (Nat.toDigits 10 n).head? ≠ some '0' := by
  induction n using Nat.strongRecOn with
  | ind n ih =>
    by_cases small : n < 10
    · rw [Nat.toDigits_of_lt_base small]
      have digits : ∀ k < 10, 0 < k → [Nat.digitChar k].head? ≠ some '0' := by decide
      exact digits n small positive
    · rw [Nat.toDigits_of_base_le (by decide) (Nat.not_lt.1 small),
        List.head?_append, Option.or_of_isSome (by simp [Nat.toDigits_ne_nil])]
      exact ih (n / 10) (Nat.div_lt_self positive (by decide)) (by omega)

/-- A numeral of digits starts with none of the signs. -/
theorem toDigits_ne_cons {n : Nat} {c : Char} (sign : c.isDigit = false) (cs : List Char) :
    Nat.toDigits 10 n ≠ c :: cs := by
  intro h
  have digit : c.isDigit = true := isDigit_of_mem_toDigits (h ▸ List.mem_cons_self)
  rw [sign] at digit
  cases digit

theorem readUnsigned?_toDigits (n : Nat) : readUnsigned? (Nat.toDigits 10 n) = some n := by
  unfold readUnsigned?
  split
  · next cs same => exact absurd same (toDigits_ne_cons (by decide) cs)
  · exact readNat?_toDigits n

theorem readSigned?_toString (z : Int) : readSigned? (toString z).toList = some z := by
  cases z with
  | ofNat n =>
    rw [show Int.ofNat n = (n : Int) from rfl, toList_toString_natCast]
    unfold readSigned?
    split
    · next cs same => exact absurd same (toDigits_ne_cons (by decide) cs)
    · rw [readUnsigned?_toDigits]
      rfl
  | negSucc n =>
    rw [toList_toString_negSucc]
    show (readNat? (Nat.toDigits 10 (n + 1))).map (fun m => -(m : Int)) = _
    rw [readNat?_toDigits]
    rfl

end Decimal

namespace Json

theorem dropDigits?_toDigits (n : Nat) : dropDigits? (Nat.toDigits 10 n) = some [] := by
  have digits : ∀ c ∈ Nat.toDigits 10 n, c.isDigit = true := fun c => Decimal.isDigit_of_mem_toDigits
  have taken : (Nat.toDigits 10 n).takeWhile Char.isDigit = Nat.toDigits 10 n :=
    List.takeWhile_eq_self_iff.2 digits
  have dropped : (Nat.toDigits 10 n).dropWhile Char.isDigit = [] := List.dropWhile_eq_nil_iff.2 digits
  rw [dropDigits?, taken, dropped, if_neg]
  simp [Nat.toDigits_ne_nil]

/-- The digits of a number have no leading zero, so they are a numeral. -/
theorem isFraction_toDigits (n : Nat) :
    (match Nat.toDigits 10 n with
      | '0' :: cs => isFraction cs
      | cs => (dropDigits? cs).any isFraction) = true := by
  split
  · next cs same =>
    rcases Nat.eq_zero_or_pos n with rfl | positive
    · cases same
      rfl
    · exact absurd (congrArg List.head? same) (Decimal.head?_toDigits positive)
  · rw [dropDigits?_toDigits]
    rfl

theorem isNumeral_toString (z : Int) : isNumeral (toString z).toList = true := by
  unfold isNumeral
  cases z with
  | ofNat n =>
    rw [show Int.ofNat n = (n : Int) from rfl, Decimal.toList_toString_natCast]
    have fraction := isFraction_toDigits n
    cases digits : Nat.toDigits 10 n with
    | nil =>
      rw [digits] at fraction
      exact fraction
    | cons c cs =>
      have unsigned : c ≠ '-' := fun same =>
        Decimal.toDigits_ne_cons (by decide) cs (same ▸ digits)
      rw [digits] at fraction
      simp only [List.cons.injEq, unsigned, false_and, imp_self, implies_true]
      exact fraction
  | negSucc n =>
    rw [Decimal.toList_toString_negSucc]
    exact isFraction_toDigits (n + 1)

theorem isNumeralChar_of_mem_toString {z : Int} {c : Char} (h : c ∈ (toString z).toList) :
    isNumeralChar c = true := by
  have digit {n : Nat} (h : c ∈ Nat.toDigits 10 n) : isNumeralChar c = true := by
    simp [isNumeralChar, Decimal.isDigit_of_mem_toDigits h]
  cases z with
  | ofNat n =>
    rw [show Int.ofNat n = (n : Int) from rfl, Decimal.toList_toString_natCast] at h
    exact digit h
  | negSucc n =>
    rw [Decimal.toList_toString_negSucc, List.mem_cons] at h
    rcases h with rfl | h
    · decide
    · exact digit h

/-- The numeral of an integer starts with a digit or with a minus sign. -/
theorem exists_cons_toString (z : Int) :
    ∃ c cs, (toString z).toList = c :: cs ∧ (c.isDigit || c == '-') = true := by
  cases z with
  | ofNat n =>
    obtain ⟨c, cs, same⟩ := List.exists_cons_of_ne_nil (Nat.toDigits_ne_nil (b := 10) (n := n))
    refine ⟨c, cs, (Decimal.toList_toString_natCast n).trans same, ?_⟩
    rw [Decimal.isDigit_of_mem_toDigits (same ▸ List.mem_cons_self)]
    rfl
  | negSucc n => exact ⟨'-', _, Decimal.toList_toString_negSucc n, rfl⟩

theorem integer?_int (z : Int) : (Json.int z).integer? = some z := by
  unfold Json.int integer?
  cases z with
  | ofNat n =>
    rw [show Int.ofNat n = (n : Int) from rfl, Decimal.toList_toString_natCast]
    split
    · next cs same => exact absurd (Json.num.inj same) (Decimal.toDigits_ne_cons (by decide) cs)
    · next cs _ same =>
      cases same
      rw [Decimal.readNat?_toDigits]
      rfl
    · next other => exact absurd rfl (other _)
  | negSucc n =>
    rw [Decimal.toList_toString_negSucc]
    show (Decimal.readNat? (Nat.toDigits 10 (n + 1))).bind _ = _
    rw [Decimal.readNat?_toDigits]
    rfl

/-! ### Characters of strings -/

/-- A character of a string is written as a letter after a backslash, as its code, or as it is. -/
theorem escape_cases (c : Char) :
    (∃ d ∈ ['"', '\\', 'n', 'r', 't', 'b', 'f'], unescape? d = some c ∧ escape c = ['\\', d]) ∨
    (c.toNat < 32 ∧
      escape c = ['\\', 'u', '0', '0', hexDigit (c.toNat / 16), hexDigit (c.toNat % 16)]) ∨
    (32 ≤ c.toNat ∧ c ≠ '"' ∧ c ≠ '\\' ∧ escape c = [c]) := by
  unfold escape
  split_ifs with quote backslash newline return_ tab backspace feed control
  · subst quote
    exact .inl ⟨'"', by simp, rfl, rfl⟩
  · subst backslash
    exact .inl ⟨'\\', by simp, rfl, rfl⟩
  · subst newline
    exact .inl ⟨'n', by simp, rfl, rfl⟩
  · subst return_
    exact .inl ⟨'r', by simp, rfl, rfl⟩
  · subst tab
    exact .inl ⟨'t', by simp, rfl, rfl⟩
  · subst backspace
    exact .inl ⟨'b', by simp, rfl, rfl⟩
  · subst feed
    exact .inl ⟨'f', by simp, rfl, rfl⟩
  · exact .inr (.inl ⟨control, rfl⟩)
  · exact .inr (.inr ⟨Nat.not_lt.1 control, quote, backslash, rfl⟩)

theorem le_toNat_of_all {cs : List Char} (all : cs.all (32 ≤ ·.toNat) = true) {c : Char} (h : c ∈ cs) :
    32 ≤ c.toNat := of_decide_eq_true (List.all_eq_true.1 all c h)

/-- Control characters are written as escapes. -/
theorem le_toNat_of_mem_escape {c d : Char} (h : d ∈ escape c) : 32 ≤ d.toNat := by
  rcases escape_cases c with ⟨e, letter, -, spelled⟩ | ⟨control, spelled⟩ |
    ⟨printable, -, -, spelled⟩
  · rw [spelled, List.mem_cons, List.mem_singleton] at h
    have known : d ∈ ['"', '\\', 'n', 'r', 't', 'b', 'f'] := by
      rcases h with rfl | rfl
      · simp
      · exact letter
    exact le_toNat_of_all (by decide) known
  · have digit : ∀ n < 16, 32 ≤ (hexDigit n).toNat := by decide
    rw [spelled] at h
    simp only [List.mem_cons, List.not_mem_nil, or_false] at h
    rcases h with rfl | rfl | rfl | rfl | rfl | rfl
    · decide
    · decide
    · decide
    · decide
    · exact digit _ (by omega)
    · exact digit _ (by omega)
  · rw [spelled, List.mem_singleton] at h
    rw [h]
    exact printable

/-! ### Scanning what was spelled -/

/-- A text that does not go on with a word or a numeral. -/
def Delimited (cs : List Char) : Prop := ∀ c ∈ cs.head?, c.isLower = false ∧ isNumeralChar c = false

namespace Scanner

theorem run?_of_step? {s s' : Scanner} {c : Char} {done : List Token} (h : s.step? c = some (done, s'))
    (cs : List Char) : s.run? (c :: cs) = (s'.run? cs).map (done ++ ·) := by
  simp only [run?, h, Option.bind_eq_bind, Option.bind_some]
  cases s'.run? cs <;> rfl

/-- A step that completes no token. -/
theorem run?_of_quiet {s u : Scanner} {c : Char} (h : s.step? c = some ([], u)) (cs : List Char) :
    s.run? (c :: cs) = u.run? cs := by
  rw [run?_of_step? h]
  cases u.run? cs <;> rfl

/-- At the end of a word or numeral the scanner goes on as if it were between two tokens. -/
theorem run?_of_flush? {s : Scanner} {t : Token} {cs : List Char} (flushed : s.flush? = some [t])
    (ends : ∀ c, c.isLower = false → isNumeralChar c = false →
      s.step? c = (freshStep? c).map fun r => (t :: r.1, r.2))
    (delimited : Delimited cs) : s.run? cs = (Scanner.between.run? cs).map (t :: ·) := by
  cases cs with
  | nil =>
    rw [run?, flushed]
    rfl
  | cons c cs =>
    obtain ⟨lower, numeral⟩ := delimited c rfl
    have fresh : Scanner.between.step? c = freshStep? c := rfl
    cases step : freshStep? c with
    | none => simp [run?, ends c lower numeral, fresh, step]
    | some r =>
      rw [run?_of_step? (by rw [ends c lower numeral, step]; rfl), run?_of_step? (fresh.trans step),
        Option.map_map]
      rfl

theorem run?_numeral {z : Int} (front back : List Char) (parts : front ++ back = (toString z).toList)
    {cs : List Char} (delimited : Delimited cs) :
    (Scanner.numeral front.reverse).run? (back ++ cs) =
      (Scanner.between.run? cs).map (Token.num (toString z).toList :: ·) := by
  induction back generalizing front with
  | nil =>
    rw [List.append_nil] at parts
    have flushed : (Scanner.numeral front.reverse).flush? = some [.num (toString z).toList] := by
      rw [flush?, List.reverse_reverse, parts, if_pos (isNumeral_toString z)]
    refine run?_of_flush? flushed (fun c _ numeral => ?_) delimited
    rw [step?, if_neg (by simp [numeral]), flushed]
    cases freshStep? c <;> rfl
  | cons c back ih =>
    have char : isNumeralChar c = true :=
      isNumeralChar_of_mem_toString (z := z) (by rw [← parts]; simp)
    have step : (Scanner.numeral front.reverse).step? c =
        some ([], .numeral (front ++ [c]).reverse) := by
      rw [step?, if_pos char, List.reverse_append]
      rfl
    rw [List.cons_append, run?_of_quiet step]
    exact ih (front ++ [c]) (by rw [← parts, List.append_assoc]; rfl)

theorem run?_int (z : Int) {cs : List Char} (delimited : Delimited cs) :
    Scanner.between.run? ((toString z).toList ++ cs) =
      (Scanner.between.run? cs).map (Token.num (toString z).toList :: ·) := by
  obtain ⟨c, rest, parts, starts⟩ := exists_cons_toString z
  have others : ∀ d : Char, (d.isDigit || d == '-') = true →
      freshStep? d = some ([], .numeral [d]) := by
    intro d starts
    have ne (e : Char) (h : (e.isDigit || e == '-') = false) : d ≠ e := by
      rintro rfl
      rw [starts] at h
      cases h
    unfold freshStep?
    rw [if_neg (by simp [ne]), if_neg (ne _ (by decide)), if_neg (ne _ (by decide)),
      if_neg (ne _ (by decide)), if_neg (ne _ (by decide)), if_neg (ne _ (by decide)),
      if_neg (ne _ (by decide)), if_neg (ne _ (by decide)), if_pos starts]
  rw [parts, List.cons_append, run?_of_quiet (show Scanner.between.step? c = _ from others c starts)]
  have digits := run?_numeral [c] rest parts.symm delimited
  rw [parts] at digits
  exact digits

theorem run?_word {t : Token} (front back : List Char) (lower : back.all Char.isLower = true)
    (word : Token.ofWord? (String.ofList (front ++ back)) = some t) {cs : List Char}
    (delimited : Delimited cs) :
    (Scanner.word front.reverse).run? (back ++ cs) = (Scanner.between.run? cs).map (t :: ·) := by
  induction back generalizing front with
  | nil =>
    rw [List.append_nil] at word
    have flushed : (Scanner.word front.reverse).flush? = some [t] := by
      rw [flush?, List.reverse_reverse, word]
      rfl
    refine run?_of_flush? flushed (fun c lower _ => ?_) delimited
    rw [step?, if_neg (by simp [lower]), flushed]
    cases freshStep? c <;> rfl
  | cons c back ih =>
    rw [List.all_cons, Bool.and_eq_true] at lower
    obtain ⟨first, others⟩ := lower
    have step : (Scanner.word front.reverse).step? c = some ([], .word (front ++ [c]).reverse) := by
      rw [step?, if_pos first, List.reverse_append]
      rfl
    rw [List.cons_append, run?_of_quiet step]
    exact ih (front ++ [c]) others (by rw [List.append_assoc]; exact word)

theorem run?_null {cs : List Char} (delimited : Delimited cs) :
    Scanner.between.run? (Token.null.spell ++ cs) = (Scanner.between.run? cs).map (Token.null :: ·) := by
  have start : Scanner.between.step? 'n' = some ([], .word ['n']) := by simp [step?, freshStep?]
  exact (run?_of_quiet start _).trans
    (run?_word ['n'] ['u', 'l', 'l'] (by decide) (by decide) delimited)

theorem run?_bool (b : Bool) {cs : List Char} (delimited : Delimited cs) :
    Scanner.between.run? ((Token.bool b).spell ++ cs) =
      (Scanner.between.run? cs).map (Token.bool b :: ·) := by
  cases b with
  | true =>
    have start : Scanner.between.step? 't' = some ([], .word ['t']) := by simp [step?, freshStep?]
    exact (run?_of_quiet start _).trans
      (run?_word ['t'] ['r', 'u', 'e'] (by decide) (by decide) delimited)
  | false =>
    have start : Scanner.between.step? 'f' = some ([], .word ['f']) := by simp [step?, freshStep?]
    exact (run?_of_quiet start _).trans
      (run?_word ['f'] ['a', 'l', 's', 'e'] (by decide) (by decide) delimited)

/-- A character of a string is read back from how it is written. -/
theorem run?_escape (before : List Char) (c : Char) (cs : List Char) :
    (Scanner.quoted (some before) .plain).run? (escape c ++ cs) =
      (Scanner.quoted (some (c :: before)) .plain).run? cs := by
  have short (d : Char) (known : unescape? d = some c) (not_u : d ≠ 'u') :
      (Scanner.quoted (some before) .plain).run? ('\\' :: d :: cs) =
        (Scanner.quoted (some (c :: before)) .plain).run? cs := by
    have second : (Scanner.quoted (some before) .escape).step? d =
        some ([], .quoted (some (c :: before)) .plain) := by
      simp [step?, quotedStep?, escapeStep?, not_u, known]
    rw [run?_of_quiet (u := .quoted (some before) .escape) rfl, run?_of_quiet second]
  rcases escape_cases c with ⟨d, letter, known, spelled⟩ | ⟨control, spelled⟩ |
    ⟨printable, quote, backslash, spelled⟩
  · have not_u : d ≠ 'u' := by
      rintro rfl
      simp at letter
    rw [spelled]
    exact short d known not_u
  · have digit : ∀ n < 16, Text.hexValue? (hexDigit n) = some n := by decide
    have high := digit (c.toNat / 16) (by omega)
    have low := digit (c.toNat % 16) (by omega)
    have value : ((0 * 16 + 0) * 16 + 0) * 16 + c.toNat / 16 = c.toNat / 16 := by omega
    have last : c.toNat / 16 * 16 + c.toNat % 16 = c.toNat := by omega
    have unit : Scanner.unit (some before) none c.toNat = .quoted (some (c :: before)) .plain := by
      rw [Scanner.unit, if_neg (by omega), if_neg (by omega), Char.ofNat_toNat]
      rfl
    have hex (left value : Nat) (d : Char) (n : Nat) (known : Text.hexValue? d = some n)
        (more : 1 < left) : (Scanner.quoted (some before) (.hex none left value)).step? d =
          some ([], .quoted (some before) (.hex none (left - 1) (value * 16 + n))) := by
      simp [step?, quotedStep?, known, Nat.not_le.2 more]
    have done (value : Nat) (d : Char) (n : Nat) (known : Text.hexValue? d = some n) :
        (Scanner.quoted (some before) (.hex none 1 value)).step? d =
          some ([], Scanner.unit (some before) none (value * 16 + n)) := by
      simp [step?, quotedStep?, known]
    simp only [spelled, List.cons_append, List.nil_append]
    rw [run?_of_quiet (u := .quoted (some before) .escape) rfl,
      run?_of_quiet (u := .quoted (some before) (.hex none 4 0)) rfl,
      run?_of_quiet (hex 4 0 '0' 0 rfl (by decide)), run?_of_quiet (hex 3 _ '0' 0 rfl (by decide)),
      run?_of_quiet (hex 2 _ _ _ high (by decide)), run?_of_quiet (done _ _ _ low)]
    rw [value, last, unit]
  · have step : (Scanner.quoted (some before) .plain).step? c =
        some ([], .quoted (some (c :: before)) .plain) := by
      simp [step?, quotedStep?, plainStep?, quote, backslash, Nat.not_lt.2 printable]
    rw [spelled]
    exact run?_of_quiet step cs

theorem run?_chars (before chars : List Char) (cs : List Char) :
    (Scanner.quoted (some before) .plain).run? (chars.flatMap escape ++ '"' :: cs) =
      (Scanner.between.run? cs).map (Token.str (String.ofList (before.reverse ++ chars)) :: ·) := by
  induction chars generalizing before with
  | nil =>
    rw [List.flatMap_nil, List.nil_append, List.append_nil]
    exact run?_of_step? (s := .quoted (some before) .plain) (c := '"') rfl cs
  | cons c chars ih =>
    rw [List.flatMap_cons, List.append_assoc, run?_escape, ih]
    simp

theorem run?_str (s : String) (cs : List Char) :
    Scanner.between.run? ((Token.str s).spell ++ cs) =
      (Scanner.between.run? cs).map (Token.str s :: ·) := by
  have spelled : (Token.str s).spell = '"' :: s.toList.flatMap escape ++ ['"'] := rfl
  have start : Scanner.between.step? '"' = some ([], .quoted (some []) .plain) := by
    simp [step?, freshStep?]
  have chars := run?_chars [] s.toList cs
  rw [List.reverse_nil, List.nil_append, String.ofList_toList] at chars
  rw [spelled, List.cons_append, List.cons_append, List.append_assoc, run?_of_quiet start]
  exact chars

/-- A punctuation mark is a token of its own. -/
theorem run?_mark {t : Token} {c : Char} (spelled : t.spell = [c])
    (mark : freshStep? c = some ([t], .between)) (cs : List Char) :
    Scanner.between.run? (t.spell ++ cs) = (Scanner.between.run? cs).map (t :: ·) := by
  rw [spelled, List.singleton_append]
  exact run?_of_step? (s := .between) mark cs

end Scanner

mutual

/-- The numerals of a document are integers, and nothing in it is garbled. -/
def Plain : Json → Prop
  | .num cs => ∃ z : Int, cs = (toString z).toList
  | .garbled => False
  | .arr js => PlainItems js
  | .obj ms => PlainMembers ms
  | _ => True

/-- All items are plain. -/
def PlainItems : List Json → Prop
  | [] => True
  | j :: js => j.Plain ∧ PlainItems js

/-- All members are plain. -/
def PlainMembers : List (String × Json) → Prop
  | [] => True
  | (_, j) :: ms => j.Plain ∧ PlainMembers ms

end

/-- The texts of tokens, one after the other. -/
def spellAll (ts : List Token) : List Char := ts.flatMap Token.spell

namespace Scanner

/-- The scanner cuts the texts of tokens apart again; none of them is empty or holds a line break. -/
structure Reads (ts : List Token) (cs : List Char) : Prop where
  run : Scanner.between.run? (spellAll ts ++ cs) = (Scanner.between.run? cs).map (ts ++ ·)
  length_le : ts.length ≤ (spellAll ts).length
  unbroken : '\n' ∉ spellAll ts

theorem Reads.nil (cs : List Char) : Reads [] cs :=
  ⟨by simp [spellAll], Nat.zero_le _, List.not_mem_nil⟩

theorem Reads.append {ts us : List Token} {cs : List Char} (first : Reads ts (spellAll us ++ cs))
    (second : Reads us cs) : Reads (ts ++ us) cs := by
  constructor
  · rw [spellAll, List.flatMap_append, List.append_assoc]
    refine first.run.trans ?_
    rw [second.run, Option.map_map]
    simp [Function.comp_def]
  · rw [spellAll, List.flatMap_append, List.length_append, List.length_append]
    exact Nat.add_le_add first.length_le second.length_le
  · rw [spellAll, List.flatMap_append, List.mem_append]
    exact not_or.2 ⟨first.unbroken, second.unbroken⟩

theorem Reads.single {t : Token} {cs : List Char}
    (run : Scanner.between.run? (t.spell ++ cs) = (Scanner.between.run? cs).map (t :: ·))
    (spelled : t.spell ≠ []) (unbroken : '\n' ∉ t.spell) : Reads [t] cs := by
  have alone : spellAll [t] = t.spell := by simp [spellAll]
  constructor
  · rw [alone]
    exact run
  · rw [alone]
    exact List.length_pos_iff.2 spelled
  · rw [alone]
    exact unbroken

theorem newline_not_mem_escape (c : Char) : '\n' ∉ escape c := fun broken =>
  absurd (le_toNat_of_mem_escape broken) (by decide)

theorem Reads.str (s : String) (cs : List Char) : Reads [.str s] cs := by
  refine .single (run?_str s cs) (List.cons_ne_nil _ _) ?_
  show '\n' ∉ '"' :: s.toList.flatMap escape ++ ['"']
  simp [List.mem_flatMap, newline_not_mem_escape]

theorem Reads.mark {t : Token} {us : List Token} {cs : List Char}
    (mark : t ∈ [Token.openArr, .closeArr, .openObj, .closeObj, .comma, .colon])
    (second : Reads us cs) : Reads (t :: us) cs := by
  have alone : Reads [t] (spellAll us ++ cs) := by
    simp only [List.mem_cons, List.not_mem_nil, or_false] at mark
    rcases mark with rfl | rfl | rfl | rfl | rfl | rfl <;>
      exact .single (run?_mark rfl (by simp [freshStep?]) _) (List.cons_ne_nil _ _) (by decide)
  exact alone.append second

theorem Reads.key {k : String} {us : List Token} {cs : List Char} (second : Reads us cs) :
    Reads (.str k :: .colon :: us) cs := .append (.str k _) (.mark (by simp) second)

theorem Reads.int (z : Int) {cs : List Char} (delimited : Delimited cs) :
    Reads [.num (toString z).toList] cs := by
  obtain ⟨c, rest, starts, -⟩ := exists_cons_toString z
  refine .single (run?_int z delimited) ?_ fun broken => ?_
  · show (toString z).toList ≠ []
    rw [starts]
    exact List.cons_ne_nil _ _
  · exact absurd (isNumeralChar_of_mem_toString broken) (by decide)

theorem delimited_cons {c : Char} (known : c.isLower = false ∧ isNumeralChar c = false)
    (cs : List Char) : Delimited (c :: cs) := by
  rintro _ ⟨⟩
  exact known

theorem delimited_itemTokens (js : List Json) (cs : List Char) :
    Delimited (spellAll (itemTokens js) ++ cs) := by
  cases js with
  | nil => exact delimited_cons (c := ']') (by decide) _
  | cons j js => exact delimited_cons (c := ',') (by decide) _

theorem delimited_memberTokens (ms : List (String × Json)) (cs : List Char) :
    Delimited (spellAll (memberTokens ms) ++ cs) := by
  cases ms with
  | nil => exact delimited_cons (c := '\x7d') (by decide) _
  | cons m ms => exact delimited_cons (c := ',') (by decide) _

mutual

theorem reads_tokens : ∀ {j : Json}, j.Plain → ∀ {cs : List Char}, Delimited cs → Reads j.tokens cs
  | .null, _, _, delimited =>
    .single (run?_null delimited) (List.cons_ne_nil _ _) (by decide)
  | .bool true, _, _, delimited =>
    .single (run?_bool true delimited) (List.cons_ne_nil _ _) (by decide)
  | .bool false, _, _, delimited =>
    .single (run?_bool false delimited) (List.cons_ne_nil _ _) (by decide)
  | .num _, ⟨z, rfl⟩, _, delimited => .int z delimited
  | .str s, _, _, _ => .str s _
  | .arr [], _, _, _ => .mark (by simp) (.mark (by simp) (.nil _))
  | .arr (_ :: js), plain, cs, _ =>
    .mark (by simp) (.append (reads_tokens plain.1 (delimited_itemTokens js cs))
      (reads_itemTokens plain.2))
  | .obj [], _, _, _ => .mark (by simp) (.mark (by simp) (.nil _))
  | .obj ((_, _) :: ms), plain, cs, _ =>
    .mark (by simp) (.key (.append (reads_tokens plain.1 (delimited_memberTokens ms cs))
      (reads_memberTokens plain.2)))

theorem reads_itemTokens : ∀ {js : List Json}, PlainItems js → ∀ {cs : List Char},
    Reads (itemTokens js) cs
  | [], _, _ => .mark (by simp) (.nil _)
  | _ :: js, plain, cs =>
    .mark (by simp) (.append (reads_tokens plain.1 (delimited_itemTokens js cs))
      (reads_itemTokens plain.2))

theorem reads_memberTokens : ∀ {ms : List (String × Json)}, PlainMembers ms → ∀ {cs : List Char},
    Reads (memberTokens ms) cs
  | [], _, _ => .mark (by simp) (.nil _)
  | (_, _) :: ms, plain, cs =>
    .mark (by simp) (.key (.append (reads_tokens plain.1 (delimited_memberTokens ms cs))
      (reads_memberTokens plain.2)))

end

end Scanner

/-! ### Reading tokens -/

/-- The draft of an object with given members. -/
def draftOf (ms : List (String × Json)) : Draft := (ms.map fun m => (some m.1, m.2)).reverse

theorem ofDraft_draftOf (ms : List (String × Json)) : ofDraft (draftOf ms) = .obj ms := by
  have keys : (draftOf ms).reverse.mapM (fun e => e.1.map fun k => (k, e.2)) = some ms := by
    rw [draftOf, List.reverse_reverse]
    induction ms with
    | nil => rfl
    | cons m ms ih =>
      rw [List.map_cons, List.mapM_cons, ih]
      rfl
  unfold ofDraft
  rw [keys]

namespace Reader

variable {limit : Nat}

/-- Where a value or the end of an array is awaited, the tokens of a value do as where a value is. -/
theorem foldlM_valueOrClose (j : Json) (js : List Json) (stack : List Frame) (rest : List Token) :
    (j.tokens ++ rest).foldlM (step? limit) ⟨.arr js :: stack, .valueOrClose⟩ =
      (j.tokens ++ rest).foldlM (step? limit) ⟨.arr js :: stack, .value⟩ := by
  cases j with
  | arr items => cases items <;> rfl
  | obj members => cases members <;> rfl
  | _ => rfl

theorem foldlM_cons {r u : Reader} {t : Token} (step : step? limit r t = some u) (ts : List Token) :
    (t :: ts).foldlM (step? limit) r = ts.foldlM (step? limit) u := by
  rw [List.foldlM_cons, step]
  rfl

theorem step?_openArr {stack : List Frame} (room : stack.length < limit) :
    step? limit ⟨stack, .value⟩ .openArr = some ⟨.arr [] :: stack, .valueOrClose⟩ := if_pos room

theorem step?_openObj {stack : List Frame} (room : stack.length < limit) :
    step? limit ⟨stack, .value⟩ .openObj = some ⟨.obj [] none :: stack, .keyOrClose []⟩ := if_pos room

mutual

/-- The tokens of a value finish it. -/
theorem foldlM_tokens : ∀ (j : Json) (stack : List Frame) (rest : List Token),
    stack.length + j.tokens.length ≤ limit →
    (j.tokens ++ rest).foldlM (step? limit) ⟨stack, .value⟩ =
      rest.foldlM (step? limit) (finish j stack)
  | .null, _, rest, _ => foldlM_cons rfl rest
  | .bool _, _, rest, _ => foldlM_cons rfl rest
  | .num _, _, rest, _ => foldlM_cons rfl rest
  | .str _, _, rest, _ => foldlM_cons rfl rest
  | .garbled, _, rest, _ => foldlM_cons rfl rest
  | .arr [], stack, rest, room => by
    simp only [tokens, List.length_cons, List.length_nil] at room
    exact (foldlM_cons (step?_openArr (by omega)) _).trans (foldlM_cons rfl rest)
  | .arr (j :: js), stack, rest, room => by
    simp only [tokens, List.length_cons, List.length_append, List.cons_append] at room ⊢
    rw [foldlM_cons (step?_openArr (by omega)), List.append_assoc, foldlM_valueOrClose,
      foldlM_tokens j _ _ (by rw [List.length_cons]; omega)]
    exact foldlM_itemTokens js [j] stack rest (by omega)
  | .obj [], stack, rest, room => by
    simp only [tokens, List.length_cons, List.length_nil] at room
    exact (foldlM_cons (step?_openObj (by omega)) _).trans (foldlM_cons rfl rest)
  | .obj ((k, j) :: ms), stack, rest, room => by
    simp only [tokens, List.length_cons, List.length_append, List.cons_append] at room ⊢
    rw [foldlM_cons (step?_openObj (by omega)),
      foldlM_cons (u := ⟨.obj [] none :: stack, .colon [] (some k)⟩) rfl,
      foldlM_cons (u := ⟨.obj [] (some k) :: stack, .value⟩) rfl, List.append_assoc,
      foldlM_tokens j _ _ (by rw [List.length_cons]; omega)]
    exact foldlM_memberTokens ms [(k, j)] (some k) stack rest (by omega)

/-- The tokens of further items finish their array. -/
theorem foldlM_itemTokens : ∀ (js before : List Json) (stack : List Frame) (rest : List Token),
    stack.length + (itemTokens js).length ≤ limit →
    (itemTokens js ++ rest).foldlM (step? limit) ⟨.arr before.reverse :: stack, .next⟩ =
      rest.foldlM (step? limit) (finish (.arr (before ++ js)) stack)
  | [], before, stack, rest, _ => by
    have closed : step? limit ⟨.arr before.reverse :: stack, .next⟩ .closeArr =
        some (finish (.arr (before ++ [])) stack) := by
      rw [List.append_nil]
      show some (finish (.arr before.reverse.reverse) stack) = _
      rw [List.reverse_reverse]
    exact foldlM_cons closed rest
  | j :: js, before, stack, rest, room => by
    simp only [itemTokens, List.length_cons, List.length_append, List.cons_append] at room ⊢
    rw [foldlM_cons (u := ⟨.arr before.reverse :: stack, .value⟩) rfl, List.append_assoc,
      foldlM_tokens j _ _ (by rw [List.length_cons]; omega)]
    have items := foldlM_itemTokens js (before ++ [j]) stack rest (by omega)
    rw [List.reverse_append, List.append_assoc] at items
    exact items

/-- The tokens of further members finish their object. -/
theorem foldlM_memberTokens : ∀ (ms before : List (String × Json)) (key : Option String)
    (stack : List Frame) (rest : List Token),
    stack.length + (memberTokens ms).length ≤ limit →
    (memberTokens ms ++ rest).foldlM (step? limit) ⟨.obj (draftOf before) key :: stack, .next⟩ =
      rest.foldlM (step? limit) (finish (.obj (before ++ ms)) stack)
  | [], before, key, stack, rest, _ => by
    have closed : step? limit ⟨.obj (draftOf before) key :: stack, .next⟩ .closeObj =
        some (finish (.obj (before ++ [])) stack) := by
      rw [List.append_nil, ← ofDraft_draftOf]
      rfl
    exact foldlM_cons closed rest
  | (k, j) :: ms, before, key, stack, rest, room => by
    simp only [memberTokens, List.length_cons, List.length_append, List.cons_append] at room ⊢
    rw [foldlM_cons (u := ⟨.obj (draftOf before) key :: stack, .key (draftOf before)⟩) rfl,
      foldlM_cons (u := ⟨.obj (draftOf before) key :: stack, .colon (draftOf before) (some k)⟩) rfl,
      foldlM_cons (u := ⟨.obj (draftOf before) (some k) :: stack, .value⟩) rfl, List.append_assoc,
      foldlM_tokens j _ _ (by rw [List.length_cons]; omega)]
    have members := foldlM_memberTokens ms (before ++ [(k, j)]) (some k) stack rest (by omega)
    rw [draftOf, List.map_append, List.reverse_append, List.append_assoc] at members
    exact members

end

end Reader

/-- **A rendered document reads back.** -/
theorem parse?_render {j : Json} (plain : j.Plain) : parse? j.render = some j := by
  have reads : Scanner.Reads j.tokens [] := Scanner.reads_tokens plain fun c hc => by cases hc
  have scanned : Token.scan? (spellAll j.tokens) = some j.tokens := by
    have run := reads.run
    rw [List.append_nil] at run
    rw [Token.scan?, run]
    simp [Scanner.run?, Scanner.flush?]
  have text : j.render.toList = spellAll j.tokens := String.toList_ofList
  have room : ([] : List Frame).length + j.tokens.length ≤ j.render.length := by
    rw [← String.length_toList, text]
    simpa using reads.length_le
  have folded := Reader.foldlM_tokens j [] [] room
  rw [List.append_nil] at folded
  simp only [parse?, parseWithin?, text, scanned, Option.bind_eq_bind, Option.bind_some, ofTokens?,
    folded]
  rfl

end Json

end Datalog
