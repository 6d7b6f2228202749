import Datalog.Proofs.FactFiles

/-!
# Records and their limit

How deep a text nests its brackets can be read off the text: brackets count where they stand outside of
strings (`Json.levels`). For a rendered document it is the number of containers that the document
nests (`Json.levels_render`), whatever its strings hold, and no line is broken in it. So the record of
a tuple says whether it can be read (`FactRecord.decode_encode_exact`): writing has no limit, and
reading gives the tuple back, or refuses a record that nests deeper than the limit, or a tuple that is
no fact of the predicate.
-/

namespace Datalog

namespace Json

/-! ### Characters of a rendered document -/

/-- A numeral is that of an integer, and no string is garbled. -/
def Token.Plain : Token → Prop
  | .num cs => ∃ z : Int, cs = (toString z).toList
  | .garbled => False
  | _ => True

theorem plain_alone {t : Token} (plain : t.Plain) : ∀ u ∈ [t], u.Plain :=
  List.forall_mem_singleton.2 plain

theorem plain_key (k : String) : ∀ t ∈ [Token.str k, .colon], t.Plain :=
  List.forall_mem_cons.2 ⟨trivial, plain_alone trivial⟩

mutual

theorem plain_tokens : ∀ {j : Json}, j.Plain → ∀ t ∈ j.tokens, t.Plain
  | .null, _ | .bool _, _ | .str _, _ => plain_alone trivial
  | .num _, ⟨z, same⟩ => plain_alone ⟨z, same⟩
  | .arr [], _ | .obj [], _ => List.forall_mem_cons.2 ⟨trivial, plain_alone trivial⟩
  | .arr (_ :: _), plain => by
    have first := plain_tokens plain.1
    have others := plain_itemTokens plain.2
    exact List.forall_mem_cons.2 ⟨trivial, List.forall_mem_append.2 ⟨first, others⟩⟩
  | .obj ((k, _) :: _), plain => by
    have first := List.forall_mem_append.2 ⟨plain_key k, plain_tokens plain.1⟩
    have others := plain_memberTokens plain.2
    exact List.forall_mem_cons.2 ⟨trivial, List.forall_mem_append.2 ⟨first, others⟩⟩

theorem plain_itemTokens : ∀ {js : List Json}, PlainItems js → ∀ t ∈ itemTokens js, t.Plain
  | [], _ => plain_alone trivial
  | _ :: _, plain => by
    have first := plain_tokens plain.1
    have others := plain_itemTokens plain.2
    exact List.forall_mem_cons.2 ⟨trivial, List.forall_mem_append.2 ⟨first, others⟩⟩

theorem plain_memberTokens : ∀ {ms : List (String × Json)}, PlainMembers ms →
    ∀ t ∈ memberTokens ms, t.Plain
  | [], _ => plain_alone trivial
  | (k, _) :: _, plain => by
    have first := List.forall_mem_append.2 ⟨plain_key k, plain_tokens plain.1⟩
    have others := plain_memberTokens plain.2
    exact List.forall_mem_cons.2 ⟨trivial, List.forall_mem_append.2 ⟨first, others⟩⟩

end

theorem le_toNat_of_isNumeralChar {c : Char} (h : isNumeralChar c = true) : 32 ≤ c.toNat := by
  simp only [isNumeralChar, Bool.or_eq_true, beq_iff_eq] at h
  rcases h with ((((digit | rfl) | rfl) | rfl) | rfl) | rfl
  · exact le_trans (by decide) (Char.isDigit_iff_toNat.1 digit).1
  all_goals decide

theorem le_toNat_of_mem_spell {t : Token} (plain : t.Plain) {c : Char} (h : c ∈ t.spell) :
    32 ≤ c.toNat := by
  cases t with
  | num cs =>
    obtain ⟨z, rfl⟩ := plain
    exact le_toNat_of_isNumeralChar (isNumeralChar_of_mem_toString h)
  | str s =>
    have quote : 32 ≤ '"'.toNat := by decide
    have spelled : (Token.str s).spell = '"' :: s.toList.flatMap escape ++ ['"'] := rfl
    rw [spelled, List.mem_append, List.mem_cons, List.mem_singleton, List.mem_flatMap] at h
    rcases h with (rfl | ⟨d, -, escaped⟩) | rfl
    · exact quote
    · exact le_toNat_of_mem_escape escaped
    · exact quote
  | garbled => exact plain.elim
  | bool b => cases b <;> exact le_toNat_of_all (by decide) h
  | openArr | closeArr | openObj | closeObj | comma | colon | null => exact le_toNat_of_all (by decide) h

/-- A rendered document has no control character, so no line of it is broken. -/
theorem le_toNat_of_mem_render {j : Json} (plain : j.Plain) {c : Char} (h : c ∈ j.render.toList) :
    32 ≤ c.toNat := by
  rw [render, String.toList_ofList, List.mem_flatMap] at h
  obtain ⟨t, ht, h⟩ := h
  exact le_toNat_of_mem_spell (plain_tokens plain t ht) h

/-! ### Brackets of a text -/

/-- Where a character of a text stands. -/
inductive Place where
  | outside
  | inside
  /-- After a backslash in a string. -/
  | escaped

/-- The most brackets that are open at one place of the rest of a text, where `n` are open before. -/
def deepest : Place → Nat → List Char → Nat
  | _, n, [] => n
  | .outside, n, c :: cs =>
    if c = '"' then deepest .inside n cs
    else if c = '[' ∨ c = '\x7b' then deepest .outside (n + 1) cs
    else if c = ']' ∨ c = '\x7d' then max n (deepest .outside (n - 1) cs)
    else deepest .outside n cs
  | .inside, n, c :: cs =>
    if c = '"' then deepest .outside n cs
    else if c = '\\' then deepest .escaped n cs
    else deepest .inside n cs
  | .escaped, n, _ :: cs => deepest .inside n cs

/-- The levels of square and curly brackets that a text nests, outside of its strings. -/
def levels (s : String) : Nat := deepest .outside 0 s.toList

theorem le_deepest (p : Place) (n : Nat) (cs : List Char) : n ≤ deepest p n cs := by
  induction cs generalizing p n with
  | nil => cases p <;> exact le_refl n
  | cons c cs ih =>
    cases p with
    | outside =>
      rw [deepest]
      split_ifs
      · exact ih _ n
      · exact (Nat.le_succ n).trans (ih _ (n + 1))
      · exact le_max_left _ _
      · exact ih _ n
    | inside =>
      rw [deepest]
      split_ifs <;> exact ih _ n
    | escaped => exact ih _ n

section Deepest

variable {c : Char} (n : Nat) (cs : List Char)

theorem deepest_inside (quote : c ≠ '"') (backslash : c ≠ '\\') :
    deepest .inside n (c :: cs) = deepest .inside n cs := by
  rw [deepest, if_neg quote, if_neg backslash]

theorem deepest_backslash : deepest .inside n ('\\' :: c :: cs) = deepest .inside n cs := rfl

/-- However a character of a string is written, it does not count. -/
theorem deepest_escape (c : Char) :
    deepest .inside n (escape c ++ cs) = deepest .inside n cs := by
  rcases escape_cases c with ⟨d, -, -, spelled⟩ | ⟨control, spelled⟩ | ⟨-, quote, backslash, spelled⟩
  · rw [spelled]
    exact deepest_backslash n cs
  · have digit : ∀ k < 16, hexDigit k ≠ '"' ∧ hexDigit k ≠ '\\' := by decide
    obtain ⟨high, high'⟩ := digit (c.toNat / 16) (by omega)
    obtain ⟨low, low'⟩ := digit (c.toNat % 16) (by omega)
    simp only [spelled, List.cons_append, List.nil_append]
    rw [deepest_backslash, deepest_inside _ _ (by decide) (by decide),
      deepest_inside _ _ (by decide) (by decide), deepest_inside _ _ high high',
      deepest_inside _ _ low low']
  · rw [spelled]
    exact deepest_inside n cs quote backslash

theorem deepest_chars (chars : List Char) :
    deepest .inside n (chars.flatMap escape ++ '"' :: cs) = deepest .outside n cs := by
  induction chars with
  | nil => rfl
  | cons c chars ih => rw [List.flatMap_cons, List.append_assoc, deepest_escape, ih]

/-- Outside of strings, all that is no bracket and no quote is passed over. -/
theorem deepest_outside {ds : List Char}
    (neutral : ds.all (· ∉ ['"', '[', '\x7b', ']', '\x7d']) = true) :
    deepest .outside n (ds ++ cs) = deepest .outside n cs := by
  induction ds with
  | nil => rfl
  | cons d ds ih =>
    rw [List.all_cons, Bool.and_eq_true, decide_eq_true_eq] at neutral
    obtain ⟨first, others⟩ := neutral
    simp only [List.mem_cons, List.not_mem_nil, or_false, not_or] at first
    obtain ⟨quote, square, curly, square', curly'⟩ := first
    rw [List.cons_append, deepest, if_neg quote, if_neg (not_or.2 ⟨square, curly⟩),
      if_neg (not_or.2 ⟨square', curly'⟩)]
    exact ih others

end Deepest

/-- Only brackets change how deep a text stands. -/
theorem deepest_spell {t : Token} (plain : t.Plain)
    (other : t ∉ [Token.openArr, .closeArr, .openObj, .closeObj]) (n : Nat) (cs : List Char) :
    deepest .outside n (t.spell ++ cs) = deepest .outside n cs := by
  cases t with
  | openArr | closeArr | openObj | closeObj => simp at other
  | comma | colon | null => exact deepest_outside n cs (by decide)
  | bool b => cases b <;> exact deepest_outside n cs (by decide)
  | num numeral =>
    obtain ⟨z, rfl⟩ := plain
    refine deepest_outside n cs (List.all_eq_true.2 fun d hd => decide_eq_true fun bracket => ?_)
    have others : ['"', '[', '\x7b', ']', '\x7d'].all (!isNumeralChar ·) = true := by decide
    have numeral := List.all_eq_true.1 others d bracket
    rw [isNumeralChar_of_mem_toString hd] at numeral
    cases numeral
  | str s =>
    have spelled : (Token.str s).spell ++ cs = '"' :: (s.toList.flatMap escape ++ '"' :: cs) := by
      show '"' :: s.toList.flatMap escape ++ ['"'] ++ cs = _
      simp
    rw [spelled]
    exact deepest_chars n cs s.toList
  | garbled => exact plain.elim

theorem deepest_alone {t : Token} (plain : t.Plain)
    (other : t ∉ [Token.openArr, .closeArr, .openObj, .closeObj]) (n : Nat) (cs : List Char) :
    deepest .outside n (spellAll [t] ++ cs) = max n (deepest .outside n cs) := by
  have alone : spellAll [t] = t.spell := List.append_nil t.spell
  rw [alone, deepest_spell plain other, max_eq_right (le_deepest _ n cs)]

/-- A key is passed over. -/
theorem deepest_key (k : String) (n : Nat) (cs : List Char) :
    deepest .outside n (spellAll [.str k, .colon] ++ cs) = deepest .outside n cs := by
  have spelled : spellAll [.str k, .colon] ++ cs = (Token.str k).spell ++ (Token.colon.spell ++ cs) := by
    simp [spellAll]
  rw [spelled, deepest_spell (t := .str k) trivial (by simp),
    deepest_spell (t := .colon) trivial (by simp)]

theorem spellAll_append_append (ts us : List Token) (cs : List Char) :
    spellAll (ts ++ us) ++ cs = spellAll ts ++ (spellAll us ++ cs) := by
  rw [spellAll, List.flatMap_append, List.append_assoc]
  rfl

mutual

/-- The text of a document stands as deep as the document nests. -/
theorem deepest_tokens : ∀ {j : Json}, j.Plain → ∀ (n : Nat) (cs : List Char),
    deepest .outside n (spellAll j.tokens ++ cs) = max (n + j.nesting) (deepest .outside n cs)
  | .null, _, n, cs => deepest_alone (t := .null) trivial (by simp) n cs
  | .bool b, _, n, cs => deepest_alone (t := .bool b) trivial (by simp) n cs
  | .num _, ⟨z, same⟩, n, cs => deepest_alone (t := .num _) ⟨z, same⟩ (by simp) n cs
  | .str s, _, n, cs => deepest_alone (t := .str s) trivial (by simp) n cs
  | .arr [], _, n, cs => rfl
  | .arr (j :: js), plain, n, cs => by
    -- After the bracket there is what would follow a comma.
    have items := deepest_itemTokens (show PlainItems (j :: js) from plain) n cs
    rw [nesting, Nat.add_comm _ 1, ← Nat.add_assoc]
    exact items
  | .obj [], _, n, cs => rfl
  | .obj ((k, j) :: ms), plain, n, cs => by
    have members := deepest_memberTokens (show PlainMembers ((k, j) :: ms) from plain) n cs
    rw [nesting, Nat.add_comm _ 1, ← Nat.add_assoc]
    exact members

/-- Further items of an array, inside of its brackets. -/
theorem deepest_itemTokens : ∀ {js : List Json}, PlainItems js → ∀ (n : Nat) (cs : List Char),
    deepest .outside (n + 1) (spellAll (itemTokens js) ++ cs) =
      max (n + 1 + nestingItems js) (deepest .outside n cs)
  | [], _, n, cs => rfl
  | j :: js, plain, n, cs => by
    have first := deepest_tokens plain.1 (n + 1) (spellAll (itemTokens js) ++ cs)
    have others := deepest_itemTokens plain.2 n cs
    show deepest .outside (n + 1) (spellAll (j.tokens ++ itemTokens js) ++ cs) =
      max (n + 1 + max j.nesting (nestingItems js)) _
    rw [spellAll_append_append, first, others]
    omega

/-- Further members of an object, inside of its brackets. -/
theorem deepest_memberTokens : ∀ {ms : List (String × Json)}, PlainMembers ms →
    ∀ (n : Nat) (cs : List Char), deepest .outside (n + 1) (spellAll (memberTokens ms) ++ cs) =
      max (n + 1 + nestingMembers ms) (deepest .outside n cs)
  | [], _, n, cs => rfl
  | (k, j) :: ms, plain, n, cs => by
    have first := deepest_tokens plain.1 (n + 1) (spellAll (memberTokens ms) ++ cs)
    have others := deepest_memberTokens plain.2 n cs
    show deepest .outside (n + 1) (spellAll ([.str k, .colon] ++ (j.tokens ++ memberTokens ms)) ++ cs) =
      max (n + 1 + max j.nesting (nestingMembers ms)) _
    rw [spellAll_append_append, deepest_key, spellAll_append_append, first, others]
    omega

end

/-- **The text of a document nests as many levels of brackets as the document nests containers.** -/
theorem levels_render {j : Json} (plain : j.Plain) : levels j.render = j.nesting := by
  have depth := deepest_tokens plain 0 []
  rw [List.append_nil] at depth
  rw [levels, render, String.toList_ofList]
  refine depth.trans ?_
  rw [deepest, Nat.zero_add, max_eq_left (Nat.zero_le _)]

end Json

namespace FactRecord

/-- **Records read back up to the limit.** The record of a tuple is one line that is not blank; it is
read as the tuple if it nests at most 127 levels of brackets and the tuple is a fact of the predicate;
a deeper one is no record, and a tuple of another arity or with a variable is named in the error. -/
theorem decode_encode_exact (p : Predicate) (t : Tuple) :
    '\n' ∉ (encode t).toList ∧ '\r' ∉ (encode t).toList ∧ Text.isBlank (encode t) = false ∧
      decode p (encode t) =
        if 127 < Json.levels (encode t) then .error .record
        else if t.length ≠ p.arity then .error (.recordArity t.length p)
        else if t.isGround then .ok t
        else .error (.openRecord t p) := by
  have printable {c : Char} (h : c ∈ (encode t).toList) : 32 ≤ c.toNat :=
    Json.le_toNat_of_mem_render (plain_ofTuple t) h
  have levels : Json.levels (encode t) = (ofTuple t).nesting := Json.levels_render (plain_ofTuple t)
  refine ⟨fun h => absurd (printable h) (by decide), fun h => absurd (printable h) (by decide),
    FactFile.not_isBlank_encode t, ?_⟩
  rw [levels]
  exact decode_encode_eq p t

end FactRecord

end Datalog
