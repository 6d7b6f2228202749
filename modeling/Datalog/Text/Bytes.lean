/-!
# Texts as bytes

The UTF-8 bytes of a text, the text of valid UTF-8 bytes, and the parts of a text before and after a
number of bytes.
-/

namespace Datalog.Text

/-- The UTF-8 bytes of a text. -/
def bytes (s : String) : List UInt8 := s.toUTF8.data.toList

/-- The text that bytes encode, if they are valid UTF-8. -/
def ofBytes? (bs : List UInt8) : Option String := String.fromUTF8? ⟨bs.toArray⟩

/-- The characters that fill the first `n` bytes of a text, if a character ends there. -/
def takeBytes? : Nat → List Char → Option (List Char)
  | 0, _ => some []
  | _ + 1, [] => none
  | n + 1, c :: cs =>
    if c.utf8Size ≤ n + 1 then (takeBytes? (n + 1 - c.utf8Size) cs).map (c :: ·) else none

/-- The characters after the first `n` bytes of a text, if a character ends there. -/
def dropBytes? (n : Nat) (cs : List Char) : Option (List Char) :=
  (takeBytes? n cs).map fun front => cs.drop front.length

theorem ofBytes?_bytes (s : String) : ofBytes? (bytes s) = some s := by
  simp only [ofBytes?, bytes, Array.toArray_toList, String.fromUTF8?]
  exact dif_pos s.isValidUTF8

theorem eq_bytes_of_ofBytes? {bs : List UInt8} {s : String} (h : ofBytes? bs = some s) :
    bs = bytes s := by
  simp only [ofBytes?, String.fromUTF8?] at h
  split at h
  · cases h
    simp [bytes, String.fromUTF8, String.toUTF8]
  · cases h

end Datalog.Text
