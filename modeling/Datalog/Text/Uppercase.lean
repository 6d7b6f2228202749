/-!
# Upper case, where it is ASCII

The upper case of a character may be several characters, and a few characters beyond ASCII have an
upper case within ASCII: the long s, the dotless i, the sharp s and the Latin ligatures. A text is
compared with an ASCII name by this map alone, since every other character beyond ASCII has an
upper case beyond ASCII.
-/

namespace Datalog.Text

/-- The upper case of a character if it lies within ASCII; any other character is kept. -/
def upperChar (c : Char) : List Char :=
  if c.isLower then [c.toUpper]
  else if c = 'ß' then ['S', 'S']
  else if c = 'ı' then ['I']
  else if c = 'ſ' then ['S']
  else if c = 'ﬀ' then ['F', 'F']
  else if c = 'ﬁ' then ['F', 'I']
  else if c = 'ﬂ' then ['F', 'L']
  else if c = 'ﬃ' then ['F', 'F', 'I']
  else if c = 'ﬄ' then ['F', 'F', 'L']
  else if c = 'ﬅ' ∨ c = 'ﬆ' then ['S', 'T']
  else [c]

/-- Whether the upper case of `s` is the ASCII text `name`. -/
def upperIs (s name : String) : Bool := s.toList.flatMap upperChar == name.toList

end Datalog.Text
