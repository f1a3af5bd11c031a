/-!
# Upper case

Upper-casing as far as its result can be an ASCII word: the ASCII letters, and the few other
characters whose upper-case form consists of ASCII letters. Every other character is kept; its
upper-case form holds a character outside ASCII, as it does itself.
-/

namespace PlonkGates.Text

/-- The upper-case form of a character, where that form is ASCII. -/
def uppercaseChar (c : Char) : List Char :=
  match c.toNat with
  | 0xdf => ['S', 'S']
  | 0x131 => ['I']
  | 0x17f => ['S']
  | 0xfb00 => ['F', 'F']
  | 0xfb01 => ['F', 'I']
  | 0xfb02 => ['F', 'L']
  | 0xfb03 => ['F', 'F', 'I']
  | 0xfb04 => ['F', 'F', 'L']
  | 0xfb05 => ['S', 'T']
  | 0xfb06 => ['S', 'T']
  | _ => [c.toUpper]

/-- The text in upper case, exact whenever the result is an ASCII word. -/
def uppercase (s : String) : String := String.ofList (s.toList.flatMap uppercaseChar)

end PlonkGates.Text
