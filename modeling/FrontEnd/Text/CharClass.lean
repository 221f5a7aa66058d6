/-!
# Character classes

The sets of characters that scanning rules test for, as data, and what it means for a character
to belong to one.
-/

namespace FrontEnd

/-- A set of characters. -/
inductive CharClass
  | everything
  | nothing
  /-- The ten ASCII digits. -/
  | digit
  /-- The ASCII letters. -/
  | letter
  /-- The ASCII letters and digits. -/
  | alphanumeric
  /-- The characters with the Unicode property `White_Space`. -/
  | whitespace
  /-- Exactly the characters of a text. -/
  | oneOf (set : String)
  /-- The characters between two bounds, both included, for any pair of the list. -/
  | ranges (bounds : List (Char × Char))
  | complement (inner : CharClass)
  | union (members : List CharClass)

namespace CharClass

/-- Whether `c` lies between two characters, both included. -/
def within (low high c : Char) : Bool :=
  decide (low ≤ c) && decide (c ≤ high)

/-- The ranges of code points that have the property `White_Space`. -/
def whitespaceRanges : List (Char × Char) :=
  [('\t', '\r'), (' ', ' '), ('\u0085', '\u0085'), ('\u00A0', '\u00A0'), ('\u1680', '\u1680'),
    ('\u2000', '\u200A'), ('\u2028', '\u2029'), ('\u202F', '\u202F'), ('\u205F', '\u205F'),
    ('\u3000', '\u3000')]

/-- Whether `c` lies in one of the ranges. -/
def withinAny (bounds : List (Char × Char)) (c : Char) : Bool :=
  bounds.any fun (low, high) => within low high c

mutual

/-- Whether a character belongs to the class. -/
def accepts : CharClass → Char → Bool
  | everything, _ => true
  | nothing, _ => false
  | digit, c => within '0' '9' c
  | letter, c => within 'A' 'Z' c || within 'a' 'z' c
  | alphanumeric, c => within '0' '9' c || within 'A' 'Z' c || within 'a' 'z' c
  | whitespace, c => withinAny whitespaceRanges c
  | oneOf set, c => set.toList.contains c
  | ranges bounds, c => withinAny bounds c
  | complement inner, c => !accepts inner c
  | union members, c => acceptsAny members c

/-- Whether a character belongs to one of the classes. -/
def acceptsAny : List CharClass → Char → Bool
  | [], _ => false
  | member :: members, c => accepts member c || acceptsAny members c

end

end CharClass

end FrontEnd
