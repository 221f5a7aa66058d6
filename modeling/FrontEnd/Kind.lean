/-!
# Token kinds

A kind is the class that a scanning function puts a token in.  The numbers are the language
author's own, except that zero ends the input and every negative number is a lexeme that the
scanning function could not recognise.
-/

namespace FrontEnd

/-- The class of a token, a signed 32-bit number chosen by the language. -/
structure Kind where
  value : Int32
deriving DecidableEq, Inhabited

namespace Kind

/-- The kind of the token that ends the input. -/
def endOfInput : Kind := ⟨0⟩

/-- The usual kind of one unrecognised character. -/
def invalid : Kind := ⟨-1⟩

/-- Only zero ends the input. -/
def isEnd (kind : Kind) : Bool :=
  kind.value == 0

/-- Every negative kind is an unrecognised lexeme. -/
def isInvalid (kind : Kind) : Bool :=
  decide (kind.value < 0)

/-- A kind is written in decimal. -/
def text (kind : Kind) : String :=
  toString kind.value.toInt

end Kind

end FrontEnd
