import FrontEnd.Token

/-!
# Syntax errors

The three ways in which a token can be out of place: the input ends there, it was not recognised,
or it is of a kind that cannot stand there.
-/

namespace FrontEnd.Parse

/-- A token that cannot stand where it was found. -/
inductive SyntaxError
  | unexpectedEnd (position : Position)
  | invalidLexeme (position : Position) (text : String)
  | unexpectedToken (position : Position) (kind : Kind) (text : String)
deriving DecidableEq

namespace SyntaxError

/-- The error of finding `token` out of place. -/
def ofToken (token : Token) : SyntaxError :=
  if token.kind.isEnd then .unexpectedEnd token.position
  else if token.kind.isInvalid then .invalidLexeme token.position token.text
  else .unexpectedToken token.position token.kind token.text

/-- Where the offending token starts. -/
def position : SyntaxError → Position
  | unexpectedEnd position => position
  | invalidLexeme position _ => position
  | unexpectedToken position _ _ => position

/-- The wording of an error. -/
def message : SyntaxError → String
  | unexpectedEnd position => position.text ++ ": unexpected end of input"
  | invalidLexeme position text => position.text ++ ": invalid input '" ++ text ++ "'"
  | unexpectedToken position _ text => position.text ++ ": unexpected '" ++ text ++ "'"

end SyntaxError

end FrontEnd.Parse
