import FrontEnd.Kind
import FrontEnd.Position

/-!
# Tokens

A token is a value of its own: its kind, the text that it covers and where that text starts.
-/

namespace FrontEnd

/-- A fragment of scanned text. -/
structure Token where
  kind : Kind
  text : String
  position : Position
deriving DecidableEq, Inhabited

namespace Token

/-- The empty token that ends an input at `position`. -/
def ending (position : Position) : Token :=
  ⟨.endOfInput, "", position⟩

/-- Whether the token ends the input. -/
def isEnd (token : Token) : Bool :=
  token.kind.isEnd

/-- A token is written as its position, its kind in parentheses and its text in quotes. -/
def describe (token : Token) : String :=
  token.position.text ++ ": (" ++ token.kind.text ++ ") '" ++ token.text ++ "'"

end Token

end FrontEnd
