import FrontEnd.Token

/-!
# Grammars

A grammar says how tightly each kind of token binds as an operator, and which routine parses what
a token introduces: in front of an expression, between expressions, or in front of a statement.
A routine works on the parser through requests, and may parse further expressions and statements
on the way.  Like the programs of a scanner it is a set of control points, each with one request,
so that it can branch, loop and catch errors as its author likes.
-/

namespace FrontEnd.Parse

/-- How tightly an operator binds: the higher, the tighter. -/
abbrev Precedence := Int32

/-- The precedence `delta` above another one, as far as 32 bits reach. -/
def Precedence.offset (precedence : Precedence) (delta : Int) : Precedence :=
  Int32.ofIntClamp (precedence.toInt + delta)

/-- Whether an operator may be followed, in the same expression, by another one that does not bind
tighter than itself. -/
inductive Chaining
  | allowed
  | barred
deriving DecidableEq, Inhabited

/-- The bound for the operators behind one of the given precedence: a barred operator raises it to
one above its own precedence. -/
def Chaining.boundAfter (chaining : Chaining) (precedence bound : Precedence) : Precedence :=
  match chaining with
  | .allowed => bound
  | .barred => precedence.offset 1

/-- A condition on the kind in front of a statement.  It may depend on the kinds that it was asked
about before in the same list of statements, the latest one first. -/
abbrev Acceptance := List Kind → Kind → Bool

/-- What a parse routine asks for at a control point, where `σ` is the author's state, `ε` the type
of errors and `κ` the control points. -/
inductive Request (σ ε κ : Type)
  /-- Return; behind an operator, `chaining` limits what may follow it. -/
  | finish (chaining : Chaining)
  /-- Return with an error. -/
  | fail (error : ε)
  /-- Look at the lookahead. -/
  | peek (resume : Token → κ)
  /-- Consume the lookahead. -/
  | advance (resume : Token → κ)
  /-- Consume the lookahead if it is of the given kind. -/
  | expect (kind : Kind) (resume : Bool → κ)
  /-- Look at the author's state and change it. -/
  | consult (act : σ → σ × κ)
  /-- Parse an expression whose operators bind tighter than `bound`. -/
  | expression (bound : Precedence) (resume : Except ε Unit → κ)
  /-- Parse a statement. -/
  | statement (resume : Except ε Unit → κ)
  /-- Parse statements as long as the condition holds for the lookahead.  The answer comes with
  the kinds that the condition was asked about. -/
  | statements (accept : Acceptance) (resume : Except ε Unit → List Kind → κ)

/-- A language: what the engine has to know about its tokens.  All of it may depend on the author's
state, and `none` means that a kind cannot stand in that place. -/
structure Grammar (σ ε κ : Type) where
  precedence : σ → Kind → Precedence
  prefixRoutine : σ → Kind → Option (Token → κ)
  infixRoutine : σ → Kind → Option (Token → κ)
  statementRoutine : σ → Kind → Option (Token → κ)
  /-- The error of finding a token where it cannot stand. -/
  misplaced : σ → Token → ε
  request : κ → Request σ ε κ

end FrontEnd.Parse
