import FrontEnd.Parse.Engine
import FrontEnd.Parse.SyntaxError
import FrontEnd.Proofs.Operators.Tree

/-!
# The grammar of an operator table

The parse routines of an operator table in the usual way: they keep finished operands on a stack,
parse a further operand by calling the engine back, and replace the operands of an operator by its
result.  What the results are is left to a `Builder`.  With `Tree.builder` they are the trees
themselves.
-/

namespace FrontEnd.Operators

open FrontEnd.Parse (Precedence Chaining Request Grammar SyntaxError)

/-- What is built for each form of an expression. -/
structure Builder (α : Type) where
  atom : Token → α
  prefixed : Token → α → α
  suffixed : α → Token → α
  binary : α → Token → α → α
  group : Token → α → Token → α

/-- What is built for a whole tree. -/
def Builder.build {α : Type} (builder : Builder α) : Tree → α
  | .atom token => builder.atom token
  | .prefixed operator operand => builder.prefixed operator (builder.build operand)
  | .suffixed operand operator => builder.suffixed (builder.build operand) operator
  | .binary left operator right =>
    builder.binary (builder.build left) operator (builder.build right)
  | .group opening body closing => builder.group opening (builder.build body) closing

/-- Builds the tree itself. -/
def Tree.builder : Builder Tree :=
  ⟨.atom, .prefixed, .suffixed, .binary, .group⟩

@[simp] theorem Tree.build_builder (tree : Tree) : Tree.builder.build tree = tree := by
  induction tree with
  | atom token => rfl
  | prefixed operator operand ih => rw [Builder.build, ih]; rfl
  | suffixed operand operator ih => rw [Builder.build, ih]; rfl
  | binary left operator right ihLeft ihRight => rw [Builder.build, ihLeft, ihRight]; rfl
  | group opening body closing ih => rw [Builder.build, ih]; rfl

/-- What a parse routine has left to do. -/
inductive Routine (α : Type)
  /-- Return. -/
  | finish (chaining : Chaining)
  /-- Return with an error. -/
  | fail (error : SyntaxError)
  /-- Change the stack. -/
  | change (act : List α → List α) (next : Routine α)
  /-- Parse an operand, and pass its error on. -/
  | operand (bound : Precedence) (next : Routine α)
  /-- Look at the lookahead. -/
  | look (next : Token → Routine α)
  /-- Consume the token that closes a group; without it the opening token is out of place. -/
  | close (closing : Kind) (opening : Token) (next : Routine α)

/-- The request of a routine. -/
def Routine.request {α : Type} : Routine α → Request (List α) SyntaxError (Routine α)
  | finish chaining => .finish chaining
  | fail error => .fail error
  | change act next => .consult fun stack => (act stack, next)
  | operand bound next =>
    .expression bound fun
      | .ok () => next
      | .error error => .fail error
  | look next => .peek next
  | close closing opening next =>
    .expect closing fun matched => if matched then next else .fail (.ofToken opening)

/-- Replaces the entry on top of a stack. -/
def onTop {α : Type} (act : α → α) : List α → List α
  | top :: rest => act top :: rest
  | [] => []

/-- Replaces the two entries on top of a stack by one; the right operand is the upper one. -/
def onTopTwo {α : Type} (act : α → α → α) : List α → List α
  | right :: left :: rest => act left right :: rest
  | stack => stack

/-- The routine for a token in front of an expression. -/
def Opening.routine {α : Type} (builder : Builder α) (token : Token) : Opening → Routine α
  | atom => .change (builder.atom token :: ·) (.finish .allowed)
  | operator bound => .operand bound (.change (onTop (builder.prefixed token)) (.finish .allowed))
  | group closing =>
    .operand 0 (.look fun last => .close closing token
      (.change (onTop (builder.group token · last)) (.finish .allowed)))

/-- The routine for a token of the given precedence behind an expression. -/
def Continuation.routine {α : Type} (builder : Builder α) (precedence : Precedence)
    (token : Token) : Continuation → Routine α
  | suffix => .change (onTop (builder.suffixed · token)) (.finish .allowed)
  | binary associativity =>
    .operand (associativity.operandBound precedence)
      (.change (onTopTwo (builder.binary · token ·)) (.finish associativity.chaining))

/-- The grammar of an operator table, with the stack of results as its state. -/
def Table.grammar {α : Type} (table : Table) (builder : Builder α) :
    Grammar (List α) SyntaxError (Routine α) where
  precedence _ := table.precedence
  prefixRoutine _ kind :=
    (table.opening kind).map fun opening token => opening.routine builder token
  infixRoutine _ kind :=
    (table.continuation kind).map fun continuation token =>
      continuation.routine builder (table.precedence token.kind) token
  statementRoutine _ _ := none
  misplaced _ token := .ofToken token
  request := Routine.request

end FrontEnd.Operators
