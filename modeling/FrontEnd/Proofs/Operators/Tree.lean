import FrontEnd.Parse.Grammar
import FrontEnd.Proofs.Parse.Precedence

/-!
# Operator tables and expression trees

An operator table says for each kind of token how tightly it binds, what it does in front of an
expression (stand for a value, begin a prefix operator's operand, open a group) and what it does
behind one (end a suffix operator's operand, or stand between two operands).  A kind may have a
part in both places.

A `Tree` is an expression with all its tokens, groups included; `Tree.yield` are the tokens in
order.  Two things matter where a tree stands beside other tokens: the operators along its left
edge (`Tree.leftOperators`), which have to bind tighter than the bound that the tree was parsed
at, and the bounds that are open at its right end (`Tree.openBounds`), which the token behind the
tree must not exceed.  `Tree.Proper` says that this is so everywhere inside a tree.
-/

namespace FrontEnd.Operators

open FrontEnd.Parse (Precedence Chaining)

/-- How a chain of operators of one precedence is read. -/
inductive Associativity
  | left
  | right
  /-- Not at all: such operators cannot be chained. -/
  | none
deriving DecidableEq

namespace Associativity

/-- The bound for the right operand of an operator of the given precedence. -/
def operandBound (associativity : Associativity) (precedence : Precedence) : Precedence :=
  match associativity with
  | left => precedence
  | right => precedence.offset (-1)
  | none => precedence

theorem operandBound_le (associativity : Associativity) (precedence : Precedence) :
    associativity.operandBound precedence ≤ precedence := by
  have hle := Int32.le_toInt precedence
  rw [Int32.le_iff_toInt_le]
  cases associativity with
  | left => exact Int.le_refl _
  | right =>
      simp only [operandBound, Parse.Precedence.toInt_offset]
      omega
  | none => exact Int.le_refl _

/-- What may follow behind the right operand. -/
def chaining : Associativity → Chaining
  | left => .allowed
  | right => .allowed
  | none => .barred

end Associativity

/-- What a token does in front of an expression. -/
inductive Opening
  /-- It is an expression by itself. -/
  | atom
  /-- It is a prefix operator, with an operand whose operators bind tighter than `bound`. -/
  | operator (bound : Precedence)
  /-- It opens a group that a token of the kind `closing` closes. -/
  | group (closing : Kind)
deriving DecidableEq

/-- What a token does behind an expression. -/
inductive Continuation
  /-- It is an operator on the expression in front of it. -/
  | suffix
  /-- It is an operator between two expressions. -/
  | binary (associativity : Associativity)
deriving DecidableEq

/-- An operator table. -/
structure Table where
  precedence : Kind → Precedence
  opening : Kind → Option Opening
  continuation : Kind → Option Continuation

namespace Table

/-- The bound for the operand of a prefix operator. -/
def prefixBound (table : Table) (kind : Kind) : Precedence :=
  match table.opening kind with
  | some (.operator bound) => bound
  | _ => 0

/-- The bound for the right operand of an operator between two expressions. -/
def rightBound (table : Table) (kind : Kind) : Precedence :=
  match table.continuation kind with
  | some (.binary associativity) => associativity.operandBound (table.precedence kind)
  | _ => 0

variable {table : Table} {kind : Kind}

theorem prefixBound_eq {bound : Precedence} (hopening : table.opening kind = some (.operator bound)) :
    table.prefixBound kind = bound := by
  simp [prefixBound, hopening]

theorem rightBound_eq {associativity : Associativity}
    (hcontinuation : table.continuation kind = some (.binary associativity)) :
    table.rightBound kind = associativity.operandBound (table.precedence kind) := by
  simp [rightBound, hcontinuation]

/-- No operator of the table bars what follows it. -/
def Chainable (table : Table) : Prop :=
  ∀ kind, table.continuation kind ≠ some (.binary .none)

end Table

/-- An expression with all its tokens. -/
inductive Tree
  | atom (token : Token)
  | prefixed (operator : Token) (operand : Tree)
  | suffixed (operand : Tree) (operator : Token)
  | binary (left : Tree) (operator : Token) (right : Tree)
  | group (opening : Token) (body : Tree) (closing : Token)
deriving DecidableEq

namespace Tree

/-- The tokens of a tree, in order. -/
def yield : Tree → List Token
  | atom token => [token]
  | prefixed operator operand => operator :: operand.yield
  | suffixed operand operator => operand.yield ++ [operator]
  | binary left operator right => left.yield ++ operator :: right.yield
  | group opening body closing => opening :: body.yield ++ [closing]

/-- The suffix or binary operator at the root of a tree. -/
def root? : Tree → Option Token
  | suffixed _ operator => some operator
  | binary _ operator _ => some operator
  | _ => none

/-- The suffix and binary operators that are reached through left operands, outside of groups. -/
def leftOperators : Tree → List Token
  | suffixed operand operator => operator :: operand.leftOperators
  | binary left operator _ => operator :: left.leftOperators
  | _ => []

/-- The bounds at which the operands of the prefix and binary operators were parsed that are
reached through right operands, outside of groups. -/
def openBounds (table : Table) : Tree → List Precedence
  | prefixed operator operand => table.prefixBound operator.kind :: operand.openBounds table
  | binary _ operator right => table.rightBound operator.kind :: right.openBounds table
  | _ => []

/-- Every operator that is reached through left operands binds tighter than `bound`. -/
def BindsAbove (table : Table) (bound : Precedence) (tree : Tree) : Prop :=
  ∀ operator ∈ tree.leftOperators, bound < table.precedence operator.kind

/-- A token of the given kind may stand behind the tree: it does not bind tighter than a bound that
is open there. -/
def Admits (table : Table) (tree : Tree) (kind : Kind) : Prop :=
  ∀ bound ∈ tree.openBounds table, table.precedence kind ≤ bound

/-- Every token of the tree does what the table says, every operand binds above the bound of its
operator, and every operator may stand behind its left operand. -/
def Proper (table : Table) : Tree → Prop
  | atom token => table.opening token.kind = some .atom
  | prefixed operator operand =>
    ∃ bound, table.opening operator.kind = some (.operator bound) ∧
      operand.BindsAbove table bound ∧ operand.Proper table
  | suffixed operand operator =>
    table.continuation operator.kind = some .suffix ∧
      operand.Admits table operator.kind ∧ operand.Proper table
  | binary left operator right =>
    ∃ associativity, table.continuation operator.kind = some (.binary associativity) ∧
      left.Admits table operator.kind ∧ left.Proper table ∧
      right.BindsAbove table (associativity.operandBound (table.precedence operator.kind)) ∧
      right.Proper table
  | group opening body closing =>
    table.opening opening.kind = some (.group closing.kind) ∧
      body.BindsAbove table 0 ∧ table.precedence closing.kind ≤ 0 ∧
      body.Admits table closing.kind ∧ body.Proper table

end Tree

end FrontEnd.Operators
