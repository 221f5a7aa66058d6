import FrontEnd.Parse.Grammar
import FrontEnd.Parse.SyntaxError

/-!
# Grammars given as tables

A grammar can be written down as data: for each kind a precedence and the bodies of its routines.
A body is a list of instructions for a stack of texts, on which trees are built, and a log.  This
module has the instructions, the tables and the state that the instructions work on.
-/

namespace FrontEnd.Table

open FrontEnd.Parse (Precedence Acceptance SyntaxError)

/-- A condition on the kind in front of a statement. -/
inductive Accept
  | positive
  | notEnd
  | all
  | none
  | oneOf (kinds : List Kind)
  /-- Holds as often as the number says and never again. -/
  | first (count : Nat)

/-- Whether the condition holds for a kind, after it was asked about others. -/
def Accept.holds : Accept → Acceptance
  | positive, _, kind => decide (0 < kind.value)
  | notEnd, _, kind => !kind.isEnd
  | all, _, _ => true
  | none, _, _ => false
  | oneOf kinds, _, kind => kinds.contains kind
  | first count, asked, _ => decide (asked.length < count)

/-- The token that is blamed when another one was expected. -/
inductive Blame
  /-- The token that the routine was run for. -/
  | self
  /-- The lookahead. -/
  | lookahead
  /-- No token: the routine goes on. -/
  | nobody
deriving DecidableEq

/-- Which entry of a table is meant: that of one kind, or the one for all kinds without. -/
inductive Key
  | kind (kind : Kind)
  | otherwise
deriving DecidableEq

/-- One step of a parse routine given as data, on behalf of the token that it was run for. -/
inductive Instruction
  /-- Push the token's text. -/
  | push
  /-- Pop so many entries and push them as a tree with the given label, or the token's text. -/
  | node (count : Nat) (label : Option String)
  /-- Replace all entries from so many below the routine's first up by one list. -/
  | gather (below : Int)
  /-- Log a text, or how the token is written. -/
  | log (text : Option String)
  /-- Parse an expression at a bound. -/
  | expression (bound : Precedence)
  /-- Parse an expression at a bound that is the precedence of the token plus a number. -/
  | expressionAbove (delta : Int)
  /-- Consume the lookahead if it is of the kind, and blame someone if it is not. -/
  | expect (kind : Kind) (blame : Blame)
  /-- Consume the lookahead and log it. -/
  | advance
  | statement
  /-- Parse statements and log the kinds that the condition was asked about. -/
  | statements (accept : Accept)
  /-- Go on by the kind of the lookahead. -/
  | branch (kind : Kind) (yes no : List Instruction)
  /-- Repeat as long as the lookahead is of the kind. -/
  | repeatWhile (kind : Kind) (body : List Instruction)
  /-- Consume tokens up to one of the kind or the end. -/
  | skipTo (kind : Kind)
  /-- On an error in the body, log it and carry out the handler. -/
  | attempt (body handler : List Instruction)
  /-- Fail with a text. -/
  | fail (message : String)
  /-- Say how the operator that the token is may be followed. -/
  | chain (chaining : Parse.Chaining)
  | setPrecedence (key : Key) (value : Option Precedence)
  | setPrefix (key : Key) (body : Option (List Instruction))
  | setInfix (key : Key) (body : Option (List Instruction))
  | setStatement (key : Key) (body : Option (List Instruction))

/-- The body of a routine. -/
abbrev Body := List Instruction

/-- A table by kind.  A kind with an entry of its own, even an empty one, has that; every other
kind has the entry for the rest. -/
structure Entries (α : Type) where
  own : List (Kind × Option α)
  rest : Option α

namespace Entries

variable {α : Type}

/-- A table without entries. -/
def empty : Entries α := ⟨[], none⟩

/-- The entry of a kind. -/
def find (entries : Entries α) (kind : Kind) : Option α :=
  match entries.own.lookup kind with
  | some entry => entry
  | none => entries.rest

/-- Replaces one entry. -/
def set (entries : Entries α) (key : Key) (entry : Option α) : Entries α :=
  match key with
  | .kind kind => { entries with own := (kind, entry) :: entries.own.filter (·.1 ≠ kind) }
  | .otherwise => { entries with rest := entry }

end Entries

/-- A grammar as data.  A grammar without a table for statements has no statements at all. -/
structure Tables where
  precedences : Entries Precedence
  prefixes : Entries Body
  infixes : Entries Body
  statements : Option (Entries Body)

/-- What went wrong in a routine. -/
inductive Fault
  | misplaced (error : SyntaxError)
  | custom (message : String)

/-- The wording of a fault. -/
def Fault.message : Fault → String
  | misplaced error => error.message
  | custom message => message

/-- What the instructions work on: the tables themselves, a stack and a log. -/
structure State where
  tables : Tables
  stack : Array String
  log : Array String

namespace State

/-- The state that a grammar starts with. -/
def ofTables (tables : Tables) : State :=
  ⟨tables, #[], #[]⟩

/-- The precedence of a kind; without an entry it is zero. -/
def precedence (state : State) (kind : Kind) : Precedence :=
  (state.tables.precedences.find kind).getD 0

/-- Pushes an entry on the stack. -/
def push (state : State) (entry : String) : State :=
  { state with stack := state.stack.push entry }

/-- Adds a line to the log. -/
def note (state : State) (line : String) : State :=
  { state with log := state.log.push line }

/-- Adds the kinds that a condition was asked about to the log. -/
def noteAsked (state : State) (asked : List Kind) : State :=
  state.note ("asked [" ++ String.intercalate ", " (asked.map Kind.text) ++ "]")

/-- Empties the log. -/
def clearLog (state : State) : State :=
  { state with log := #[] }

/-- Empties the stack. -/
def clearStack (state : State) : State :=
  { state with stack := #[] }

/-- Pops entries in front of those already popped; an empty stack gives a question mark. -/
def popInto : (count : Nat) → Array String → (popped : List String) → Array String × List String
  | 0, stack, popped => (stack, popped)
  | count + 1, stack, popped =>
    let entry := stack.back?.getD "?"
    popInto count stack.pop (entry :: popped)

/-- Replaces the last `count` entries by a tree of them, written `(label first … last)`. -/
def node (state : State) (count : Nat) (label : String) : State :=
  let ⟨tables, stack, log⟩ := state
  let (stack, children) := popInto count stack []
  let tree := children.foldl (fun text child => text ++ " " ++ child) ("(" ++ label)
  ⟨tables, stack.push (tree ++ ")"), log⟩

/-- Replaces all entries from a height up by a list of them, written `[label first … last]`. -/
def gather (state : State) (height : Nat) (label : String) : State :=
  let ⟨tables, stack, log⟩ := state
  let members := (stack.extract height stack.size).toList
  let line := "[" ++ label ++ " " ++ String.intercalate " " members ++ "]"
  ⟨tables, (stack.take height).push line, log⟩

/-- Changes the tables. -/
def updateTables (state : State) (update : Tables → Tables) : State :=
  { state with tables := update state.tables }

end State

end FrontEnd.Table
