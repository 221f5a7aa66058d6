import FrontEnd.Table.Basic

/-!
# Routines of a table

How the instructions of a body are carried out, as a grammar for the parsing engine.  A routine is
the token that it runs for, the height that the stack had at its start, what it has said about
chaining, and the list of tasks that are left.  An error drops tasks up to the nearest guard, which
is left behind the body of an attempt, and goes on with the guard's handler.
-/

namespace FrontEnd.Table

open FrontEnd.Parse (Chaining SyntaxError Request Grammar)

/-- What a routine has left to do. -/
inductive Task
  | perform (instruction : Instruction)
  /-- The end of an attempt, with the handler for errors before it. -/
  | guard (handler : Body)
  /-- Log a line. -/
  | note (line : String)
  /-- Log the kinds that a condition on statements was asked about. -/
  | noteAsked (asked : List Kind)
  /-- Consume the lookahead. -/
  | discard
  /-- Fail with a fault. -/
  | raise (fault : Fault)
  /-- Fail because the lookahead is misplaced. -/
  | raiseAtLookahead

/-- A routine at work. -/
structure Routine where
  token : Token
  base : Nat
  chaining : Chaining
  tasks : List Task

namespace Routine

/-- The routine of a body, for a token, on a stack of the given height. -/
def start (body : Body) (base : Nat) (token : Token) : Routine :=
  ⟨token, base, .allowed, body.map .perform⟩

/-- The routine with other tasks. -/
def withTasks (routine : Routine) (tasks : List Task) : Routine :=
  { routine with tasks }

/-- The tasks left behind the nearest guard, and its handler. -/
def handler? : List Task → Option (Body × List Task)
  | [] => none
  | .guard handler :: rest => some (handler, rest)
  | _ :: rest => handler? rest

/-- Changes the state and goes on with other tasks. -/
def change (routine : Routine) (rest : List Task) (act : State → State) :
    Request State Fault Routine :=
  .consult fun state => (act state, routine.withTasks rest)

/-- Goes on with other tasks. -/
def goOn (routine : Routine) (tasks : List Task) : Request State Fault Routine :=
  .consult fun state => (state, routine.withTasks tasks)

/-- Goes on after a nested call: with the tasks left, or with its error. -/
def resume (routine : Routine) (rest : List Task) (result : Except Fault Unit) : Routine :=
  match result with
  | .ok () => routine.withTasks rest
  | .error fault => routine.withTasks (.raise fault :: rest)

/-- The request that carries out an instruction, with the tasks left behind it. -/
def perform (routine : Routine) (rest : List Task) :
    Instruction → Request State Fault Routine
  | .push => routine.change rest (·.push routine.token.text)
  | .node count label => routine.change rest (·.node count (label.getD routine.token.text))
  | .gather below =>
    routine.change rest (·.gather (routine.base - below).toNat routine.token.text)
  | .log text => routine.change rest (·.note (text.getD routine.token.describe))
  | .expression bound => .expression bound (routine.resume rest)
  | .expressionAbove delta =>
    .consult fun state =>
      let bound := (state.precedence routine.token.kind).offset delta
      (state, routine.withTasks (.perform (.expression bound) :: rest))
  | .expect kind blame =>
    .expect kind fun matched =>
      if matched then
        routine.withTasks rest
      else
        match blame with
        | .self => routine.withTasks (.raise (.misplaced (.ofToken routine.token)) :: rest)
        | .lookahead => routine.withTasks (.raiseAtLookahead :: rest)
        | .nobody => routine.withTasks rest
  | .advance => .advance fun token => routine.withTasks (.note token.describe :: rest)
  | .statement => .statement (routine.resume rest)
  | .statements accept =>
    .statements accept.holds fun result asked =>
      match result with
      | .ok () => routine.withTasks (.noteAsked asked :: rest)
      | .error fault => routine.withTasks (.noteAsked asked :: .raise fault :: rest)
  | .branch kind yes no =>
    .peek fun lookahead =>
      routine.withTasks ((if lookahead.kind = kind then yes else no).map .perform ++ rest)
  | .repeatWhile kind body =>
    .peek fun lookahead =>
      if lookahead.kind = kind then
        routine.withTasks (body.map .perform ++ .perform (.repeatWhile kind body) :: rest)
      else
        routine.withTasks rest
  | .skipTo kind =>
    .peek fun lookahead =>
      if lookahead.kind = kind ∨ lookahead.isEnd then
        routine.withTasks rest
      else
        routine.withTasks (.discard :: .perform (.skipTo kind) :: rest)
  | .attempt body handler =>
    routine.goOn (body.map .perform ++ .guard handler :: rest)
  | .fail message => routine.goOn (.raise (.custom message) :: rest)
  | .chain chaining => { routine with chaining }.goOn rest
  | .setPrecedence key value =>
    routine.change rest (·.updateTables fun tables =>
      { tables with precedences := tables.precedences.set key value })
  | .setPrefix key body =>
    routine.change rest (·.updateTables fun tables =>
      { tables with prefixes := tables.prefixes.set key body })
  | .setInfix key body =>
    routine.change rest (·.updateTables fun tables =>
      { tables with infixes := tables.infixes.set key body })
  | .setStatement key body =>
    routine.change rest (·.updateTables fun tables =>
      { tables with statements := tables.statements.map (·.set key body) })

/-- The request of a routine. -/
def request (routine : Routine) : Request State Fault Routine :=
  match routine.tasks with
  | [] => .finish routine.chaining
  | .perform instruction :: rest => routine.perform rest instruction
  | .guard _ :: rest => routine.goOn rest
  | .note line :: rest => routine.change rest (·.note line)
  | .noteAsked asked :: rest => routine.change rest (·.noteAsked asked)
  | .discard :: rest => .advance fun _ => routine.withTasks rest
  | .raiseAtLookahead :: rest =>
    .peek fun lookahead => routine.withTasks (.raise (.misplaced (.ofToken lookahead)) :: rest)
  | .raise fault :: rest =>
    match handler? rest with
    | none => .fail fault
    | some (handler, rest) =>
      routine.change (handler.map .perform ++ rest) (·.note ("caught " ++ fault.message))

end Routine

/-- The grammar that the tables in the state describe at each moment. -/
def grammar : Grammar State Fault Routine where
  precedence := State.precedence
  prefixRoutine state kind :=
    (state.tables.prefixes.find kind).map fun body => .start body state.stack.size
  infixRoutine state kind :=
    (state.tables.infixes.find kind).map fun body => .start body state.stack.size
  statementRoutine state kind :=
    (state.tables.statements.bind (·.find kind)).map fun body => .start body state.stack.size
  misplaced _ token := .misplaced (.ofToken token)
  request := Routine.request

end FrontEnd.Table
