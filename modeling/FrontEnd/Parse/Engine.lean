import FrontEnd.Parse.Grammar
import FrontEnd.Parse.Parser

/-!
# The parsing engine

Expressions are parsed by precedence climbing: the first token is handed to its prefix routine,
and then each operator that binds tighter than the bound to its infix routine.  Routines call the
engine back for their operands, to any depth, so the engine keeps its callers in a list of frames
and runs as a machine that takes one small step at a time.

The task in hand is a `Control`, what waits for its answer are the `Frame`s, and `step` is the
whole semantics.  `Parser.expression`, `Parser.statement` and `Parser.statements` run the machine
from a task to its answer.
-/

namespace FrontEnd.Parse

/-- The answer to a task: the error that it ended with, or how an operator may be followed. -/
abbrev Answer (ε : Type) := Except ε Chaining

/-- What the engine is doing. -/
inductive Control (ε κ : Type)
  /-- Carry on with a routine. -/
  | routine (control : κ)
  /-- Parse an expression whose operators bind tighter than the bound. -/
  | expression (bound : Precedence)
  /-- Go on with an expression whose first operand is parsed. -/
  | operators (bound : Precedence)
  /-- Parse a statement. -/
  | statement
  /-- Parse statements as long as the condition holds; `asked` are the kinds that it was asked
  about, the latest first. -/
  | statements (accept : Acceptance) (asked : List Kind)
  /-- Return an answer, and the kinds that a condition on statements was asked about. -/
  | answer (result : Answer ε) (asked : List Kind)

/-- What waits for an answer. -/
inductive Frame (ε κ : Type)
  /-- An expression whose prefix routine is running. -/
  | operand (bound : Precedence)
  /-- An expression whose infix routine is running, for an operator of the given precedence. -/
  | operator (bound precedence : Precedence)
  /-- A list of statements of which one is being parsed. -/
  | statements (accept : Acceptance) (asked : List Kind)
  /-- A routine that asked for an expression or for statements. -/
  | caller (resume : Except ε Unit → List Kind → κ)

/-- The engine at work: its task, what waits for the answer, and the parser. -/
structure Machine (τ σ ε κ : Type) where
  control : Control ε κ
  frames : List (Frame ε κ)
  parser : Parser τ σ

namespace Machine

variable {τ σ ε κ : Type}

/-- Hands a token to its routine, which returns to the frames `inner`, or answers to the frames
`outer` that the token is misplaced. -/
def dispatch (grammar : Grammar σ ε κ) (routine : Option (Token → κ)) (token : Token)
    (inner outer : List (Frame ε κ)) (parser : Parser τ σ) : Machine τ σ ε κ :=
  match routine with
  | none => ⟨.answer (.error (grammar.misplaced parser.state token)) [], outer, parser⟩
  | some start => ⟨.routine (start token), inner, parser⟩

/-- Gives an answer to the frame that waits for it. -/
def deliver (result : Answer ε) (asked : List Kind) (frame : Frame ε κ) : Control ε κ :=
  match frame, result with
  | .operand _, .error error => .answer (.error error) []
  | .operand bound, .ok _ => .operators bound
  | .operator _ _, .error error => .answer (.error error) []
  | .operator bound precedence, .ok chaining =>
    .operators (chaining.boundAfter precedence bound)
  | .statements _ before, .error error => .answer (.error error) before.reverse
  | .statements accept before, .ok _ => .statements accept before
  | .caller resume, result => .routine (resume (result.map fun _ => ()) asked)

variable [TokenStream τ]

/-- Carries out the request of a routine. -/
def serve (request : Request σ ε κ) (frames : List (Frame ε κ)) (parser : Parser τ σ) :
    Except Halt (Machine τ σ ε κ) :=
  match request with
  | .finish chaining => .ok ⟨.answer (.ok chaining) [], frames, parser⟩
  | .fail error => .ok ⟨.answer (.error error) [], frames, parser⟩
  | .peek resume => .ok ⟨.routine (resume parser.lookahead), frames, parser⟩
  | .advance resume =>
    match parser.advance with
    | .error cause => .error cause
    | .ok (token, parser) => .ok ⟨.routine (resume token), frames, parser⟩
  | .expect kind resume =>
    match parser.expect kind with
    | .error cause => .error cause
    | .ok (matched, parser) => .ok ⟨.routine (resume matched), frames, parser⟩
  | .consult act =>
    let ⟨stream, lookahead, state⟩ := parser
    let (state, control) := act state
    .ok ⟨.routine control, frames, ⟨stream, lookahead, state⟩⟩
  | .expression bound resume =>
    .ok ⟨.expression bound, .caller (fun result _ => resume result) :: frames, parser⟩
  | .statement resume =>
    .ok ⟨.statement, .caller (fun result _ => resume result) :: frames, parser⟩
  | .statements accept resume =>
    .ok ⟨.statements accept [], .caller resume :: frames, parser⟩

/-- One step of the engine.  A machine with an answer that nothing waits for stays as it is. -/
def step (grammar : Grammar σ ε κ) : Machine τ σ ε κ → Except Halt (Machine τ σ ε κ)
  | ⟨.routine control, frames, parser⟩ => serve (grammar.request control) frames parser
  | ⟨.expression bound, frames, parser⟩ =>
    match parser.advance with
    | .error cause => .error cause
    | .ok (token, parser) =>
      .ok (dispatch grammar (grammar.prefixRoutine parser.state token.kind) token
        (.operand bound :: frames) frames parser)
  | ⟨.operators bound, frames, parser⟩ =>
    let precedence := grammar.precedence parser.state parser.lookahead.kind
    if precedence ≤ bound then
      .ok ⟨.answer (.ok .allowed) [], frames, parser⟩
    else
      match parser.advance with
      | .error cause => .error cause
      | .ok (token, parser) =>
        .ok (dispatch grammar (grammar.infixRoutine parser.state token.kind) token
          (.operator bound precedence :: frames) frames parser)
  | ⟨.statement, frames, parser⟩ =>
    match parser.advance with
    | .error cause => .error cause
    | .ok (token, parser) =>
      .ok (dispatch grammar (grammar.statementRoutine parser.state token.kind) token
        frames frames parser)
  | ⟨.statements accept asked, frames, parser⟩ =>
    let kind := parser.lookahead.kind
    if accept asked kind then
      .ok ⟨.statement, .statements accept (kind :: asked) :: frames, parser⟩
    else
      .ok ⟨.answer (.ok .allowed) (kind :: asked).reverse, frames, parser⟩
  | ⟨.answer result asked, [], parser⟩ => .ok ⟨.answer result asked, [], parser⟩
  | ⟨.answer result asked, frame :: frames, parser⟩ =>
    .ok ⟨deliver result asked frame, frames, parser⟩

/-- Runs the engine to an answer that nothing waits for, for at most `fuel` steps. -/
def run (grammar : Grammar σ ε κ) :
    (fuel : Nat) → Machine τ σ ε κ → Except Halt (Answer ε × List Kind × Parser τ σ)
  | _, ⟨.answer result asked, [], parser⟩ => .ok (result, asked, parser)
  | 0, _ => .error .outOfFuel
  | fuel + 1, machine =>
    match step grammar machine with
    | .error cause => .error cause
    | .ok machine => run grammar fuel machine

end Machine

namespace Parser

variable {τ σ ε κ : Type} [TokenStream τ]

/-- Runs one task of the engine: its outcome, the kinds that a condition on statements was asked
about, and the parser behind it. -/
def perform (parser : Parser τ σ) (grammar : Grammar σ ε κ) (fuel : Nat) (task : Control ε κ) :
    Except Halt (Except ε Unit × List Kind × Parser τ σ) :=
  match Machine.run grammar fuel ⟨task, [], parser⟩ with
  | .error cause => .error cause
  | .ok (result, asked, parser) => .ok (result.map fun _ => (), asked, parser)

/-- Parses an expression whose operators all bind tighter than `bound`.  The first operator that
does not is left as the lookahead. -/
def expression (parser : Parser τ σ) (grammar : Grammar σ ε κ) (fuel : Nat) (bound : Precedence) :
    Except Halt (Except ε Unit × Parser τ σ) :=
  match parser.perform grammar fuel (.expression bound) with
  | .error cause => .error cause
  | .ok (result, _, parser) => .ok (result, parser)

/-- Parses one statement. -/
def statement (parser : Parser τ σ) (grammar : Grammar σ ε κ) (fuel : Nat) :
    Except Halt (Except ε Unit × Parser τ σ) :=
  match parser.perform grammar fuel .statement with
  | .error cause => .error cause
  | .ok (result, _, parser) => .ok (result, parser)

/-- Parses statements as long as `accept` holds for the kind of the lookahead, and says which kinds
it was asked about. -/
def statements (parser : Parser τ σ) (grammar : Grammar σ ε κ) (fuel : Nat) (accept : Acceptance) :
    Except Halt (Except ε Unit × List Kind × Parser τ σ) :=
  parser.perform grammar fuel (.statements accept [])

end Parser

end FrontEnd.Parse
