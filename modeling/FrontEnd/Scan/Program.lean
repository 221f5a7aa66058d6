import FrontEnd.Kind
import FrontEnd.Tracker

/-!
# Scanning programs

A scanning function works on a tracker through its primitives only and returns the kind of the
token that it found.  Here such a function is a program: a set of control points, each of which
makes one request, with the control point to go on with for every answer.  Branches, loops and
state kept from one token to the next are all control points of the program, so the program can be
run over any cursor, and two runs can be compared request by request.
-/

namespace FrontEnd.Scan

/-- What a scanning program asks for at a control point. -/
inductive Request (κ : Type)
  /-- Return a kind; the next token starts at the given control point. -/
  | finish (kind : Kind) (next : κ)
  /-- Look at the next character. -/
  | peek (resume : Option Char → κ)
  /-- Consume the next character. -/
  | advance (next : κ)
  /-- Start the token at the next character. -/
  | mark (next : κ)
  /-- Look at the text since the last mark. -/
  | text (resume : String → κ)
  /-- Consume the next character if it satisfies a condition. -/
  | takeIf (accept : Char → Bool) (resume : Bool → κ)
  /-- Consume all next characters that satisfy a condition. -/
  | takeWhile (accept : Char → Bool) (resume : Nat → κ)
  /-- Ask for the failed read that ended the input early. -/
  | failure (resume : Option ReadFailure → κ)
  /-- Abandon the scan. -/
  | halt (cause : Halt)

namespace Request

variable {κ : Type}

/-- Asks whether nothing is left to read. -/
def isDone (resume : Bool → κ) : Request κ :=
  .peek fun next => resume next.isNone

/-- Consumes the next character if it is the given one. -/
def takeChar (character : Char) (resume : Bool → κ) : Request κ :=
  .takeIf (· == character) resume

/-- Looks the text since the last mark up in a keyword table. -/
def keyword (keywords : Keywords) (resume : Option Nat → κ) : Request κ :=
  .text fun text => resume (keywords.lookup text)

end Request

/-- A scanning function: where the first token starts, and the request at each control point. -/
structure Program (κ : Type) where
  start : κ
  request : κ → Request κ

/-- A program that starts every token at the same control point keeps nothing between tokens. -/
def Program.Stateless {κ : Type} (program : Program κ) : Prop :=
  ∀ control kind next, program.request control = .finish kind next → next = program.start

/-- Runs a program from a control point to the end of a token, for at most `fuel` requests. -/
def Program.run {κ γ ι : Type} [Cursor γ ι] (program : Program κ) :
    (fuel : Nat) → κ → Tracker γ → Except Halt (Kind × κ × Tracker γ)
  | 0, _, _ => .error .outOfFuel
  | fuel + 1, control, tracker =>
    match program.request control with
    | .finish kind next => .ok (kind, next, tracker)
    | .peek resume => program.run fuel (resume tracker.peek) tracker
    | .advance next => program.run fuel next tracker.advance
    | .mark next => program.run fuel next tracker.mark
    | .text resume => program.run fuel (resume tracker.text) tracker
    | .takeIf accept resume =>
      let (taken, tracker) := tracker.takeIf accept
      program.run fuel (resume taken) tracker
    | .takeWhile accept resume =>
      let (count, tracker) := tracker.takeWhile accept
      program.run fuel (resume count) tracker
    | .failure resume => program.run fuel (resume tracker.failure?) tracker
    | .halt cause => .error cause

end FrontEnd.Scan
