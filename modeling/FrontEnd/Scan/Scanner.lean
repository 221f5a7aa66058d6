import FrontEnd.Scan.Program
import FrontEnd.TokenStream

/-!
# Scanners

A scanner runs a scanning program once for each token.  The token has the kind that the program
returned, the text since its last mark and the position of that mark.  Kind zero ends the stream;
so does a failed read, at the first token that would start behind it.  Once ended, the scanner
stays so, and its program is not run again, until it is bound to another input.
-/

namespace FrontEnd.Scan

/-- A scanning program at work on an input. -/
structure Scanner (γ κ : Type) where
  tracker : Tracker γ
  program : Program κ
  /-- Where the program starts the next token. -/
  control : κ
  /-- The requests that the program may make for one token. -/
  budget : Nat
  /-- The name that goes into every position. -/
  filename : String
  /-- Where the stream ended, once it has. -/
  ended : Option Position
  /-- How often the program was run. -/
  runs : Nat

namespace Scanner

variable {γ ι κ : Type} [Cursor γ ι]

/-- A scanner at the beginning of the cursor's input. -/
def ofCursor (cursor : γ) (program : Program κ) (budget : Nat) (filename : String) : Scanner γ κ :=
  { tracker := .ofCursor cursor
    program
    control := program.start
    budget
    filename
    ended := none
    runs := 0 }

/-- Binds the scanner to another input.  The name and the state of the program stay. -/
def reset (scanner : Scanner γ κ) (input : ι) : Scanner γ κ :=
  { scanner with tracker := scanner.tracker.reset input, ended := none }

/-- The failed read that ended the input early, if one did. -/
def failure? (scanner : Scanner γ κ) : Option ReadFailure :=
  scanner.tracker.failure?

/-- The next token. -/
def next (scanner : Scanner γ κ) : Except Halt (Token × Scanner γ κ) :=
  match scanner.ended with
  | some position => .ok (.ending position, scanner)
  | none =>
    if scanner.failure?.isSome && scanner.tracker.isDone then
      let position := scanner.tracker.here.inFile scanner.filename
      .ok (.ending position, { scanner with ended := some position })
    else
      match scanner.program.run scanner.budget scanner.control scanner.tracker with
      | .error cause => .error cause
      | .ok (kind, control, tracker) =>
        let position := tracker.start.inFile scanner.filename
        .ok
          (⟨kind, tracker.text, position⟩,
            { scanner with
              tracker := tracker.mark
              control
              ended := if kind.isEnd then some position else none
              runs := scanner.runs + 1 })

instance : TokenStream (Scanner γ κ) where
  next := next

end Scanner

end FrontEnd.Scan
