import FrontEnd.Input.CharSource

/-!
# Cursors

A cursor holds one decoded character of lookahead over some input, and the text that was consumed
since the last mark.  What it walks over is its own affair: a text in memory or a source that is
read once.
-/

namespace FrontEnd

/-- A one-character lookahead over inputs of type `ι`.  `remaining` bounds the number of times
that the cursor can still advance over a character. -/
class Cursor (γ : Type) (ι : outParam Type) where
  /-- The lookahead, `none` at the end of the input. -/
  peek : γ → Option Char
  /-- The number of bytes that the lookahead takes in the input, zero at the end. -/
  width : γ → Nat
  /-- Consumes the lookahead; at the end of the input nothing changes. -/
  advance : γ → γ
  /-- Starts a new, empty span at the lookahead. -/
  mark : γ → γ
  /-- The text consumed since the last mark. -/
  lexeme : γ → String
  /-- Binds the cursor to another input. -/
  reset : γ → ι → γ
  /-- The failed read that ended the input early, if one did. -/
  failure? : γ → Option ReadFailure
  remaining : γ → Nat
  remaining_advance : ∀ cursor, (peek cursor).isSome → remaining (advance cursor) < remaining cursor

end FrontEnd
