import FrontEnd.Halt
import FrontEnd.Token

/-!
# Token streams

A token stream is pulled one token at a time.  It ends with a token of kind zero, and from then on
every pull gives an empty token of kind zero.
-/

namespace FrontEnd

/-- A sequence of tokens to pull from.  A pull may be abandoned, because a stream may have to run
a program of the caller for it. -/
class TokenStream (τ : Type) where
  next : τ → Except Halt (Token × τ)

namespace TokenStream

variable {τ : Type} [TokenStream τ]

/-- The next token, or `none` if it ends the stream. -/
def nextBeforeEnd? (stream : τ) : Except Halt (Option Token × τ) :=
  match next stream with
  | .error cause => .error cause
  | .ok (token, stream) => .ok (if token.isEnd then none else some token, stream)

/-- Pulls tokens up to the end, and at most `limit` of them, behind those `taken` in reverse.  The
token that ends the stream is pulled and left out. -/
def takeBeforeEndFrom : (limit : Nat) → (taken : List Token) → τ → Except Halt (List Token × τ)
  | 0, taken, stream => .ok (taken.reverse, stream)
  | limit + 1, taken, stream =>
    match nextBeforeEnd? stream with
    | .error cause => .error cause
    | .ok (none, stream) => .ok (taken.reverse, stream)
    | .ok (some token, stream) => takeBeforeEndFrom limit (token :: taken) stream

/-- The tokens before the end, at most `limit` of them. -/
def takeBeforeEnd (stream : τ) (limit : Nat) : Except Halt (List Token × τ) :=
  takeBeforeEndFrom limit [] stream

/-- Pulls tokens up to and including the end, and at most `limit` of them, behind those `taken` in
reverse. -/
def takeThroughEndFrom : (limit : Nat) → (taken : List Token) → τ → Except Halt (List Token × τ)
  | 0, taken, stream => .ok (taken.reverse, stream)
  | limit + 1, taken, stream =>
    match next stream with
    | .error cause => .error cause
    | .ok (token, stream) =>
      if token.isEnd then .ok ((token :: taken).reverse, stream)
      else takeThroughEndFrom limit (token :: taken) stream

/-- The tokens up to and including the end, at most `limit` of them. -/
def takeThroughEnd (stream : τ) (limit : Nat) : Except Halt (List Token × τ) :=
  takeThroughEndFrom limit [] stream

end TokenStream

end FrontEnd
