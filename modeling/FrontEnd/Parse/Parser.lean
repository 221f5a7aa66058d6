import FrontEnd.TokenStream

/-!
# Parsers

A parser is a token stream with one token of lookahead and the state of the grammar's author.
It pulls one token when it is made, and one more for each token that it consumes.
-/

namespace FrontEnd.Parse

/-- A token stream of type `τ` with its lookahead, and the author's state of type `σ`. -/
structure Parser (τ σ : Type) where
  stream : τ
  lookahead : Token
  state : σ

namespace Parser

variable {τ σ : Type} [TokenStream τ]

/-- A parser at the beginning of a stream. -/
def ofStream (stream : τ) (state : σ) : Except Halt (Parser τ σ) :=
  match TokenStream.next stream with
  | .error cause => .error cause
  | .ok (lookahead, stream) => .ok ⟨stream, lookahead, state⟩

/-- Attaches another stream.  Of the stream before, the lookahead included, nothing stays; the
author's state does. -/
def attach (parser : Parser τ σ) (stream : τ) : Except Halt (Parser τ σ) :=
  ofStream stream parser.state

/-- Whether the lookahead ends the stream. -/
def atEnd (parser : Parser τ σ) : Bool :=
  parser.lookahead.isEnd

/-- Consumes the lookahead. -/
def advance (parser : Parser τ σ) : Except Halt (Token × Parser τ σ) :=
  match TokenStream.next parser.stream with
  | .error cause => .error cause
  | .ok (lookahead, stream) => .ok (parser.lookahead, ⟨stream, lookahead, parser.state⟩)

/-- Consumes the lookahead if it is of the given kind, and says whether it was. -/
def expect (parser : Parser τ σ) (kind : Kind) : Except Halt (Bool × Parser τ σ) :=
  if parser.lookahead.kind = kind then
    match parser.advance with
    | .error cause => .error cause
    | .ok (_, parser) => .ok (true, parser)
  else
    .ok (false, parser)

end Parser

end FrontEnd.Parse
