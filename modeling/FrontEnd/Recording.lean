import FrontEnd.TokenStream

/-!
# Recorded tokens

A recording gives its tokens in order and then ends for ever.  It ends where its last token stands,
or earlier at the first token in it that ends an input.
-/

namespace FrontEnd

/-- The tokens that are still to come and the position of the end behind them. -/
structure Recording where
  pending : List Token
  ending : Position

namespace Recording

/-- The recording of a list of tokens. -/
def ofTokens (tokens : List Token) : Recording :=
  ⟨tokens, (tokens.getLast?.map Token.position).getD .unknown⟩

/-- The number of tokens that are still to come. -/
def remaining (recording : Recording) : Nat :=
  recording.pending.length

/-- The next token.  A recorded end drops what is recorded behind it, and its text. -/
def next (recording : Recording) : Token × Recording :=
  match recording.pending with
  | [] => (.ending recording.ending, recording)
  | token :: rest =>
    if token.isEnd then (.ending token.position, ⟨[], token.position⟩)
    else (token, { recording with pending := rest })

instance : TokenStream Recording where
  next recording := .ok recording.next

end Recording

end FrontEnd
