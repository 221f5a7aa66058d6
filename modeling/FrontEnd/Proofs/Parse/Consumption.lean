import FrontEnd.Parse.Parser
import FrontEnd.Recording

/-!
# The tokens that a parser consumes

What a parser reads depends on its stream and its lookahead, not on the author's state.
`Parser.input` is a parser without that state and `Parser.withState` puts one back; consuming a
token commutes with both.  `Parser.Consumes` says which tokens lie between two inputs: those that
`advance` returns one after the other on the way.  A recording gives its tokens in this sense
(`Parser.consumes_ofRecording`).
-/

namespace FrontEnd.Parse.Parser

variable {τ σ : Type}

/-- What a parser reads from: the parser without the author's state. -/
def input (parser : Parser τ σ) : Parser τ Unit :=
  ⟨parser.stream, parser.lookahead, ()⟩

/-- The parser that reads from an input and has the given state. -/
def withState (input : Parser τ Unit) (state : σ) : Parser τ σ :=
  ⟨input.stream, input.lookahead, state⟩

@[simp] theorem lookahead_withState (input : Parser τ Unit) (state : σ) :
    (input.withState state).lookahead = input.lookahead :=
  rfl

@[simp] theorem withState_input (parser : Parser τ σ) :
    parser.input.withState parser.state = parser :=
  rfl

variable [TokenStream τ]

/-- Consuming a token does not touch the state. -/
theorem advance_withState (input : Parser τ Unit) (state : σ) :
    (input.withState state).advance =
      input.advance.map fun (token, rest) => (token, rest.withState state) := by
  simp only [advance, withState]
  cases TokenStream.next input.stream <;> rfl

theorem advance_withState_ok {before after : Parser τ Unit} {token : Token}
    (hadvance : before.advance = .ok (token, after)) (state : σ) :
    (before.withState state).advance = .ok (token, after.withState state) := by
  rw [advance_withState, hadvance]
  rfl

theorem input_advance_ok {parser after : Parser τ σ} {token : Token}
    (hadvance : parser.advance = .ok (token, after)) :
    parser.input.advance = .ok (token, after.input) ∧ after.state = parser.state := by
  rw [← withState_input parser, advance_withState] at hadvance
  cases hinput : parser.input.advance with
  | error cause => simp [hinput, Except.map] at hadvance
  | ok advanced =>
      simp only [hinput, Except.map, Except.ok.injEq, Prod.mk.injEq] at hadvance
      obtain ⟨rfl, rfl⟩ := hadvance
      exact ⟨rfl, rfl⟩

theorem eq_lookahead_of_advance {parser after : Parser τ σ} {token : Token}
    (hadvance : parser.advance = .ok (token, after)) : token = parser.lookahead := by
  unfold advance at hadvance
  split at hadvance
  · cases hadvance
  · cases hadvance
    rfl

/-- `Consumes before tokens after`: advancing from `before` returns `tokens` one after the other
and leads to `after`. -/
inductive Consumes : Parser τ Unit → List Token → Parser τ Unit → Prop
  | nothing (parser : Parser τ Unit) : Consumes parser [] parser
  | token {before middle after : Parser τ Unit} {token : Token} {rest : List Token}
      (hadvance : before.advance = .ok (token, middle)) (hrest : Consumes middle rest after) :
      Consumes before (token :: rest) after

namespace Consumes

theorem one {before after : Parser τ Unit} {token : Token}
    (hadvance : before.advance = .ok (token, after)) : Consumes before [token] after :=
  .token hadvance (.nothing after)

theorem trans {before middle after : Parser τ Unit} {first second : List Token}
    (hfirst : Consumes before first middle) (hsecond : Consumes middle second after) :
    Consumes before (first ++ second) after := by
  induction hfirst with
  | nothing parser => exact hsecond
  | token hadvance _ ih => exact .token hadvance (ih hsecond)

/-- Where tokens are consumed in two stretches, there is an input between them. -/
theorem split {before after : Parser τ Unit} {first second : List Token}
    (hconsumes : Consumes before (first ++ second) after) :
    ∃ middle, Consumes before first middle ∧ Consumes middle second after := by
  induction first generalizing before with
  | nil => exact ⟨before, .nothing before, hconsumes⟩
  | cons token rest ih =>
      cases hconsumes with
      | token hadvance hrest =>
          obtain ⟨middle, hfirst, hsecond⟩ := ih hrest
          exact ⟨middle, .token hadvance hfirst, hsecond⟩

end Consumes

/-! ## Recorded tokens -/

/-- The beginning of a recording. -/
def ofRecording (recording : Recording) : Parser Recording Unit :=
  ⟨recording.next.2, recording.next.1, ()⟩

omit [TokenStream τ] in
theorem ofRecording_cons {token : Token} (htoken : token.isEnd = false) (rest : List Token)
    (ending : Position) :
    ofRecording ⟨token :: rest, ending⟩ = ⟨⟨rest, ending⟩, token, ()⟩ := by
  simp [ofRecording, Recording.next, htoken]

omit [TokenStream τ] in
theorem advance_ofRecording {token : Token} (htoken : token.isEnd = false) (rest : List Token)
    (ending : Position) :
    (ofRecording ⟨token :: rest, ending⟩).advance = .ok (token, ofRecording ⟨rest, ending⟩) := by
  rw [ofRecording_cons htoken]
  rfl

omit [TokenStream τ] in
/-- A recording gives all its tokens before the end, and then ends. -/
theorem consumes_ofRecording {tokens : List Token} (ending : Position)
    (htokens : ∀ token ∈ tokens, token.isEnd = false) :
    Consumes (ofRecording ⟨tokens, ending⟩) tokens (ofRecording ⟨[], ending⟩) := by
  induction tokens with
  | nil => exact .nothing _
  | cons token rest ih =>
      obtain ⟨htoken, hrest⟩ := List.forall_mem_cons.mp htokens
      exact .token (advance_ofRecording htoken rest ending) (ih hrest)

end FrontEnd.Parse.Parser
