import FrontEnd.Parse.SyntaxError
import FrontEnd.Proofs.Parse.Course
import FrontEnd.Proofs.Pulls

/-!
# One token ahead

A parser is used by consuming tokens one by one, by asking for a token of some kind, and by giving
the engine a task, in any order.  `Parser.Session` follows such a use up to any moment, also in the
middle of a task and behind one that failed, and gathers the tokens consumed so far.

At every moment these tokens, followed by the lookahead, are the first tokens of the stream, and no
further token has been pulled.  The reason is that each step of the engine either keeps stream and
lookahead or consumes the lookahead, and that it has an event exactly in the second case
(`Machine.Reaches.consumes`).
-/

namespace FrontEnd.Parse

namespace Parser

variable {τ σ ε κ : Type} [TokenStream τ] {grammar : Grammar σ ε κ}

/-- `Session grammar first consumed parser`: a parser that was used from `first` on is `parser` at
some moment, and the tokens `consumed` were consumed until then. -/
inductive Session (grammar : Grammar σ ε κ) (first : Parser τ σ) : List Token → Parser τ σ → Prop
  | start : Session grammar first [] first
  /-- Consume the lookahead. -/
  | advance {consumed : List Token} {parser after : Parser τ σ} {token : Token}
      (hsession : Session grammar first consumed parser)
      (hadvance : parser.advance = .ok (token, after)) :
      Session grammar first (consumed ++ [token]) after
  /-- Ask for a kind that the lookahead has. -/
  | matched {consumed : List Token} {parser after : Parser τ σ} {kind : Kind}
      (hsession : Session grammar first consumed parser)
      (hexpect : parser.expect kind = .ok (true, after)) :
      Session grammar first (consumed ++ [parser.lookahead]) after
  /-- Ask for a kind that the lookahead does not have. -/
  | unmatched {consumed : List Token} {parser after : Parser τ σ} {kind : Kind}
      (hsession : Session grammar first consumed parser)
      (hexpect : parser.expect kind = .ok (false, after)) :
      Session grammar first consumed after
  /-- Change the author's state. -/
  | consult {consumed : List Token} {parser : Parser τ σ}
      (hsession : Session grammar first consumed parser) (state : σ) :
      Session grammar first consumed (parser.input.withState state)
  /-- Give the engine a task, and follow it to some moment. -/
  | engage {consumed : List Token} {parser : Parser τ σ} {history : List Event}
      {machine : Machine τ σ ε κ} (hsession : Session grammar first consumed parser) (task : Task)
      (hreaches : Machine.Reaches grammar ⟨task.control, [], parser⟩ history machine) :
      Session grammar first (consumed ++ history.map Event.token) machine.parser

theorem next_of_ofStream {stream : τ} {state : σ} {parser : Parser τ σ}
    (hfirst : ofStream stream state = .ok parser) :
    TokenStream.next stream = .ok (parser.lookahead, parser.stream) ∧ parser.state = state := by
  unfold ofStream at hfirst
  split at hfirst
  · cases hfirst
  · rename_i hnext
    cases hfirst
    exact ⟨hnext, rfl⟩

theorem next_of_advance {parser after : Parser τ σ} {token : Token}
    (hadvance : parser.advance = .ok (token, after)) :
    TokenStream.next parser.stream = .ok (after.lookahead, after.stream) := by
  unfold advance at hadvance
  split at hadvance
  · cases hadvance
  · rename_i hnext
    cases hadvance
    exact hnext

theorem advance_of_expect {parser after : Parser τ σ} {kind : Kind}
    (hexpect : parser.expect kind = .ok (true, after)) :
    parser.advance = .ok (parser.lookahead, after) := by
  unfold expect at hexpect
  split at hexpect
  · cases hadvance : parser.advance with
    | error cause => simp [hadvance] at hexpect
    | ok advanced =>
        obtain ⟨token, rest⟩ := advanced
        simp only [hadvance, Except.ok.injEq, Prod.mk.injEq, true_and] at hexpect
        rw [eq_lookahead_of_advance hadvance, hexpect]
  · cases hexpect

theorem eq_of_expect {parser after : Parser τ σ} {kind : Kind}
    (hexpect : parser.expect kind = .ok (false, after)) : after = parser := by
  unfold expect at hexpect
  split at hexpect
  · cases hadvance : parser.advance with
    | error cause => simp [hadvance] at hexpect
    | ok advanced => simp [hadvance] at hexpect
  · cases hexpect
    rfl

/-- What is consumed, and the lookahead behind it, are the tokens that the stream was pulled for. -/
theorem Consumes.take {before after : Parser τ Unit} {tokens : List Token} {stream : τ}
    (hconsumes : Consumes before tokens after)
    (hnext : TokenStream.next stream = .ok (before.lookahead, before.stream)) :
    TokenStream.take (tokens.length + 1) stream =
      .ok (tokens ++ [after.lookahead], after.stream) := by
  induction hconsumes generalizing stream with
  | nothing parser =>
      rw [List.length_nil, TokenStream.take_succ_of_next hnext]
      rfl
  | token hadvance _ ih =>
      rw [List.length_cons, TokenStream.take_succ_of_next hnext, ih (next_of_advance hadvance),
        eq_lookahead_of_advance hadvance]
      rfl

namespace Session

variable {first parser : Parser τ σ} {consumed : List Token}

theorem consumes (hsession : Session grammar first consumed parser) :
    Consumes first.input consumed parser.input := by
  induction hsession with
  | start => exact .nothing _
  | advance _ hadvance ih => exact ih.trans (.one (input_advance_ok hadvance).1)
  | matched _ hexpect ih =>
      exact ih.trans (.one (input_advance_ok (advance_of_expect hexpect)).1)
  | unmatched _ hexpect ih =>
      rw [eq_of_expect hexpect]
      exact ih
  | consult _ state ih => exact ih
  | engage _ task hreaches ih => exact ih.trans hreaches.consumes

theorem take_stream {stream : τ} {state : σ} (hfirst : ofStream stream state = .ok first)
    (hsession : Session grammar first consumed parser) :
    TokenStream.take (consumed.length + 1) stream =
      .ok (consumed ++ [parser.lookahead], parser.stream) :=
  hsession.consumes.take (next_of_ofStream hfirst).1

/-- A task that comes to an answer, be it an error, goes on with the session. -/
theorem perform {task : Task} {fuel : Nat} {result : Except ε Unit} {asked : List Kind}
    {after : Parser τ σ} (hsession : Session grammar first consumed parser)
    (hperform : parser.perform grammar fuel task.control = .ok (result, asked, after)) :
    ∃ history : List Event, Session grammar first (consumed ++ history.map Event.token) after := by
  obtain ⟨history, _, _, hreaches⟩ := reaches_of_perform hperform
  exact ⟨history, hsession.engage task hreaches⟩

end Session

/-- **No token is lost, and the parser is one token ahead.**  At every moment of a session the tokens
consumed and the lookahead are what the stream was pulled for.  A kind that the lookahead does not
have is asked for without a pull, a task that ends leads to a further moment, and another stream is
attached without touching the one before. -/
theorem session_accounts {stream : τ} {state : σ} {first parser : Parser τ σ}
    {consumed : List Token} (hfirst : ofStream stream state = .ok first)
    (hsession : Session grammar first consumed parser) :
    TokenStream.take (consumed.length + 1) stream =
        .ok (consumed ++ [parser.lookahead], parser.stream) ∧
      (∀ kind, parser.lookahead.kind ≠ kind → parser.expect kind = .ok (false, parser)) ∧
      (∀ (task : Task) fuel result asked after,
        parser.perform grammar fuel task.control = .ok (result, asked, after) →
        ∃ history : List Event,
          Session grammar first (consumed ++ history.map Event.token) after) ∧
      ∀ other rebound, parser.attach other = .ok rebound →
        rebound.state = parser.state ∧
        ∀ again current, Session grammar rebound again current →
          TokenStream.take (again.length + 1) other =
            .ok (again ++ [current.lookahead], current.stream) := by
  refine ⟨hsession.take_stream hfirst, ?_, ?_, ?_⟩
  · intro kind hkind
    exact if_neg hkind
  · intro task fuel result asked after hperform
    exact hsession.perform hperform
  · intro other rebound hattach
    refine ⟨(next_of_ofStream hattach).2, ?_⟩
    intro again current hagain
    exact hagain.take_stream hattach

end Parser

/-! ## Sums -/

namespace Sums

def number : Kind := ⟨1⟩

def plus : Kind := ⟨2⟩

inductive Point
  | count
  | operand
  | fail (error : SyntaxError)
  | finish

/-- Sums of numbers, and how many numbers were seen. -/
def grammar : Grammar Nat SyntaxError Point where
  precedence _ kind := if kind = plus then 1 else 0
  prefixRoutine _ kind := if kind = number then some fun _ => .count else none
  infixRoutine _ kind := if kind = plus then some fun _ => .operand else none
  statementRoutine _ _ := none
  misplaced _ token := .ofToken token
  request
    | .count => .consult fun seen => (seen + 1, .finish)
    | .operand => .expression 1 fun
      | .ok _ => .finish
      | .error error => .fail error
    | .fail error => .fail error
    | .finish => .finish .allowed

def token (kind : Kind) (column : UInt32) : Token :=
  ⟨kind, "", ⟨⟨0, 1, column⟩, "name"⟩⟩

/-- A sum in which an operand is missing. -/
def recording : Recording :=
  .ofTokens [token number 1, token plus 2, token plus 3, token number 4]

def first : Parser Recording Nat :=
  (Parser.ofRecording recording).withState 0

/-- The parser behind the first number. -/
def behind (seen : Nat) : Parser Recording Nat :=
  ⟨⟨[token plus 3, token number 4], (token number 4).position⟩, token plus 2, seen⟩

/-- The parser when the second operand is asked for. -/
def middle : Parser Recording Nat :=
  ⟨⟨[token number 4], (token number 4).position⟩, token plus 3, 1⟩

theorem reaches_middle :
    Machine.Reaches grammar ⟨.expression 0, [], first⟩
      [.started (token number 1), .started (token plus 2)]
      ⟨.routine .operand, [.operator 0 1], middle⟩ := by
  have hseen : Machine.Reaches grammar ⟨.expression 0, [], first⟩ [.started (token number 1)]
      ⟨.routine .count, [.operand 0], behind 0⟩ := .one rfl
  have hcounted : Machine.Reaches grammar ⟨.routine .count, [.operand 0], behind 0⟩ []
      ⟨.routine .finish, [.operand 0], behind 1⟩ := .one rfl
  have hanswered : Machine.Reaches grammar ⟨.routine .finish, [.operand 0], behind 1⟩ []
      ⟨.answer (.ok .allowed) [], [.operand 0], behind 1⟩ := .one rfl
  have hdelivered : Machine.Reaches grammar ⟨.answer (.ok .allowed) [], [.operand 0], behind 1⟩ []
      ⟨.operators 0, [], behind 1⟩ := .one rfl
  have hoperator : Machine.Reaches grammar ⟨.operators 0, [], behind 1⟩ [.started (token plus 2)]
      ⟨.routine .operand, [.operator 0 1], middle⟩ := .one rfl
  exact (((hseen.trans hcounted).trans hanswered).trans hdelivered).trans hoperator

end Sums

theorem Parser.session_accounts_sums :
    ∃ first, Parser.ofStream Sums.recording 0 = .ok first ∧
      Parser.Session Sums.grammar first [Sums.token Sums.number 1, Sums.token Sums.plus 2]
        Sums.middle ∧
      TokenStream.take 3 Sums.recording =
        .ok ([Sums.token Sums.number 1, Sums.token Sums.plus 2, Sums.token Sums.plus 3],
          Sums.middle.stream) := by
  have hexpect : Sums.first.expect Sums.plus = .ok (false, Sums.first) := rfl
  have hsession : Parser.Session Sums.grammar Sums.first
      [Sums.token Sums.number 1, Sums.token Sums.plus 2] Sums.middle :=
    (Parser.Session.start.unmatched hexpect).engage (.expression 0) Sums.reaches_middle
  exact ⟨Sums.first, rfl, hsession, (Parser.session_accounts rfl hsession).1⟩

end FrontEnd.Parse
