import FrontEnd.Proofs.Parse.Sessions
import FrontEnd.Proofs.Scan.Simulation
import FrontEnd.Cursor.Text
import FrontEnd.Scan.Rules

/-!
# What a parse depends on

A parser sees of its stream the tokens that it consumes and the one behind them.  So if two streams
begin with the same tokens, the same operations on both have the same results, errors included, as
long as they do not consume more than all of these tokens but one; it makes no difference what kind
of stream either of them is.

## Strategy

The two streams are related by a family of relations, one for each number of further pulls, that a
pull goes down by one (`TokenStream.Keeps`).  Two machines with equal parts over such streams take
the same step, and the number of pulls goes down by the step's event (`Machine.concur_step`).  From
there on it is an induction over the steps of a run and over the operations.
-/

namespace FrontEnd

open Scan (Agree)

/-! ## Streams that agree for a while -/

namespace TokenStream

variable {τ υ : Type} [TokenStream τ] [TokenStream υ]

/-- Streams that are related for one pull more give the same token, or are abandoned for the same
cause, and stay related. -/
def Keeps (related : Nat → τ → υ → Prop) : Prop :=
  ∀ {count : Nat} {first : τ} {second : υ}, related (count + 1) first second →
    Agree (related count) (next first) (next second)

/-- The next `count` pulls agree. -/
def AgreeFor : Nat → τ → υ → Prop
  | 0, _, _ => True
  | count + 1, first, second => Agree (AgreeFor count) (next first) (next second)

theorem keeps_agreeFor : Keeps (AgreeFor : Nat → τ → υ → Prop) := id

theorem agreeFor_of_tokens {count : Nat} {first : τ} {second : υ} {given : List Token}
    (hfirst : tokens count first = .ok given) (hsecond : tokens count second = .ok given) :
    AgreeFor count first second := by
  induction count generalizing first second given with
  | zero => exact trivial
  | succ count ih =>
      obtain ⟨token, rest, later, hnext, hrest, rfl⟩ := next_of_tokens_succ hfirst
      obtain ⟨token', rest', later', hnext', hrest', hgiven⟩ := next_of_tokens_succ hsecond
      obtain ⟨rfl, rfl⟩ := List.cons.inj hgiven
      show Agree _ (next first) (next second)
      rw [hnext, hnext']
      exact .ok token (ih hrest hrest')

/-- Streams that give the same tokens for ever do so behind the next pull as well. -/
theorem agree_next_of_forall_tokens {first : τ} {second : υ}
    (hsame : ∀ count, tokens count first = tokens count second) :
    Agree (fun rest rest' => ∀ count, tokens count rest = tokens count rest') (next first)
      (next second) := by
  have hone := hsame 1
  cases hnext : next first with
  | error cause =>
      rw [tokens_succ_of_error hnext] at hone
      cases hnext' : next second with
      | error cause' =>
          rw [tokens_succ_of_error hnext'] at hone
          cases hone
          exact .error cause
      | ok pulled' =>
          rw [tokens_succ_of_next hnext'] at hone
          cases hone
  | ok pulled =>
      rw [tokens_succ_of_next hnext] at hone
      cases hnext' : next second with
      | error cause' =>
          rw [tokens_succ_of_error hnext'] at hone
          cases hone
      | ok pulled' =>
          obtain ⟨token, rest⟩ := pulled
          obtain ⟨token', rest'⟩ := pulled'
          rw [tokens_succ_of_next hnext'] at hone
          cases hone
          refine .ok token fun count => ?_
          have hmore := hsame (count + 1)
          rw [tokens_succ_of_next hnext, tokens_succ_of_next hnext'] at hmore
          exact eq_of_map_cons_eq hmore

/-- Streams that give the same tokens for ever agree for ever. -/
theorem agreeFor_of_forall_tokens {first : τ} {second : υ}
    (hsame : ∀ count, tokens count first = tokens count second) (count : Nat) :
    AgreeFor count first second := by
  induction count generalizing first second with
  | zero => exact trivial
  | succ count ih => exact (agree_next_of_forall_tokens hsame).imp fun _ _ hrest => ih hrest

end TokenStream

namespace Parse

/-- Both computations were abandoned for the same cause, or came to related results. -/
inductive Concur {α β : Type} (related : α → β → Prop) : Except Halt α → Except Halt β → Prop
  | error (cause : Halt) : Concur related (.error cause) (.error cause)
  | ok {first : α} {second : β} (hrelated : related first second) :
      Concur related (.ok first) (.ok second)

variable {τ υ σ ε κ : Type} {related : Nat → τ → υ → Prop} {count : Nat}

/-! ## Parsers side by side -/

namespace Parser

/-- The same lookahead and state, over related streams. -/
structure Beside (related : Nat → τ → υ → Prop) (count : Nat) (first : Parser τ σ)
    (second : Parser υ σ) : Prop where
  lookahead : first.lookahead = second.lookahead
  state : first.state = second.state
  streams : related count first.stream second.stream

variable [TokenStream τ] [TokenStream υ] {first : Parser τ σ} {second : Parser υ σ}

theorem beside_ofStream (hkeeps : TokenStream.Keeps related) {left : τ} {right : υ}
    (hstreams : related (count + 1) left right) (state : σ) :
    Concur (Beside related count) (ofStream left state) (ofStream right state) := by
  have hnext := hkeeps hstreams
  unfold ofStream
  generalize TokenStream.next left = pulled at hnext
  generalize TokenStream.next right = pulled' at hnext
  cases hnext with
  | error cause => exact .error cause
  | ok token hrest => exact .ok ⟨rfl, rfl, hrest⟩

theorem Beside.advance (hkeeps : TokenStream.Keeps related)
    (hbeside : first.Beside related (count + 1) second) :
    Agree (Beside related count) first.advance second.advance := by
  have hnext := hkeeps hbeside.streams
  unfold Parser.advance
  generalize TokenStream.next first.stream = pulled at hnext
  generalize TokenStream.next second.stream = pulled' at hnext
  cases hnext with
  | error cause => exact .error cause
  | ok token hrest =>
      dsimp only
      rw [hbeside.lookahead]
      exact .ok _ ⟨rfl, hbeside.state, hrest⟩

/-- The tokens that asking for a kind consumes. -/
def expected (parser : Parser τ σ) (kind : Kind) : List Token :=
  if parser.lookahead.kind = kind then [parser.lookahead] else []

theorem Beside.expect (hkeeps : TokenStream.Keeps related) {kind : Kind}
    (hbeside : first.Beside related (count + (first.expected kind).length) second) :
    Agree (Beside related count) (first.expect kind) (second.expect kind) := by
  unfold Parser.expect
  rw [← hbeside.lookahead]
  by_cases hkind : first.lookahead.kind = kind
  · simp only [expected, hkind, if_true, List.length_singleton] at hbeside ⊢
    have hadvance := hbeside.advance hkeeps
    generalize first.advance = advanced at hadvance
    generalize second.advance = advanced' at hadvance
    cases hadvance with
    | error cause => exact .error cause
    | ok token hafter => exact .ok true hafter
  · simp only [expected, hkind, if_false] at hbeside ⊢
    exact .ok false hbeside

end Parser

/-! ## Machines side by side -/

namespace Machine

/-- The same task and frames, and parsers beside each other. -/
structure Beside (related : Nat → τ → υ → Prop) (count : Nat) (first : Machine τ σ ε κ)
    (second : Machine υ σ ε κ) : Prop where
  control : first.control = second.control
  frames : first.frames = second.frames
  parser : first.parser.Beside related count second.parser

variable {grammar : Grammar σ ε κ} {first : Machine τ σ ε κ} {second : Machine υ σ ε κ}

theorem Beside.event?_eq (hbeside : first.Beside related count second) (grammar : Grammar σ ε κ) :
    event? grammar first = event? grammar second := by
  unfold event?
  rw [hbeside.control, hbeside.parser.lookahead, hbeside.parser.state]

theorem beside_dispatch {parser : Parser τ σ} {parser' : Parser υ σ}
    (hbeside : parser.Beside related count parser') (routine : Option (Token → κ)) (token : Token)
    (inner outer : List (Frame ε κ)) :
    (dispatch grammar routine token inner outer parser).Beside related count
      (dispatch grammar routine token inner outer parser') := by
  cases routine with
  | none =>
      refine ⟨?_, rfl, hbeside⟩
      simp only [dispatch, hbeside.state]
  | some start => exact ⟨rfl, rfl, hbeside⟩

variable [TokenStream τ] [TokenStream υ]

/-- A step that consumes the lookahead and hands it to its routine. -/
private theorem concur_dispatch (hkeeps : TokenStream.Keeps related) {parser : Parser τ σ}
    {parser' : Parser υ σ} (hbeside : parser.Beside related (count + 1) parser')
    (routine : σ → Kind → Option (Token → κ)) (inner outer : List (Frame ε κ)) :
    Concur (Beside related count)
      (match parser.advance with
        | .error cause => .error cause
        | .ok (token, parser) =>
          .ok (dispatch grammar (routine parser.state token.kind) token inner outer parser))
      (match parser'.advance with
        | .error cause => .error cause
        | .ok (token, parser) =>
          .ok (dispatch grammar (routine parser.state token.kind) token inner outer parser)) := by
  have hadvance := hbeside.advance hkeeps
  generalize parser.advance = advanced at hadvance
  generalize parser'.advance = advanced' at hadvance
  cases hadvance with
  | error cause => exact .error cause
  | ok token hafter =>
      dsimp only
      rw [hafter.state]
      exact .ok (beside_dispatch hafter _ token inner outer)

private theorem concur_serve (hkeeps : TokenStream.Keeps related) (request : Request σ ε κ)
    (frames : List (Frame ε κ)) {parser : Parser τ σ} {parser' : Parser υ σ}
    (hbeside : parser.Beside related
      (count + (request.event? parser.lookahead).toList.length) parser') :
    Concur (Beside related count) (serve request frames parser) (serve request frames parser') := by
  cases request with
  | finish chaining => exact .ok ⟨rfl, rfl, hbeside⟩
  | fail error => exact .ok ⟨rfl, rfl, hbeside⟩
  | peek resume =>
      refine .ok ⟨?_, rfl, hbeside⟩
      rw [hbeside.lookahead]
  | advance resume =>
      have hadvance := hbeside.advance hkeeps
      simp only [serve]
      generalize parser.advance = advanced at hadvance
      generalize parser'.advance = advanced' at hadvance
      cases hadvance with
      | error cause => exact .error cause
      | ok token hafter => exact .ok ⟨rfl, rfl, hafter⟩
  | expect kind resume =>
      have hlength : ((Request.expect kind resume : Request σ ε κ).event?
          parser.lookahead).toList.length = (parser.expected kind).length := by
        simp only [Request.event?, Parser.expected]
        split <;> rfl
      rw [hlength] at hbeside
      have hexpect := hbeside.expect hkeeps
      simp only [serve]
      generalize parser.expect kind = expected at hexpect
      generalize parser'.expect kind = expected' at hexpect
      cases hexpect with
      | error cause => exact .error cause
      | ok matched hafter => exact .ok ⟨rfl, rfl, hafter⟩
  | consult act =>
      obtain ⟨stream, lookahead, state⟩ := parser
      obtain ⟨stream', lookahead', state'⟩ := parser'
      obtain ⟨rfl, rfl, hstreams⟩ := hbeside
      exact .ok ⟨rfl, rfl, rfl, rfl, hstreams⟩
  | expression bound resume => exact .ok ⟨rfl, rfl, hbeside⟩
  | statement resume => exact .ok ⟨rfl, rfl, hbeside⟩
  | statements accept resume => exact .ok ⟨rfl, rfl, hbeside⟩

/-- Machines beside each other take the same step, and if it has an event, one pull is used up. -/
theorem concur_step (hkeeps : TokenStream.Keeps related)
    (hbeside : first.Beside related (count + (event? grammar first).toList.length) second) :
    Concur (Beside related count) (step grammar first) (step grammar second) := by
  obtain ⟨task, frames, parser⟩ := first
  obtain ⟨task', frames', parser'⟩ := second
  obtain ⟨rfl, rfl, hparser⟩ := hbeside
  dsimp only at hparser
  cases task with
  | routine control => exact concur_serve hkeeps (grammar.request control) frames hparser
  | expression bound =>
      exact concur_dispatch hkeeps hparser grammar.prefixRoutine (.operand bound :: frames) frames
  | operators bound =>
      unfold event? at hparser
      unfold step
      dsimp only at hparser ⊢
      rw [← hparser.state, ← hparser.lookahead]
      by_cases hbound : grammar.precedence parser.state parser.lookahead.kind ≤ bound
      · simp only [hbound, if_true] at hparser ⊢
        exact .ok ⟨rfl, rfl, hparser⟩
      · simp only [hbound, if_false] at hparser ⊢
        exact concur_dispatch hkeeps hparser grammar.infixRoutine _ frames
  | statement => exact concur_dispatch hkeeps hparser grammar.statementRoutine frames frames
  | statements accept asked =>
      unfold step
      dsimp only
      rw [← hparser.lookahead]
      by_cases haccept : accept asked parser.lookahead.kind
      · simp only [haccept, if_true]
        exact .ok ⟨rfl, rfl, hparser⟩
      · simp only [haccept]
        exact .ok ⟨rfl, rfl, hparser⟩
  | answer result asked =>
      cases frames with
      | nil => exact .ok ⟨rfl, rfl, hparser⟩
      | cons frame frames => exact .ok ⟨rfl, rfl, hparser⟩

/-- The tokens that the engine consumes in the next `fuel` steps.  A token counts also if the stream
is abandoned while it is consumed. -/
def consumed (grammar : Grammar σ ε κ) : (fuel : Nat) → Machine τ σ ε κ → List Token
  | 0, _ => []
  | fuel + 1, machine =>
    (event? grammar machine).toList.map Event.token ++
      match step grammar machine with
      | .error _ => []
      | .ok next => consumed grammar fuel next

/-- The same outcome, and parsers beside each other. -/
def SameOutcome (related : Nat → τ → υ → Prop) (count : Nat)
    (first : Answer ε × List Kind × Parser τ σ) (second : Answer ε × List Kind × Parser υ σ) :
    Prop :=
  first.1 = second.1 ∧ first.2.1 = second.2.1 ∧ first.2.2.Beside related count second.2.2

theorem concur_run (hkeeps : TokenStream.Keeps related) {fuel : Nat}
    (hbeside : first.Beside related (count + (consumed grammar fuel first).length) second) :
    consumed grammar fuel second = consumed grammar fuel first ∧
      Concur (SameOutcome related count) (run grammar fuel first) (run grammar fuel second) := by
  induction fuel generalizing first second with
  | zero =>
      obtain ⟨task, frames, parser⟩ := first
      obtain ⟨task', frames', parser'⟩ := second
      obtain ⟨rfl, rfl, hparser⟩ := hbeside
      refine ⟨rfl, ?_⟩
      cases task with
      | answer result asked =>
          cases frames with
          | nil => exact .ok ⟨rfl, rfl, hparser⟩
          | cons frame frames => exact .error .outOfFuel
      | _ => exact .error .outOfFuel
  | succ fuel ih =>
      have hevent := hbeside.event?_eq grammar
      simp only [consumed, List.length_append, List.length_map] at hbeside ⊢
      -- The pull of this step is the first to be used up, so it comes last in the number.
      rw [Nat.add_comm (event? grammar first).toList.length, ← Nat.add_assoc] at hbeside
      have hstep := concur_step hkeeps hbeside
      rw [← hevent]
      generalize hleft : step grammar first = left at hstep hbeside ⊢
      generalize hright : step grammar second = right at hstep ⊢
      cases hstep with
      | error cause =>
          rw [run_succ_of_error hleft, run_succ_of_error hright]
          exact ⟨rfl, .error cause⟩
      | ok hnext =>
          obtain ⟨hconsumed, hrun⟩ := ih hnext
          rw [run_succ_of_step hleft, run_succ_of_step hright]
          exact ⟨congrArg _ hconsumed, hrun⟩

theorem consumed_answer (fuel : Nat) (result : Answer ε) (asked : List Kind) (parser : Parser τ σ) :
    consumed grammar fuel ⟨.answer result asked, [], parser⟩ = [] := by
  induction fuel with
  | zero => rfl
  | succ fuel ih => exact ih

/-- A run that comes to an answer has consumed just these tokens. -/
theorem reaches_of_run_consumed {fuel : Nat} {machine : Machine τ σ ε κ} {result : Answer ε}
    {asked : List Kind} {after : Parser τ σ}
    (hrun : run grammar fuel machine = .ok (result, asked, after)) :
    ∃ history, history.map Event.token = consumed grammar fuel machine ∧
      Reaches grammar machine history ⟨.answer result asked, [], after⟩ := by
  fun_induction run grammar fuel machine with
  | case1 fuel result asked parser =>
      cases hrun
      exact ⟨[], (consumed_answer fuel result asked after).symm, .start⟩
  | case2 => cases hrun
  | case3 => cases hrun
  | case4 fuel machine hanswer next hstep ih =>
      obtain ⟨history, hhistory, hreaches⟩ := ih hrun
      refine ⟨(event? grammar machine).toList ++ history, ?_, (Reaches.one hstep).trans hreaches⟩
      rw [List.map_append, hhistory]
      simp only [consumed, hstep]

end Machine

/-! ## Operations on a parser -/

/-- What a parser, or the author's state in it, is used for between two routines. -/
inductive Operation (σ : Type)
  /-- Look at the lookahead. -/
  | peek
  /-- Ask whether the lookahead ends the stream. -/
  | atEnd
  | advance
  | expect (kind : Kind)
  /-- Change the author's state. -/
  | consult (act : σ → σ)
  /-- Parse an expression, a statement or statements. -/
  | perform (task : Task)

/-- What an operation returns. -/
inductive Response (ε : Type)
  | token (token : Token)
  | truth (value : Bool)
  | nothing
  | outcome (result : Except ε Unit) (asked : List Kind)

/-- What an operation returns, and what is seen of the parser behind it. -/
structure Report (σ ε : Type) where
  response : Response ε
  lookahead : Token
  state : σ

namespace Parser

section Operations

variable [TokenStream τ]

/-- Carries out an operation; the engine may take `fuel` steps for it. -/
def operate (parser : Parser τ σ) (grammar : Grammar σ ε κ) (fuel : Nat) :
    Operation σ → Except Halt (Response ε × Parser τ σ)
  | .peek => .ok (.token parser.lookahead, parser)
  | .atEnd => .ok (.truth parser.atEnd, parser)
  | .advance => parser.advance.map fun (token, after) => (.token token, after)
  | .expect kind => (parser.expect kind).map fun (matched, after) => (.truth matched, after)
  | .consult act => .ok (.nothing, parser.input.withState (act parser.state))
  | .perform task =>
    (parser.perform grammar fuel task.control).map fun (result, asked, after) =>
      (.outcome result asked, after)

/-- Carries out operations one after the other. -/
def conduct (grammar : Grammar σ ε κ) (fuel : Nat) :
    List (Operation σ) → Parser τ σ → Except Halt (List (Report σ ε) × Parser τ σ)
  | [], parser => .ok ([], parser)
  | operation :: rest, parser => do
    let (response, after) ← parser.operate grammar fuel operation
    let (reports, last) ← conduct grammar fuel rest after
    return (⟨response, after.lookahead, after.state⟩ :: reports, last)

/-- The tokens that an operation consumes. -/
def spent (parser : Parser τ σ) (grammar : Grammar σ ε κ) (fuel : Nat) : Operation σ → List Token
  | .peek => []
  | .atEnd => []
  | .advance => [parser.lookahead]
  | .expect kind => parser.expected kind
  | .consult _ => []
  | .perform task => Machine.consumed grammar fuel ⟨task.control, [], parser⟩

/-- The tokens that operations consume, up to the one in which the stream or the engine is
abandoned, if there is one. -/
def spentOn (grammar : Grammar σ ε κ) (fuel : Nat) : List (Operation σ) → Parser τ σ → List Token
  | [], _ => []
  | operation :: rest, parser =>
    parser.spent grammar fuel operation ++
      match parser.operate grammar fuel operation with
      | .error _ => []
      | .ok (_, after) => spentOn grammar fuel rest after

variable {grammar : Grammar σ ε κ} {fuel : Nat} {first parser after : Parser τ σ}
  {consumed : List Token}

theorem perform_eq_map (parser : Parser τ σ) (grammar : Grammar σ ε κ) (fuel : Nat)
    (task : Control ε κ) :
    parser.perform grammar fuel task =
      (Machine.run grammar fuel ⟨task, [], parser⟩).map fun (answer, asked, after) =>
        (answer.map fun _ => (), asked, after) := by
  unfold perform
  cases Machine.run grammar fuel ⟨task, [], parser⟩ <;> rfl

theorem Session.expect {kind : Kind} {matched : Bool}
    (hsession : Session grammar first consumed parser)
    (hexpect : parser.expect kind = .ok (matched, after)) :
    Session grammar first (consumed ++ parser.expected kind) after := by
  by_cases hkind : parser.lookahead.kind = kind
  · have hmatched : matched = true := by
      rw [Parser.expect, if_pos hkind] at hexpect
      split at hexpect
      · cases hexpect
      · cases hexpect
        rfl
    subst hmatched
    rw [expected, if_pos hkind]
    exact hsession.matched hexpect
  · have hsame : parser.expect kind = .ok (false, parser) := if_neg hkind
    rw [hsame] at hexpect
    cases hexpect
    rw [expected, if_neg hkind, List.append_nil]
    exact hsession

theorem Session.operate {operation : Operation σ} {response : Response ε}
    (hsession : Session grammar first consumed parser)
    (hoperate : parser.operate grammar fuel operation = .ok (response, after)) :
    Session grammar first (consumed ++ parser.spent grammar fuel operation) after := by
  cases operation with
  | peek =>
      cases hoperate
      rw [spent, List.append_nil]
      exact hsession
  | atEnd =>
      cases hoperate
      rw [spent, List.append_nil]
      exact hsession
  | advance =>
      obtain ⟨⟨token, rest⟩, hadvance, hresult⟩ := exists_of_map_eq_ok hoperate
      cases hresult
      rw [spent, ← eq_lookahead_of_advance hadvance]
      exact hsession.advance hadvance
  | expect kind =>
      obtain ⟨⟨matched, rest⟩, hexpect, hresult⟩ := exists_of_map_eq_ok hoperate
      cases hresult
      exact hsession.expect hexpect
  | consult act =>
      cases hoperate
      rw [spent, List.append_nil]
      exact hsession.consult _
  | perform task =>
      obtain ⟨⟨result, asked, rest⟩, hperform, hresult⟩ := exists_of_map_eq_ok hoperate
      cases hresult
      rw [perform_eq_map] at hperform
      obtain ⟨⟨answer, kinds, behind⟩, hrun, houtcome⟩ := exists_of_map_eq_ok hperform
      cases houtcome
      obtain ⟨history, hhistory, hreaches⟩ := Machine.reaches_of_run_consumed hrun
      rw [spent, ← hhistory]
      exact hsession.engage task hreaches

/-- Operations that are all carried out make up a session that consumes just these tokens. -/
theorem Session.conduct {operations : List (Operation σ)} {reports : List (Report σ ε)}
    (hsession : Session grammar first consumed parser)
    (hconduct : parser.conduct grammar fuel operations = .ok (reports, after)) :
    Session grammar first (consumed ++ parser.spentOn grammar fuel operations) after := by
  induction operations generalizing consumed parser reports with
  | nil =>
      cases hconduct
      rw [spentOn, List.append_nil]
      exact hsession
  | cons operation operations ih =>
      obtain ⟨⟨response, middle⟩, hoperate, hrest⟩ := exists_of_bind_eq_ok hconduct
      obtain ⟨⟨later, last⟩, hlater, hresult⟩ := exists_of_bind_eq_ok hrest
      cases hresult
      rw [spentOn, hoperate, ← List.append_assoc]
      exact ih (hsession.operate hoperate) hlater

end Operations

variable [TokenStream τ] [TokenStream υ] {grammar : Grammar σ ε κ} {fuel : Nat}
  {first : Parser τ σ} {second : Parser υ σ}

theorem Beside.perform (hkeeps : TokenStream.Keeps related) {task : Control ε κ}
    (hbeside : first.Beside related
      (count + (Machine.consumed grammar fuel ⟨task, [], first⟩).length) second) :
    Machine.consumed grammar fuel ⟨task, [], second⟩ =
        Machine.consumed grammar fuel ⟨task, [], first⟩ ∧
      Agree (Beside related count)
        ((first.perform grammar fuel task).map fun (result, asked, after) =>
          (Response.outcome result asked, after))
        ((second.perform grammar fuel task).map fun (result, asked, after) =>
          (Response.outcome result asked, after)) := by
  have hmachines : Machine.Beside related
      (count + (Machine.consumed grammar fuel ⟨task, [], first⟩).length) ⟨task, [], first⟩
      ⟨task, [], second⟩ := ⟨rfl, rfl, hbeside⟩
  obtain ⟨hconsumed, hrun⟩ := Machine.concur_run hkeeps hmachines
  refine ⟨hconsumed, ?_⟩
  rw [perform_eq_map, perform_eq_map]
  generalize Machine.run grammar fuel ⟨task, [], first⟩ = left at hrun
  generalize Machine.run grammar fuel ⟨task, [], second⟩ = right at hrun
  cases hrun with
  | error cause => exact .error cause
  | @ok left right hsame =>
      obtain ⟨answer, asked, after⟩ := left
      obtain ⟨answer', asked', after'⟩ := right
      obtain ⟨rfl, rfl, hafter⟩ := hsame
      exact .ok _ hafter

theorem Beside.operate (hkeeps : TokenStream.Keeps related) {operation : Operation σ}
    (hbeside : first.Beside related (count + (first.spent grammar fuel operation).length) second) :
    second.spent grammar fuel operation = first.spent grammar fuel operation ∧
      Agree (Beside related count) (first.operate grammar fuel operation)
        (second.operate grammar fuel operation) := by
  cases operation with
  | peek =>
      refine ⟨rfl, ?_⟩
      rw [Parser.operate, Parser.operate, hbeside.lookahead]
      exact .ok _ hbeside
  | atEnd =>
      refine ⟨rfl, ?_⟩
      rw [Parser.operate, Parser.operate, atEnd, atEnd, hbeside.lookahead]
      exact .ok _ hbeside
  | advance =>
      rw [spent, spent, hbeside.lookahead]
      exact ⟨rfl, (hbeside.advance hkeeps).map _⟩
  | expect kind =>
      rw [spent, spent, expected, expected, hbeside.lookahead]
      exact ⟨rfl, (hbeside.expect hkeeps).map _⟩
  | consult act =>
      exact ⟨rfl, .ok _ ⟨hbeside.lookahead, congrArg act hbeside.state, hbeside.streams⟩⟩
  | perform task => exact hbeside.perform hkeeps

/-- Parsers beside each other report the same on the same operations, for which they consume the
same tokens. -/
theorem Beside.conduct (hkeeps : TokenStream.Keeps related) {operations : List (Operation σ)}
    (hbeside : first.Beside related (count + (first.spentOn grammar fuel operations).length)
      second) :
    second.spentOn grammar fuel operations = first.spentOn grammar fuel operations ∧
      Agree (Beside related count) (first.conduct grammar fuel operations)
        (second.conduct grammar fuel operations) := by
  induction operations generalizing first second with
  | nil => exact ⟨rfl, .ok [] hbeside⟩
  | cons operation operations ih =>
      simp only [spentOn, List.length_append] at hbeside ⊢
      rw [Nat.add_comm (first.spent grammar fuel operation).length, ← Nat.add_assoc] at hbeside
      obtain ⟨hspent, hoperate⟩ := hbeside.operate hkeeps
      rw [hspent]
      unfold Parser.conduct
      generalize first.operate grammar fuel operation = left at hoperate hbeside ⊢
      generalize second.operate grammar fuel operation = right at hoperate ⊢
      cases hoperate with
      | error cause => exact ⟨rfl, .error cause⟩
      | @ok response left right hafter =>
          obtain ⟨hlater, hconduct⟩ := ih hafter
          refine ⟨congrArg _ hlater, hconduct.bind ?_⟩
          intro reports behind behind' hbehind
          dsimp only at hafter
          rw [hafter.lookahead, hafter.state]
          exact .ok _ hbehind

/-- What is seen of two parsers is the same. -/
structure LooksLike (first : Parser τ σ) (second : Parser υ σ) : Prop where
  lookahead : first.lookahead = second.lookahead
  state : first.state = second.state

omit [TokenStream τ] [TokenStream υ] in
theorem Beside.looksLike (hbeside : first.Beside related count second) : first.LooksLike second :=
  ⟨hbeside.lookahead, hbeside.state⟩

/-- Parsers that begin on streams related for ever report the same on the same operations. -/
theorem agree_conduct_ofStream (hkeeps : TokenStream.Keeps related) {left : τ} {right : υ}
    (hstreams : ∀ count, related count left right) (grammar : Grammar σ ε κ) (fuel : Nat)
    (operations : List (Operation σ)) (state : σ) (count : Nat) :
    Agree (Beside related count)
      (ofStream left state >>= fun parser => parser.conduct grammar fuel operations)
      (ofStream right state >>= fun parser => parser.conduct grammar fuel operations) := by
  cases hleft : ofStream left state with
  | error cause =>
      have hbegin := beside_ofStream hkeeps (hstreams 1) state
      rw [hleft] at hbegin
      generalize ofStream right state = begun at hbegin ⊢
      cases hbegin
      exact .error cause
  | ok parser =>
      -- How many pulls have to agree is known only when the first parser has been followed.
      have hbegin := beside_ofStream hkeeps
        (hstreams (count + (parser.spentOn grammar fuel operations).length + 1)) state
      rw [hleft] at hbegin
      generalize ofStream right state = begun at hbegin ⊢
      cases hbegin with
      | ok hbeside => exact (hbeside.conduct hkeeps).2

/-- **Parsing is local.**  Of two streams that begin with the same tokens, operations that consume
fewer tokens than these on the first one consume the same tokens on the second one, and have the
same results.  If the streams give the same tokens for ever, all operations have. -/
theorem conduct_local (grammar : Grammar σ ε κ) (fuel : Nat) (operations : List (Operation σ))
    (state : σ) (first : τ) (second : υ) :
    (∀ (bound : Nat) (shared : List Token), TokenStream.tokens (bound + 1) first = .ok shared →
      TokenStream.tokens (bound + 1) second = .ok shared →
      ∃ parser parser', ofStream first state = .ok parser ∧ ofStream second state = .ok parser' ∧
        parser.LooksLike parser' ∧
        ((parser.spentOn grammar fuel operations).length ≤ bound →
          parser'.spentOn grammar fuel operations = parser.spentOn grammar fuel operations ∧
          Agree LooksLike (parser.conduct grammar fuel operations)
            (parser'.conduct grammar fuel operations) ∧
          (∀ reports after, parser.conduct grammar fuel operations = .ok (reports, after) →
            Session grammar parser (parser.spentOn grammar fuel operations) after) ∧
          ∀ reports after', parser'.conduct grammar fuel operations = .ok (reports, after') →
            Session grammar parser' (parser.spentOn grammar fuel operations) after')) ∧
    ((∀ count, TokenStream.tokens count first = TokenStream.tokens count second) →
      Agree LooksLike
        (ofStream first state >>= fun parser => parser.conduct grammar fuel operations)
        (ofStream second state >>= fun parser => parser.conduct grammar fuel operations)) := by
  refine ⟨?_, ?_⟩
  · intro bound shared hfirst hsecond
    have hbegin := beside_ofStream TokenStream.keeps_agreeFor
      (TokenStream.agreeFor_of_tokens hfirst hsecond) state
    obtain ⟨token, rest, -, hnext, -⟩ := TokenStream.next_of_tokens_succ hfirst
    have hleft : ofStream first state = .ok ⟨rest, token, state⟩ := by
      simp only [ofStream, hnext]
    rw [hleft] at hbegin ⊢
    generalize ofStream second state = begun at hbegin ⊢
    cases hbegin with
    | @ok _ parser' hbeside =>
        refine ⟨_, parser', rfl, rfl, hbeside.looksLike, ?_⟩
        intro hle
        rw [← Nat.sub_add_cancel hle] at hbeside
        obtain ⟨hspent, hconduct⟩ := hbeside.conduct TokenStream.keeps_agreeFor
        refine ⟨hspent, hconduct.imp fun _ _ => Beside.looksLike, ?_, ?_⟩
        · intro reports after hreports
          exact Session.start.conduct hreports
        · intro reports after' hreports
          rw [← hspent]
          exact Session.start.conduct hreports
  · intro hsame
    exact (agree_conduct_ofStream TokenStream.keeps_agreeFor
      (TokenStream.agreeFor_of_forall_tokens hsame) grammar fuel operations state 0).imp
      fun _ _ => Beside.looksLike

end Parser

/-! ## Sums that go on differently -/

namespace Sums

open Scan (Rule Scanner)

def rules : List Rule :=
  [.branch (.takesChar '+') [.result plus]
    [.branch .atEnd [.result .endOfInput] [.advance, .result number]]]

/-- A sum and a further number. -/
def scanner : Scanner TextCursor (List Rule) :=
  .ofCursor (.ofText "1+23") (Rule.program rules) 10 "name"

def shared : List Token :=
  [⟨number, "1", ⟨⟨0, 1, 1⟩, "name"⟩⟩, ⟨plus, "+", ⟨⟨1, 1, 2⟩, "name"⟩⟩,
    ⟨number, "2", ⟨⟨2, 1, 3⟩, "name"⟩⟩, ⟨number, "3", ⟨⟨3, 1, 4⟩, "name"⟩⟩]

/-- The same tokens, and then a further operator. -/
def longer : Recording :=
  .ofTokens (shared ++ [token plus 5])

def operations : List (Operation Nat) :=
  [.peek, .perform (.expression 0), .expect plus, .consult (· + 5)]

end Sums

theorem Parser.conduct_local_sums :
    TokenStream.tokens 4 Sums.longer = .ok Sums.shared ∧
      TokenStream.tokens 4 Sums.scanner = .ok Sums.shared ∧
      ∃ parser parser', Parser.ofStream Sums.longer 0 = .ok parser ∧
        Parser.ofStream Sums.scanner 0 = .ok parser' ∧
        parser.spentOn Sums.grammar 20 Sums.operations = Sums.shared.take 3 ∧
        Agree LooksLike (parser.conduct Sums.grammar 20 Sums.operations)
          (parser'.conduct Sums.grammar 20 Sums.operations) := by
  have hfirst : TokenStream.tokens 4 Sums.longer = .ok Sums.shared := rfl
  have hsecond : TokenStream.tokens 4 Sums.scanner = .ok Sums.shared := rfl
  obtain ⟨parser, parser', hparser, hparser', -, hlocal⟩ :=
    (Parser.conduct_local Sums.grammar 20 Sums.operations 0 Sums.longer Sums.scanner).1 3
      Sums.shared hfirst hsecond
  have hspent : parser.spentOn Sums.grammar 20 Sums.operations = Sums.shared.take 3 := by
    cases hparser
    rfl
  have hle : (parser.spentOn Sums.grammar 20 Sums.operations).length ≤ 3 := by
    rw [hspent]
    decide
  exact ⟨hfirst, hsecond, parser, parser', hparser, hparser', hspent, (hlocal hle).2.1⟩

end Parse

end FrontEnd
