import FrontEnd.Proofs.Parse.Consumption
import FrontEnd.Proofs.Parse.Evaluation

/-!
# The course of a parse

While the engine runs, tokens are consumed in three ways: a routine takes one, the engine hands one
to its routine, or the engine finds that it has no routine in this place.  `Machine.event?` says
which of these the next step does, and `Machine.Reaches` gathers the events up to any moment of a
run, whether the run ever comes to an answer or not.

All that a step can do is said once, in `Machine.Moves`: what is proved of whole runs is proved by
induction over `Reaches` and a case for each way to move.
-/

namespace FrontEnd.Parse

/-- What becomes of a token that is consumed. -/
inductive Event
  /-- A routine consumed it. -/
  | taken (token : Token)
  /-- The engine consumed it and started its routine. -/
  | started (token : Token)
  /-- The engine consumed it and found no routine for it. -/
  | refused (token : Token)
deriving DecidableEq

def Event.token : Event → Token
  | taken token => token
  | started token => token
  | refused token => token

/-- What the engine is asked to do, by a routine or from outside. -/
inductive Task
  | expression (bound : Precedence)
  | statement
  | statements (accept : Acceptance)

def Task.control {ε κ : Type} : Task → Control ε κ
  | expression bound => .expression bound
  | statement => .statement
  | statements accept => .statements accept []

/-- The task that a request gives to the engine, and how the routine goes on with the answer. -/
def Request.call? {σ ε κ : Type} :
    Request σ ε κ → Option (Task × (Except ε Unit → List Kind → κ))
  | .expression bound resume => some (.expression bound, fun result _ => resume result)
  | .statement resume => some (.statement, fun result _ => resume result)
  | .statements accept resume => some (.statements accept, resume)
  | _ => none

/-- The event of a routine's request when `token` is the lookahead, `none` if nothing is
consumed. -/
def Request.event? {σ ε κ : Type} (request : Request σ ε κ) (token : Token) : Option Event :=
  match request with
  | .advance _ => some (.taken token)
  | .expect kind _ => if token.kind = kind then some (.taken token) else none
  | _ => none

/-- `start` is the routine for a kind, in one of the three places where a token can stand. -/
def Grammar.Offers {σ ε κ : Type} (grammar : Grammar σ ε κ) (state : σ) (kind : Kind)
    (start : Token → κ) : Prop :=
  grammar.prefixRoutine state kind = some start ∨ grammar.infixRoutine state kind = some start ∨
    grammar.statementRoutine state kind = some start

namespace Machine

variable {τ σ ε κ : Type} {grammar : Grammar σ ε κ}

/-! ## Steps -/

/-- What becomes of a token that is handed to a routine, if there is one. -/
def dispatched (routine : Option (Token → κ)) (token : Token) : Event :=
  if routine.isSome then .started token else .refused token

/-- The event of the next step, `none` if nothing is consumed. -/
def event? (grammar : Grammar σ ε κ) (machine : Machine τ σ ε κ) : Option Event :=
  let token := machine.parser.lookahead
  let state := machine.parser.state
  match machine.control with
  | .routine control => (grammar.request control).event? token
  | .expression _ => some (dispatched (grammar.prefixRoutine state token.kind) token)
  | .operators bound =>
    if grammar.precedence state token.kind ≤ bound then none
    else some (dispatched (grammar.infixRoutine state token.kind) token)
  | .statement => some (dispatched (grammar.statementRoutine state token.kind) token)
  | .statements _ _ => none
  | .answer _ _ => none

variable [TokenStream τ]

/-- What a step can do, and its event. -/
inductive Moves (grammar : Grammar σ ε κ) :
    Machine τ σ ε κ → Option Event → Machine τ σ ε κ → Prop
  | peek {control : κ} {frames : List (Frame ε κ)} {parser : Parser τ σ} {resume : Token → κ}
      (hrequest : grammar.request control = .peek resume) :
      Moves grammar ⟨.routine control, frames, parser⟩ none
        ⟨.routine (resume parser.lookahead), frames, parser⟩
  | consult {control : κ} {frames : List (Frame ε κ)} {parser : Parser τ σ} {act : σ → σ × κ}
      (hrequest : grammar.request control = .consult act) :
      Moves grammar ⟨.routine control, frames, parser⟩ none
        ⟨.routine (act parser.state).2, frames, parser.input.withState (act parser.state).1⟩
  | unmatched {control : κ} {frames : List (Frame ε κ)} {parser : Parser τ σ} {kind : Kind}
      {resume : Bool → κ} (hrequest : grammar.request control = .expect kind resume) :
      Moves grammar ⟨.routine control, frames, parser⟩ none
        ⟨.routine (resume false), frames, parser⟩
  | matched {control : κ} {frames : List (Frame ε κ)} {parser after : Parser τ σ} {kind : Kind}
      {resume : Bool → κ} {token : Token}
      (hrequest : grammar.request control = .expect kind resume)
      (hadvance : parser.advance = .ok (token, after)) :
      Moves grammar ⟨.routine control, frames, parser⟩ (some (.taken token))
        ⟨.routine (resume true), frames, after⟩
  | advance {control : κ} {frames : List (Frame ε κ)} {parser after : Parser τ σ}
      {resume : Token → κ} {token : Token} (hrequest : grammar.request control = .advance resume)
      (hadvance : parser.advance = .ok (token, after)) :
      Moves grammar ⟨.routine control, frames, parser⟩ (some (.taken token))
        ⟨.routine (resume token), frames, after⟩
  | finish {control : κ} {frames : List (Frame ε κ)} {parser : Parser τ σ} {chaining : Chaining}
      (hrequest : grammar.request control = .finish chaining) :
      Moves grammar ⟨.routine control, frames, parser⟩ none
        ⟨.answer (.ok chaining) [], frames, parser⟩
  | fail {control : κ} {frames : List (Frame ε κ)} {parser : Parser τ σ} {error : ε}
      (hrequest : grammar.request control = .fail error) :
      Moves grammar ⟨.routine control, frames, parser⟩ none
        ⟨.answer (.error error) [], frames, parser⟩
  | call {control : κ} {frames : List (Frame ε κ)} {parser : Parser τ σ} {task : Task}
      {resume : Except ε Unit → List Kind → κ}
      (hcall : (grammar.request control).call? = some (task, resume)) :
      Moves grammar ⟨.routine control, frames, parser⟩ none
        ⟨task.control, .caller resume :: frames, parser⟩
  | dispatch {task : Control ε κ} {routine : Option (Token → κ)} {inner frames : List (Frame ε κ)}
      {parser after : Parser τ σ} {token : Token}
      (hinner : ∀ resume, .caller resume ∉ inner)
      (hroutine : ∀ start, routine = some start → grammar.Offers parser.state token.kind start)
      (hadvance : parser.advance = .ok (token, after)) :
      Moves grammar ⟨task, frames, parser⟩ (some (dispatched routine token))
        (Machine.dispatch grammar routine token (inner ++ frames) frames after)
  | stop {task : Control ε κ} {frames : List (Frame ε κ)} {parser : Parser τ σ}
      {asked : List Kind} :
      Moves grammar ⟨task, frames, parser⟩ none ⟨.answer (.ok .allowed) asked, frames, parser⟩
  | accept {accept : Acceptance} {asked asked' : List Kind} {frames : List (Frame ε κ)}
      {parser : Parser τ σ} :
      Moves grammar ⟨.statements accept asked, frames, parser⟩ none
        ⟨.statement, .statements accept asked' :: frames, parser⟩
  | deliver {result : Answer ε} {asked : List Kind} {frame : Frame ε κ} {frames : List (Frame ε κ)}
      {parser : Parser τ σ} :
      Moves grammar ⟨.answer result asked, frame :: frames, parser⟩ none
        ⟨Machine.deliver result asked frame, frames, parser⟩
  | idle {result : Answer ε} {asked : List Kind} {parser : Parser τ σ} :
      Moves grammar ⟨.answer result asked, [], parser⟩ none ⟨.answer result asked, [], parser⟩

private theorem moves_of_serve {control : κ} {request : Request σ ε κ} {frames : List (Frame ε κ)}
    {parser : Parser τ σ} {next : Machine τ σ ε κ} (hrequest : grammar.request control = request)
    (hserve : serve request frames parser = .ok next) :
    Moves grammar ⟨.routine control, frames, parser⟩ (request.event? parser.lookahead) next := by
  cases request with
  | finish chaining => cases hserve; exact .finish hrequest
  | fail error => cases hserve; exact .fail hrequest
  | peek resume => cases hserve; exact .peek hrequest
  | advance resume =>
      cases hadvance : parser.advance with
      | error cause => simp [serve, hadvance] at hserve
      | ok advanced =>
          obtain ⟨token, after⟩ := advanced
          have htoken := Parser.eq_lookahead_of_advance hadvance
          simp only [serve, hadvance, Except.ok.injEq] at hserve
          subst hserve htoken
          exact .advance hrequest hadvance
  | expect kind resume =>
      unfold Request.event?
      by_cases hkind : parser.lookahead.kind = kind
      · cases hadvance : parser.advance with
        | error cause => simp [serve, Parser.expect, hkind, hadvance] at hserve
        | ok advanced =>
            obtain ⟨token, after⟩ := advanced
            have htoken := Parser.eq_lookahead_of_advance hadvance
            simp only [serve, Parser.expect, hkind, hadvance, if_true, Except.ok.injEq] at hserve
            subst hserve htoken
            simp only [hkind, if_true]
            exact .matched hrequest hadvance
      · simp only [serve, Parser.expect, hkind, if_false, Except.ok.injEq] at hserve
        subst hserve
        simp only [hkind, if_false]
        exact .unmatched hrequest
  | consult act => cases hserve; exact .consult hrequest
  | expression bound resume =>
      have hcall : (grammar.request control).call? =
          some (.expression bound, fun result _ => resume result) := congrArg Request.call? hrequest
      cases hserve
      exact .call hcall
  | statement resume =>
      have hcall : (grammar.request control).call? =
          some (.statement, fun result _ => resume result) := congrArg Request.call? hrequest
      cases hserve
      exact .call hcall
  | statements accept resume =>
      have hcall : (grammar.request control).call? = some (.statements accept, resume) :=
        congrArg Request.call? hrequest
      cases hserve
      exact .call hcall

/-- A step that consumes a token hands it to the routine that it finds in the state before. -/
private theorem moves_of_dispatch {task : Control ε κ} {routine : σ → Kind → Option (Token → κ)}
    {frames : List (Frame ε κ)} {parser : Parser τ σ} {next : Machine τ σ ε κ}
    (inner : List (Frame ε κ)) (hinner : ∀ resume, .caller resume ∉ inner)
    (hoffers : ∀ state kind start,
      routine state kind = some start → grammar.Offers state kind start)
    (hdispatch : (match parser.advance with
      | .error cause => Except.error cause
      | .ok (token, parser) =>
        .ok (Machine.dispatch grammar (routine parser.state token.kind) token (inner ++ frames) frames
          parser)) = .ok next) :
    Moves grammar ⟨task, frames, parser⟩
      (some (dispatched (routine parser.state parser.lookahead.kind) parser.lookahead)) next := by
  cases hadvance : parser.advance with
  | error cause => simp [hadvance] at hdispatch
  | ok advanced =>
      obtain ⟨token, after⟩ := advanced
      have htoken := Parser.eq_lookahead_of_advance hadvance
      have hstate := (Parser.input_advance_ok hadvance).2
      simp only [hadvance, Except.ok.injEq] at hdispatch
      subst hdispatch htoken
      rw [hstate]
      exact .dispatch hinner (hoffers _ _) hadvance

theorem moves_of_step {machine next : Machine τ σ ε κ} (hstep : step grammar machine = .ok next) :
    Moves grammar machine (event? grammar machine) next := by
  obtain ⟨task, frames, parser⟩ := machine
  cases task with
  | routine control => exact moves_of_serve rfl hstep
  | expression bound =>
      exact moves_of_dispatch [.operand bound] (by simp) (fun _ _ _ => .inl) hstep
  | operators bound =>
      unfold event?
      by_cases hbound : grammar.precedence parser.state parser.lookahead.kind ≤ bound
      · simp only [step, hbound, if_true] at hstep
        cases hstep
        simp only [hbound, if_true]
        exact .stop
      · simp only [step, hbound, if_false] at hstep
        simp only [hbound, if_false]
        exact moves_of_dispatch [.operator bound _] (by simp) (fun _ _ _ h => .inr (.inl h)) hstep
  | statement => exact moves_of_dispatch [] (by simp) (fun _ _ _ h => .inr (.inr h)) hstep
  | statements accept asked =>
      by_cases haccept : accept asked parser.lookahead.kind
      · simp only [step, haccept, if_true] at hstep
        cases hstep
        exact .accept
      · simp only [step, haccept] at hstep
        cases hstep
        exact .stop
  | answer result asked =>
      cases frames with
      | nil => cases hstep; exact .idle
      | cons frame frames => cases hstep; exact .deliver

theorem Moves.consumes {machine next : Machine τ σ ε κ} {event : Option Event}
    (hmoves : Moves grammar machine event next) :
    Parser.Consumes machine.parser.input (event.toList.map Event.token) next.parser.input := by
  cases hmoves with
  | matched hrequest hadvance => exact .one (Parser.input_advance_ok hadvance).1
  | advance hrequest hadvance => exact .one (Parser.input_advance_ok hadvance).1
  | @dispatch task routine inner frames parser after token hinner hroutine hadvance =>
      have hone : Parser.Consumes parser.input [token] after.input :=
        .one (Parser.input_advance_ok hadvance).1
      cases routine with
      | none => exact hone
      | some start => exact hone
  | _ => exact .nothing _

/-- A caller waited already, or the routine that was running is the caller. -/
theorem Moves.caller_mem {machine next : Machine τ σ ε κ} {event : Option Event}
    {resume : Except ε Unit → List Kind → κ} (hmoves : Moves grammar machine event next)
    (hmem : .caller resume ∈ next.frames) :
    .caller resume ∈ machine.frames ∨ ∃ control task,
      machine.control = .routine control ∧
      (grammar.request control).call? = some (task, resume) := by
  cases hmoves with
  | @call control frames parser task resume' hcall =>
      rcases List.mem_cons.mp hmem with heq | hmem
      · cases heq
        exact .inr ⟨control, task, rfl, hcall⟩
      · exact .inl hmem
  | @dispatch task routine inner frames parser after token hinner hroutine hadvance =>
      cases routine with
      | none => exact .inl hmem
      | some start =>
          rcases List.mem_append.mp hmem with hmem | hmem
          · exact absurd hmem (hinner resume)
          · exact .inl hmem
  | accept =>
      rcases List.mem_cons.mp hmem with heq | hmem
      · cases heq
      · exact .inl hmem
  | deliver => exact .inl (List.mem_cons_of_mem _ hmem)
  | _ => exact .inl hmem

/-! ## Runs -/

/-- `Reaches grammar start history machine`: the engine, started at `start`, comes to `machine`,
with the events `history` on the way. -/
inductive Reaches (grammar : Grammar σ ε κ) (start : Machine τ σ ε κ) :
    List Event → Machine τ σ ε κ → Prop
  | start : Reaches grammar start [] start
  | step {history : List Event} {machine next : Machine τ σ ε κ}
      (hreaches : Reaches grammar start history machine) (hstep : step grammar machine = .ok next) :
      Reaches grammar start (history ++ (event? grammar machine).toList) next

namespace Reaches

variable {start middle machine next : Machine τ σ ε κ} {history later : List Event}

theorem one (hstep : Machine.step grammar machine = .ok next) :
    Reaches grammar machine (event? grammar machine).toList next :=
  Reaches.start.step hstep

theorem trans (hfirst : Reaches grammar start history middle)
    (hsecond : Reaches grammar middle later machine) :
    Reaches grammar start (history ++ later) machine := by
  induction hsecond with
  | start =>
      rw [List.append_nil]
      exact hfirst
  | step _ hstep ih =>
      rw [← List.append_assoc]
      exact ih.step hstep

/-- Of the input, exactly the tokens of the history are consumed. -/
theorem consumes (hreaches : Reaches grammar start history machine) :
    Parser.Consumes start.parser.input (history.map Event.token) machine.parser.input := by
  induction hreaches with
  | start => exact .nothing _
  | step _ hstep ih =>
      rw [List.map_append]
      exact ih.trans (moves_of_step hstep).consumes

/-- Whoever waits for an answer has been running before. -/
theorem caller_mem {resume : Except ε Unit → List Kind → κ}
    (hreaches : Reaches grammar start history machine) (hstart : start.frames = [])
    (hmem : .caller resume ∈ machine.frames) :
    ∃ earlier control frames parser task,
      Reaches grammar start earlier ⟨.routine control, frames, parser⟩ ∧
      (grammar.request control).call? = some (task, resume) := by
  induction hreaches with
  | start =>
      rw [hstart] at hmem
      cases hmem
  | @step history machine next hreaches hstep ih =>
      obtain hmem | ⟨control, task, hcontrol, hcall⟩ := (moves_of_step hstep).caller_mem hmem
      · exact ih hmem
      · obtain ⟨_, frames, parser⟩ := machine
        cases hcontrol
        exact ⟨history, control, frames, parser, task, hreaches, hcall⟩

end Reaches

theorem run_succ_of_step {machine next : Machine τ σ ε κ}
    (hstep : step grammar machine = .ok next) (fuel : Nat) :
    run grammar (fuel + 1) machine = run grammar fuel next := by
  obtain ⟨task, frames, parser⟩ := machine
  cases task with
  | answer result asked =>
      cases frames with
      | nil =>
          cases hstep
          rw [run_answer, run_answer]
      | cons frame frames => simp only [run, hstep]
  | _ => simp only [run, hstep]

theorem run_succ_of_error {machine : Machine τ σ ε κ} {cause : Halt}
    (hstep : step grammar machine = .error cause) (fuel : Nat) :
    run grammar (fuel + 1) machine = .error cause := by
  obtain ⟨task, frames, parser⟩ := machine
  cases task with
  | answer result asked => cases frames <;> cases hstep
  | _ => simp only [run, hstep]

/-- A run passes through every moment that is reached, with fuel enough. -/
theorem run_of_reaches {start machine : Machine τ σ ε κ} {history : List Event}
    (hreaches : Reaches grammar start history machine) :
    ∃ cost, ∀ fuel, run grammar (fuel + cost) start = run grammar fuel machine := by
  induction hreaches with
  | start => exact ⟨0, fun _ => rfl⟩
  | step _ hstep ih =>
      obtain ⟨cost, hcost⟩ := ih
      refine ⟨cost + 1, fun fuel => ?_⟩
      rw [Nat.add_comm cost 1, ← Nat.add_assoc, hcost (fuel + 1), run_succ_of_step hstep]

theorem reaches_of_run {fuel : Nat} {start : Machine τ σ ε κ} {result : Answer ε} {asked : List Kind}
    {after : Parser τ σ} (hrun : run grammar fuel start = .ok (result, asked, after)) :
    ∃ history, Reaches grammar start history ⟨.answer result asked, [], after⟩ := by
  fun_induction run grammar fuel start with
  | case1 fuel result asked parser =>
      cases hrun
      exact ⟨[], .start⟩
  | case2 => cases hrun
  | case3 => cases hrun
  | case4 start hanswer fuel next hstep ih =>
      obtain ⟨history, hreaches⟩ := ih hrun
      exact ⟨_, (Reaches.one hstep).trans hreaches⟩

/-- The first step of a run, if there is one. -/
private theorem Reaches.first {start machine : Machine τ σ ε κ} {history : List Event}
    (hreaches : Reaches grammar start history machine) :
    (history = [] ∧ machine = start) ∨
      ∃ next later, Machine.step grammar start = .ok next ∧
        history = (event? grammar start).toList ++ later ∧ Reaches grammar next later machine := by
  induction hreaches with
  | start => exact .inl ⟨rfl, rfl⟩
  | step _ hstep ih =>
      obtain ⟨rfl, rfl⟩ | ⟨next, later, hfirst, rfl, hlater⟩ := ih
      · exact .inr ⟨_, [], hstep, by simp, .start⟩
      · exact .inr ⟨next, later ++ _, hfirst, List.append_assoc .., hlater.step hstep⟩

/-- Of two moments of a run, one leads to the other. -/
theorem Reaches.linear {start machine machine' : Machine τ σ ε κ} {history history' : List Event}
    (hreaches : Reaches grammar start history machine)
    (hreaches' : Reaches grammar start history' machine') :
    (∃ later, history' = history ++ later ∧ Reaches grammar machine later machine') ∨
      ∃ later, history = history' ++ later ∧ Reaches grammar machine' later machine := by
  induction hreaches' with
  | start => exact .inr ⟨history, rfl, hreaches⟩
  | step _ hstep ih =>
      obtain ⟨later, rfl, hlater⟩ | ⟨later, rfl, hlater⟩ := ih
      · exact .inl ⟨_, List.append_assoc .., hlater.step hstep⟩
      -- The other moment lies ahead, and its run starts with this very step.
      · obtain ⟨rfl, rfl⟩ | ⟨next, rest, hfirst, rfl, hrest⟩ := hlater.first
        · exact .inl ⟨_, by simp, .one hstep⟩
        · rw [hstep] at hfirst
          cases hfirst
          exact .inr ⟨rest, (List.append_assoc ..).symm, hrest⟩

private theorem Reaches.stays {result : Answer ε} {asked : List Kind} {after : Parser τ σ}
    {machine : Machine τ σ ε κ} {history : List Event}
    (hreaches : Reaches grammar ⟨.answer result asked, [], after⟩ history machine) :
    history = [] ∧ machine = ⟨.answer result asked, [], after⟩ := by
  induction hreaches with
  | start => exact ⟨rfl, rfl⟩
  | step _ hstep ih =>
      obtain ⟨rfl, rfl⟩ := ih
      cases hstep
      exact ⟨rfl, rfl⟩

/-- `Ends grammar start whole result asked after`: the run from `start` comes to an answer that
nothing waits for, and it has no events but `whole`. -/
structure Ends (grammar : Grammar σ ε κ) (start : Machine τ σ ε κ) (whole : List Event)
    (result : Answer ε) (asked : List Kind) (after : Parser τ σ) : Prop where
  reaches : Reaches grammar start whole ⟨.answer result asked, [], after⟩
  whole : ∀ history machine, Reaches grammar start history machine → history <+: whole

theorem Reaches.ends {start : Machine τ σ ε κ} {whole : List Event} {result : Answer ε}
    {asked : List Kind} {after : Parser τ σ}
    (hreaches : Reaches grammar start whole ⟨.answer result asked, [], after⟩) :
    Ends grammar start whole result asked after := by
  refine ⟨hreaches, ?_⟩
  intro history machine hmoment
  obtain ⟨later, rfl, hlater⟩ | ⟨later, rfl, -⟩ := hreaches.linear hmoment
  · exact ⟨[], by rw [hlater.stays.1, List.append_nil, List.append_nil]⟩
  · exact List.prefix_append history later

/-- A run comes to one answer only. -/
theorem Reaches.answer_unique {start : Machine τ σ ε κ} {history history' : List Event}
    {result result' : Answer ε} {asked asked' : List Kind} {after after' : Parser τ σ}
    (hreaches : Reaches grammar start history ⟨.answer result asked, [], after⟩)
    (hreaches' : Reaches grammar start history' ⟨.answer result' asked', [], after'⟩) :
    result' = result ∧ asked' = asked ∧ after' = after := by
  obtain ⟨later, -, hlater⟩ | ⟨later, -, hlater⟩ := hreaches.linear hreaches'
  · cases hlater.stays.2
    exact ⟨rfl, rfl, rfl⟩
  · cases hlater.stays.2
    exact ⟨rfl, rfl, rfl⟩

end Machine

namespace Parser

variable {τ σ ε κ : Type} [TokenStream τ] {grammar : Grammar σ ε κ}

theorem reaches_of_perform {parser after : Parser τ σ} {fuel : Nat} {task : Control ε κ}
    {result : Except ε Unit} {asked : List Kind}
    (hperform : parser.perform grammar fuel task = .ok (result, asked, after)) :
    ∃ history answer, answer.map (fun _ => ()) = result ∧
      Machine.Reaches grammar ⟨task, [], parser⟩ history ⟨.answer answer asked, [], after⟩ := by
  unfold perform at hperform
  cases hrun : Machine.run grammar fuel ⟨task, [], parser⟩ with
  | error cause => simp [hrun] at hperform
  | ok outcome =>
      obtain ⟨answer, kinds, left⟩ := outcome
      simp only [hrun, Except.ok.injEq, Prod.mk.injEq] at hperform
      obtain ⟨rfl, rfl, rfl⟩ := hperform
      obtain ⟨history, hreaches⟩ := Machine.reaches_of_run hrun
      exact ⟨history, answer, rfl, hreaches⟩

theorem perform_of_reaches {parser after : Parser τ σ} {task : Control ε κ} {answer : Answer ε}
    {asked : List Kind} {history : List Event}
    (hreaches : Machine.Reaches grammar ⟨task, [], parser⟩ history
      ⟨.answer answer asked, [], after⟩) :
    ∃ cost, ∀ fuel, cost ≤ fuel →
      parser.perform grammar fuel task = .ok (answer.map fun _ => (), asked, after) := by
  obtain ⟨cost, hcost⟩ := Machine.run_of_reaches hreaches
  refine ⟨cost, fun fuel hle => ?_⟩
  have hrun := hcost (fuel - cost)
  rw [Nat.sub_add_cancel hle, Machine.run_answer] at hrun
  simp only [perform, hrun]

theorem reaches_of_expression {parser after : Parser τ σ} {fuel : Nat} {bound : Precedence}
    {result : Except ε Unit} (hparse : parser.expression grammar fuel bound = .ok (result, after)) :
    ∃ history answer asked, answer.map (fun _ => ()) = result ∧
      Machine.Reaches grammar ⟨.expression bound, [], parser⟩ history
        ⟨.answer answer asked, [], after⟩ := by
  unfold expression at hparse
  cases hperform : parser.perform grammar fuel (.expression bound) with
  | error cause => simp [hperform] at hparse
  | ok outcome =>
      obtain ⟨result', asked, after'⟩ := outcome
      simp only [hperform, Except.ok.injEq, Prod.mk.injEq] at hparse
      obtain ⟨rfl, rfl⟩ := hparse
      obtain ⟨history, answer, hanswer, hreaches⟩ := reaches_of_perform hperform
      exact ⟨history, answer, asked, hanswer, hreaches⟩

theorem expression_of_reaches {parser after : Parser τ σ} {bound : Precedence} {answer : Answer ε}
    {asked : List Kind} {history : List Event}
    (hreaches : Machine.Reaches grammar ⟨.expression bound, [], parser⟩ history
      ⟨.answer answer asked, [], after⟩) :
    ∃ cost, ∀ fuel, cost ≤ fuel →
      parser.expression grammar fuel bound = .ok (answer.map fun _ => (), after) := by
  obtain ⟨cost, hcost⟩ := perform_of_reaches hreaches
  refine ⟨cost, fun fuel hle => ?_⟩
  simp only [expression, hcost fuel hle]

end Parser

end FrontEnd.Parse
