import FrontEnd.Proofs.Parse.Consumption
import FrontEnd.Proofs.Table.Attempts

/-!
# Errors end a parse

An error comes up in two ways: the engine consumes a token for which there is no routine, or a
routine fails of its own accord (`Machine.Raises`).  It then goes back through the callers.  Where
each of them gives up when a task of its own has failed, the run ends with this very error, and
nothing is consumed and no routine is started on the way.

A routine that gives up may still put something on record, such as the kinds that a condition on
statements was asked about.  So what stays of the author's state is said in terms of a `view`, which
leaves such a record aside; with `id` for the view, all of the state stays.
-/

namespace FrontEnd.Parse

/-- The input of `after` is that of `before`, and so is the state as far as it is in `view`. -/
def Parser.SameIn {τ σ ω : Type} (view : σ → ω) (before after : Parser τ σ) : Prop :=
  after.input = before.input ∧ view after.state = view before.state

namespace Parser.SameIn

variable {τ σ ω : Type} {view : σ → ω} {before middle after : Parser τ σ}

theorem refl (parser : Parser τ σ) : parser.SameIn view parser :=
  ⟨rfl, rfl⟩

theorem trans (hfirst : before.SameIn view middle) (hsecond : middle.SameIn view after) :
    before.SameIn view after :=
  ⟨hsecond.1.trans hfirst.1, hsecond.2.trans hfirst.2⟩

end Parser.SameIn

namespace Machine

variable {τ σ ω ε κ : Type} [TokenStream τ] {grammar : Grammar σ ε κ} {view : σ → ω}

/-! ## Where errors come from -/

/-- `Raises grammar machine events error left`: the next step brings up `error`, has the events
`events`, and leaves the parser `left`. -/
inductive Raises (grammar : Grammar σ ε κ) :
    Machine τ σ ε κ → List Event → ε → Parser τ σ → Prop
  /-- There is no routine for the token that is consumed. -/
  | refused {machine : Machine τ σ ε κ} {token : Token} {left : Parser τ σ}
      (hevent : event? grammar machine = some (.refused token))
      (hadvance : machine.parser.advance = .ok (token, left)) :
      Raises grammar machine [.refused token] (grammar.misplaced machine.parser.state token) left
  /-- A routine fails. -/
  | failed {control : κ} {frames : List (Frame ε κ)} {parser : Parser τ σ} {error : ε}
      (hrequest : grammar.request control = .fail error) :
      Raises grammar ⟨.routine control, frames, parser⟩ [] error parser

/-- Nothing has gone wrong in the task in hand. -/
def Sound (machine : Machine τ σ ε κ) : Prop :=
  ∀ error asked, machine.control ≠ .answer (.error error) asked

/-- `Calm grammar start history machine`: the engine comes from `start` to `machine`, with the
events `history`, and without an error on the way. -/
inductive Calm (grammar : Grammar σ ε κ) (start : Machine τ σ ε κ) :
    List Event → Machine τ σ ε κ → Prop
  | start (hsound : start.Sound) : Calm grammar start [] start
  | step {history : List Event} {machine next : Machine τ σ ε κ}
      (hcalm : Calm grammar start history machine) (hstep : step grammar machine = .ok next)
      (hsound : next.Sound) : Calm grammar start (history ++ (event? grammar machine).toList) next

namespace Calm

variable {start machine : Machine τ σ ε κ} {history : List Event}

theorem sound (hcalm : Calm grammar start history machine) : machine.Sound := by
  cases hcalm with
  | start hsound => exact hsound
  | step _ _ hsound => exact hsound

theorem reaches (hcalm : Calm grammar start history machine) :
    Reaches grammar start history machine := by
  induction hcalm with
  | start => exact .start
  | step _ hstep _ ih => exact ih.step hstep

end Calm

omit [TokenStream τ] in
private theorem sound_deliver {asked : List Kind} {chaining : Chaining} (frame : Frame ε κ)
    (frames : List (Frame ε κ)) (parser : Parser τ σ) :
    (⟨deliver (.ok chaining) asked frame, frames, parser⟩ : Machine τ σ ε κ).Sound := by
  intro error kinds
  cases frame <;> nofun

omit [TokenStream τ] in
private theorem sound_task (task : Task) (frames : List (Frame ε κ)) (parser : Parser τ σ) :
    (⟨task.control, frames, parser⟩ : Machine τ σ ε κ).Sound := by
  intro error kinds
  cases task <;> nofun

/-- A step that leads to an error where there was none brings it up. -/
theorem raises_of_moves {machine next : Machine τ σ ε κ} {event : Option Event}
    (hevent : event? grammar machine = event) (hmoves : Moves grammar machine event next)
    (hsound : machine.Sound) :
    next.Sound ∨ ∃ error left, Raises grammar machine event.toList error left := by
  cases hmoves with
  | fail hrequest => exact .inr ⟨_, _, .failed hrequest⟩
  | @dispatch task routine inner frames parser after token hinner hroutine hadvance =>
      cases routine with
      | none => exact .inr ⟨_, _, .refused hevent hadvance⟩
      | some start => exact .inl nofun
  | call hcall => exact .inl (sound_task _ _ _)
  | @deliver result asked frame frames parser =>
      cases result with
      | error error => exact absurd rfl (hsound error asked)
      | ok chaining => exact .inl (sound_deliver frame frames parser)
  | idle => exact .inl hsound
  | _ => exact .inl nofun

/-- An error on the way to a machine has come up at some first moment. -/
theorem calm_or_raises {start machine : Machine τ σ ε κ} {history : List Event}
    (hstart : start.Sound) (hreaches : Reaches grammar start history machine) :
    Calm grammar start history machine ∨
      ∃ earlier moment events error left,
        Calm grammar start earlier moment ∧ Raises grammar moment events error left := by
  induction hreaches with
  | start => exact .inl (.start hstart)
  | step _ hstep ih =>
      obtain hcalm | hraised := ih
      · obtain hsound | ⟨error, left, hraises⟩ :=
          raises_of_moves rfl (moves_of_step hstep) hcalm.sound
        · exact .inl (hcalm.step hstep hsound)
        · exact .inr ⟨_, _, _, error, left, hcalm, hraises⟩
      · exact .inr hraised

/-! ## The way back -/

omit [TokenStream τ] in
private theorem eq_none_of_dispatched {routine : Option (Token → κ)} {token token' : Token}
    (hrefused : dispatched routine token = .refused token') : routine = none := by
  cases routine with
  | none => rfl
  | some start => cases hrefused

omit [TokenStream τ] in
private theorem event?_ne_refused (request : Request σ ε κ) (token token' : Token) :
    request.event? token ≠ some (.refused token') := by
  cases request with
  | expect kind resume =>
      unfold Request.event?
      split <;> simp
  | _ => simp [Request.event?]

theorem step_of_refused {machine : Machine τ σ ε κ} {token : Token} {left : Parser τ σ}
    (hevent : event? grammar machine = some (.refused token))
    (hadvance : machine.parser.advance = .ok (token, left)) :
    step grammar machine =
      .ok ⟨.answer (.error (grammar.misplaced machine.parser.state token)) [], machine.frames,
        left⟩ := by
  have hstate := (Parser.input_advance_ok hadvance).2
  have htoken := Parser.eq_lookahead_of_advance hadvance
  obtain ⟨task, frames, parser⟩ := machine
  cases task with
  | routine control => exact absurd hevent (event?_ne_refused _ _ _)
  | expression bound =>
      have hnone := eq_none_of_dispatched (Option.some.inj hevent)
      simp only [step, hadvance, hstate, htoken, hnone, dispatch]
  | operators bound =>
      by_cases hbound : grammar.precedence parser.state parser.lookahead.kind ≤ bound
      · simp [event?, hbound] at hevent
      · simp only [event?, hbound, if_false, Option.some.injEq] at hevent
        have hnone := eq_none_of_dispatched hevent
        simp only [step, hbound, if_false, hadvance, hstate, htoken, hnone, dispatch]
  | statement =>
      have hnone := eq_none_of_dispatched (Option.some.inj hevent)
      simp only [step, hadvance, hstate, htoken, hnone, dispatch]
  | statements accept asked => cases hevent
  | answer result asked => cases hevent

theorem Raises.reaches {machine : Machine τ σ ε κ} {events : List Event} {error : ε}
    {left : Parser τ σ} (hraises : Raises grammar machine events error left) :
    Reaches grammar machine events ⟨.answer (.error error) [], machine.frames, left⟩ := by
  cases hraises with
  | refused hevent hadvance =>
      have hone := Reaches.one (step_of_refused hevent hadvance)
      rw [hevent] at hone
      exact hone
  | @failed control frames _ _ hrequest =>
      have hstep : step grammar ⟨.routine control, frames, left⟩ =
          .ok ⟨.answer (.error error) [], frames, left⟩ := by
        simp only [step, hrequest, serve]
      have hone := Reaches.one hstep
      simp only [event?, hrequest, Request.event?] at hone
      exact hone

/-- A routine that gives up answers with its error. -/
theorem reaches_of_givesUp {control : κ} {error : ε} (hgivesUp : grammar.GivesUp view error control)
    (frames : List (Frame ε κ)) (parser : Parser τ σ) :
    ∃ after, parser.SameIn view after ∧
      Reaches grammar ⟨.routine control, frames, parser⟩ []
        ⟨.answer (.error error) [], frames, after⟩ := by
  induction hgivesUp generalizing parser with
  | fail hrequest => exact ⟨parser, .refl parser, (Raises.failed hrequest).reaches⟩
  | @record control act hrequest hview _ ih =>
      have hstep : step grammar ⟨.routine control, frames, parser⟩ =
          .ok ⟨.routine (act parser.state).2, frames,
            parser.input.withState (act parser.state).1⟩ := by
        simp only [step, hrequest, serve]
        rfl
      have hone := Reaches.one hstep
      simp only [event?, hrequest, Request.event?] at hone
      have hrecord : parser.SameIn view (parser.input.withState (act parser.state).1) :=
        ⟨rfl, hview parser.state⟩
      obtain ⟨after, hsame, hreaches⟩ :=
        ih parser.state (parser.input.withState (act parser.state).1)
      exact ⟨after, hrecord.trans hsame, hone.trans hreaches⟩

/-- An error goes back through all callers. -/
theorem reaches_of_error {frames : List (Frame ε κ)} (error : ε)
    (hframes : ∀ resume, .caller resume ∈ frames →
      ∀ asked, grammar.GivesUp view error (resume (.error error) asked))
    (asked : List Kind) (parser : Parser τ σ) :
    ∃ asked' after, parser.SameIn view after ∧
      Reaches grammar ⟨.answer (.error error) asked, frames, parser⟩ []
        ⟨.answer (.error error) asked', [], after⟩ := by
  -- A frame of the engine hands the error on by itself, a caller only after it has given up.
  induction frames generalizing asked parser with
  | nil => exact ⟨asked, parser, .refl parser, .start⟩
  | cons frame frames ih =>
      have hrest : ∀ resume, .caller resume ∈ frames →
          ∀ asked, grammar.GivesUp view error (resume (.error error) asked) :=
        fun resume hmem => hframes resume (List.mem_cons_of_mem _ hmem)
      have hdelivered : Reaches grammar ⟨.answer (.error error) asked, frame :: frames, parser⟩ []
          ⟨deliver (.error error) asked frame, frames, parser⟩ := .one rfl
      cases frame with
      | caller resume =>
          obtain ⟨middle, hsame, hgave⟩ :=
            reaches_of_givesUp (hframes resume List.mem_cons_self asked) frames parser
          obtain ⟨asked', after, hsame', hreaches⟩ := ih hrest [] middle
          exact ⟨asked', after, hsame.trans hsame', (hdelivered.trans hgave).trans hreaches⟩
      | _ =>
          obtain ⟨asked', after, hsame, hreaches⟩ := ih hrest _ parser
          exact ⟨asked', after, hsame, hdelivered.trans hreaches⟩

theorem reaches_of_raises {start moment : Machine τ σ ε κ} {history events : List Event} {error : ε}
    {left : Parser τ σ} (hall : AllPassOn grammar view start) (hstart : start.frames = [])
    (hreaches : Reaches grammar start history moment)
    (hraises : Raises grammar moment events error left) :
    ∃ asked after, left.SameIn view after ∧
      Reaches grammar start (history ++ events) ⟨.answer (.error error) asked, [], after⟩ := by
  have hframes : ∀ resume, .caller resume ∈ moment.frames →
      ∀ asked, grammar.GivesUp view error (resume (.error error) asked) := by
    intro resume hmem asked
    obtain ⟨earlier, control, frames, parser, task, hcaller, hcall⟩ :=
      hreaches.caller_mem hstart hmem
    exact hall earlier control frames parser hcaller task resume hcall error asked
  obtain ⟨asked, after, hsame, hback⟩ := reaches_of_error error hframes [] left
  have hwhole := (hreaches.trans hraises.reaches).trans hback
  rw [List.append_nil] at hwhole
  exact ⟨asked, after, hsame, hwhole⟩

end Machine

namespace Parser

variable {τ σ ω ε κ : Type} [TokenStream τ] {grammar : Grammar σ ε κ} {view : σ → ω}

/-- **Errors end a parse.**  Let every routine pass errors on.  Whenever an error comes up, at any
depth, the task ends with this error: the run has no event behind the one that brought it up, and
the parser stays as it was then.  And a task that ends with an error ends so because of the first
error that came up. -/
theorem errors_halt {task : Task} {parser : Parser τ σ}
    (hall : Machine.AllPassOn grammar view ⟨task.control, [], parser⟩) :
    (∀ history moment events error left,
      Machine.Reaches grammar ⟨task.control, [], parser⟩ history moment →
      Machine.Raises grammar moment events error left →
      ∃ asked after cost,
        (∀ fuel, cost ≤ fuel →
          parser.perform grammar fuel task.control = .ok (.error error, asked, after)) ∧
        Machine.Ends grammar ⟨task.control, [], parser⟩ (history ++ events) (.error error) asked
          after ∧
        left.SameIn view after) ∧
    ∀ fuel error asked after,
      parser.perform grammar fuel task.control = .ok (.error error, asked, after) →
      ∃ history moment events left,
        Machine.Calm grammar ⟨task.control, [], parser⟩ history moment ∧
        Machine.Raises grammar moment events error left ∧
        Machine.Ends grammar ⟨task.control, [], parser⟩ (history ++ events) (.error error) asked
          after ∧
        left.SameIn view after := by
  refine ⟨?_, ?_⟩
  · intro history moment events error left hreaches hraises
    obtain ⟨asked, after, hsame, hwhole⟩ := Machine.reaches_of_raises hall rfl hreaches hraises
    obtain ⟨cost, hcost⟩ := perform_of_reaches hwhole
    exact ⟨asked, after, cost, hcost, hwhole.ends, hsame⟩
  · intro fuel error asked after hperform
    obtain ⟨whole, answer, hanswer, hwhole⟩ := reaches_of_perform hperform
    cases answer with
    | ok chaining => cases hanswer
    | error error' =>
        cases hanswer
        obtain hcalm | ⟨history, moment, events, error', left, hcalm, hraises⟩ :=
          Machine.calm_or_raises (Machine.sound_task task [] parser) hwhole
        · exact absurd rfl (hcalm.sound error asked)
        · obtain ⟨asked', after', hsame, hreaches⟩ :=
            Machine.reaches_of_raises hall rfl hcalm.reaches hraises
          -- The run comes to one answer only, so the first error is the one that was returned.
          obtain ⟨heq, rfl, rfl⟩ := hwhole.answer_unique hreaches
          cases heq
          exact ⟨history, moment, events, left, hcalm, hraises, hreaches.ends, hsame⟩

end Parser

/-! ## Blocks -/

namespace Blocks

open Table (Tables State)

def block : Kind := ⟨1⟩

def word : Kind := ⟨2⟩

/-- A block is a list of statements, and there are no other statements. -/
def tables : Tables :=
  ⟨.empty, .empty, .empty, some ⟨[(block, some [.push, .statements .all])], none⟩⟩

theorem plain_tables : tables.Plain := by
  refine ⟨⟨nofun, nofun⟩, ⟨nofun, nofun⟩, ?_⟩
  intro entries hentries
  cases hentries
  refine ⟨?_, nofun⟩
  intro kind body hmem
  cases List.mem_singleton.mp hmem
  intro instruction hinstruction
  rcases List.mem_cons.mp hinstruction with rfl | hinstruction
  · exact .intro nofun nofun
  · cases List.mem_singleton.mp hinstruction
    exact .intro nofun nofun

def token (kind : Kind) (text : String) (column : UInt32) : Token :=
  ⟨kind, text, ⟨⟨0, 1, column⟩, "name"⟩⟩

/-- A word in a block, where it cannot stand. -/
def recording : Recording :=
  .ofTokens [token block "outer" 1, token word "word" 7, token block "inner" 12]

def first : Parser Recording State :=
  (Parser.ofRecording recording).withState (.ofTables tables)

end Blocks

theorem Parser.errors_halt_blocks :
    ∃ asked after fuel,
      Blocks.first.perform Table.grammar fuel .statement =
        .ok (.error (.misplaced (.ofToken (Blocks.token Blocks.word "word" 7))), asked, after) ∧
      after.lookahead = Blocks.token Blocks.block "inner" 12 ∧
      after.state.unasked = (Blocks.tables, #["outer"], #[]) := by
  have hstart : Machine.Reaches Table.grammar ⟨.statement, [], Blocks.first⟩ []
      ⟨.statement, [], Blocks.first⟩ := .start
  have hblock := hstart.step rfl
  have hpush := hblock.step rfl
  have hstatements := hpush.step rfl
  have hword := hstatements.step rfl
  have hplain : Blocks.first.state.tables.Plain := Blocks.plain_tables
  have hall := Table.allPassOn_of_plain hplain .statement
  obtain ⟨asked, after, cost, hcost, -, hsame⟩ :=
    (Parser.errors_halt hall).1 _ _ _ _ _ hword (.refused rfl rfl)
  exact ⟨asked, after, cost, hcost cost (Nat.le_refl cost), congrArg Parser.lookahead hsame.1,
    hsame.2⟩

end FrontEnd.Parse
