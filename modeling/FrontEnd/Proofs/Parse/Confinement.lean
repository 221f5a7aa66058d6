import FrontEnd.Proofs.Parse.Course

/-!
# Routines and states that a run stays within

A grammar may have more control points and states than a run from some start ever comes to.  If the
routines for the tokens of every fit state are tame, and tame routines go on tamely and keep the
state fit, then a run that starts in a fit state has tame routines only (`Machine.Reaches.confined`).

This is used to know of all routines of a run that they pass errors on: a routine whose task fails
gives up and returns the same error (`Grammar.PassesOn`).
-/

namespace FrontEnd.Parse

variable {τ σ ε κ : Type} {fit : σ → Prop} {tame : κ → Prop}

/-- However the request is answered, the routine goes on tamely and the state stays fit. -/
def Request.Confined (fit : σ → Prop) (tame : κ → Prop) : Request σ ε κ → Prop
  | .finish _ => True
  | .fail _ => True
  | .peek resume => ∀ token, tame (resume token)
  | .advance resume => ∀ token, tame (resume token)
  | .expect _ resume => ∀ matched, tame (resume matched)
  | .consult act => ∀ state, fit state → fit (act state).1 ∧ tame (act state).2
  | .expression _ resume => ∀ result, tame (resume result)
  | .statement resume => ∀ result, tame (resume result)
  | .statements _ resume => ∀ result asked, tame (resume result asked)

structure Grammar.Confines (grammar : Grammar σ ε κ) (fit : σ → Prop) (tame : κ → Prop) :
    Prop where
  offers : ∀ {state kind start}, fit state → grammar.Offers state kind start →
    ∀ token, tame (start token)
  request : ∀ {control}, tame control → (grammar.request control).Confined fit tame

theorem Request.Confined.call {request : Request σ ε κ} {task : Task}
    {resume : Except ε Unit → List Kind → κ} (hconfined : request.Confined fit tame)
    (hcall : request.call? = some (task, resume)) (result : Except ε Unit) (asked : List Kind) :
    tame (resume result asked) := by
  cases request with
  | expression bound resume => cases hcall; exact hconfined result
  | statement resume => cases hcall; exact hconfined result
  | statements accept resume => cases hcall; exact hconfined result asked
  | _ => cases hcall

namespace Machine

structure Confined (fit : σ → Prop) (tame : κ → Prop) (machine : Machine τ σ ε κ) : Prop where
  state : fit machine.parser.state
  control : ∀ control, machine.control = .routine control → tame control
  frames : ∀ resume, .caller resume ∈ machine.frames → ∀ result asked, tame (resume result asked)

variable {grammar : Grammar σ ε κ} {start machine next : Machine τ σ ε κ} {event : Option Event}
  {history : List Event}

theorem confined_task {parser : Parser τ σ} (hstate : fit parser.state) (task : Task) :
    Confined fit tame (⟨task.control, [], parser⟩ : Machine τ σ ε κ) := by
  refine ⟨hstate, ?_, nofun⟩
  intro control hcontrol
  cases task <;> cases hcontrol

private theorem tame_routine {following : κ} (hfollowing : tame following) :
    ∀ control : κ, (.routine following : Control ε κ) = .routine control → tame control := by
  intro control hcontrol
  cases hcontrol
  exact hfollowing

variable [TokenStream τ]

private theorem Moves.frames_confined (hmoves : Moves grammar machine event next)
    (hconfines : grammar.Confines fit tame) (hconfined : Confined fit tame machine) :
    ∀ resume, .caller resume ∈ next.frames → ∀ result asked, tame (resume result asked) := by
  intro resume hmem
  obtain hmem | ⟨control, task, hcontrol, hcall⟩ := hmoves.caller_mem hmem
  · exact hconfined.frames resume hmem
  · exact (hconfines.request (hconfined.control control hcontrol)).call hcall

theorem Moves.confined (hmoves : Moves grammar machine event next)
    (hconfines : grammar.Confines fit tame) (hconfined : Confined fit tame machine) :
    Confined fit tame next := by
  have hframes := hmoves.frames_confined hconfines hconfined
  have hserved {control : κ} {request : Request σ ε κ}
      (hcontrol : machine.control = .routine control)
      (hrequest : grammar.request control = request) : request.Confined fit tame := by
    rw [← hrequest]
    exact hconfines.request (hconfined.control control hcontrol)
  have hadvanced {after : Parser τ σ} {token : Token}
      (hadvance : machine.parser.advance = .ok (token, after)) : fit after.state := by
    rw [(Parser.input_advance_ok hadvance).2]
    exact hconfined.state
  cases hmoves with
  | peek hrequest => exact ⟨hconfined.state, tame_routine (hserved rfl hrequest _), hframes⟩
  | consult hrequest =>
      obtain ⟨hstate, hfollowing⟩ := hserved rfl hrequest _ hconfined.state
      exact ⟨hstate, tame_routine hfollowing, hframes⟩
  | unmatched hrequest =>
      exact ⟨hconfined.state, tame_routine (hserved rfl hrequest false), hframes⟩
  | matched hrequest hadvance =>
      exact ⟨hadvanced hadvance, tame_routine (hserved rfl hrequest true), hframes⟩
  | advance hrequest hadvance =>
      exact ⟨hadvanced hadvance, tame_routine (hserved rfl hrequest _), hframes⟩
  | call hcall => exact ⟨hconfined.state, (confined_task hconfined.state _).control, hframes⟩
  | @dispatch task routine inner frames parser after token hinner hroutine hadvance =>
      cases routine with
      | none => exact ⟨hadvanced hadvance, nofun, hframes⟩
      | some start =>
          have hoffers := hconfines.offers hconfined.state (hroutine start rfl) token
          exact ⟨hadvanced hadvance, tame_routine hoffers, hframes⟩
  | @deliver result asked frame frames parser =>
      refine ⟨hconfined.state, ?_, hframes⟩
      intro control hcontrol
      cases frame with
      | caller resume =>
          cases hcontrol
          exact hconfined.frames resume List.mem_cons_self _ asked
      | _ => cases result <;> cases hcontrol
  | idle => exact hconfined
  | _ => exact ⟨hconfined.state, nofun, hframes⟩

theorem Reaches.confined (hreaches : Reaches grammar start history machine)
    (hconfines : grammar.Confines fit tame) (hstart : Confined fit tame start) :
    Confined fit tame machine := by
  induction hreaches with
  | start => exact hstart
  | step _ hstep ih => exact (moves_of_step hstep).confined hconfines ih

end Machine

/-! ## Passing errors on -/

namespace Grammar

variable {σ ω ε κ : Type}

/-- From here on, a routine does nothing but return with `error`.  It may change the author's state
out of `view`. -/
inductive GivesUp (grammar : Grammar σ ε κ) (view : σ → ω) (error : ε) : κ → Prop
  | fail {control : κ} (hrequest : grammar.request control = .fail error) :
      GivesUp grammar view error control
  | record {control : κ} {act : σ → σ × κ} (hrequest : grammar.request control = .consult act)
      (hview : ∀ state, view (act state).1 = view state)
      (hrest : ∀ state, GivesUp grammar view error (act state).2) :
      GivesUp grammar view error control

/-- If `control` gives the engine a task and the task fails, the routine gives up with the same
error. -/
def PassesOn (grammar : Grammar σ ε κ) (view : σ → ω) (control : κ) : Prop :=
  ∀ task resume, (grammar.request control).call? = some (task, resume) →
    ∀ error asked, grammar.GivesUp view error (resume (.error error) asked)

end Grammar

namespace Machine

variable {ω : Type} {view : σ → ω} {grammar : Grammar σ ε κ} [TokenStream τ]

/-- Every routine that runs, from `start` on, passes errors on. -/
def AllPassOn (grammar : Grammar σ ε κ) (view : σ → ω) (start : Machine τ σ ε κ) : Prop :=
  ∀ history control frames parser,
    Reaches grammar start history ⟨.routine control, frames, parser⟩ → grammar.PassesOn view control

theorem allPassOn_of_confines {fit : σ → Prop} {tame : κ → Prop} {parser : Parser τ σ}
    (hconfines : grammar.Confines fit tame) (hstate : fit parser.state)
    (htame : ∀ control, tame control → grammar.PassesOn view control) (task : Task) :
    AllPassOn grammar view ⟨task.control, [], parser⟩ := by
  intro history control frames after hreaches
  have hconfined := hreaches.confined hconfines (confined_task hstate task)
  exact htame control (hconfined.control control rfl)

end Machine

end FrontEnd.Parse
