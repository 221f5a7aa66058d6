import FrontEnd.Proofs.Parse.Course

/-!
# A task among others

A routine may ask for an expression in the middle of another one, and the engine then works on the
inner task above the frames that wait for it.  `Machine.During` follows a task, whatever waits for
it, up to its answer.

Until it has the answer, the engine works as if nothing waited.  Without the frames below it goes
through the same moments, with the same events (`During.own`), and so it does with further frames
(`Reaches.above`).
-/

namespace FrontEnd.Parse.Machine

variable {τ σ ε κ : Type} [TokenStream τ] {grammar : Grammar σ ε κ}

omit [TokenStream τ] in
theorem above_above (machine : Machine τ σ ε κ) (inner outer : List (Frame ε κ)) :
    (machine.above inner).above outer = machine.above (inner ++ outer) := by
  simp only [above, List.append_assoc]

omit [TokenStream τ] in
@[simp] theorem event?_above (machine : Machine τ σ ε κ) (frames : List (Frame ε κ)) :
    event? grammar (machine.above frames) = event? grammar machine :=
  rfl

omit [TokenStream τ] in
@[simp] theorem event?_answer (result : Answer ε) (asked : List Kind) (frames : List (Frame ε κ))
    (parser : Parser τ σ) : event? grammar ⟨.answer result asked, frames, parser⟩ = none :=
  rfl

/-- A machine has its answer, or it steps above any frames as it does without them. -/
theorem answered_or_step_above (grammar : Grammar σ ε κ) (machine : Machine τ σ ε κ) :
    (∃ result asked after, machine = ⟨.answer result asked, [], after⟩) ∨
      ∀ frames, step grammar (machine.above frames) = (step grammar machine).map (·.above frames) := by
  obtain ⟨task, own, parser⟩ := machine
  by_cases htask : ∃ result asked, task = .answer result asked
  · obtain ⟨result, asked, rfl⟩ := htask
    cases own with
    | nil => exact .inl ⟨result, asked, parser, rfl⟩
    | cons frame own => exact .inr fun _ => rfl
  · right
    intro frames
    have hne : ∀ result asked, task ≠ .answer result asked :=
      fun result asked heq => htask ⟨result, asked, heq⟩
    have hwhole : step grammar (above ⟨task, own, parser⟩ frames) =
        (step grammar ⟨task, [], parser⟩).map (·.above (own ++ frames)) :=
      step_frames task hne (own ++ frames) parser
    rw [hwhole, step_frames task hne own parser]
    cases step grammar ⟨task, [], parser⟩ with
    | error cause => rfl
    | ok next => exact congrArg Except.ok (above_above next own frames).symm

/-- A machine has its answer, or whatever it does above some frames it does without them. -/
theorem answered_or_step (grammar : Grammar σ ε κ) (machine : Machine τ σ ε κ) :
    (∃ result asked after, machine = ⟨.answer result asked, [], after⟩) ∨
      ∀ frames next, step grammar (machine.above frames) = .ok next →
        ∃ own, step grammar machine = .ok own ∧ next = own.above frames := by
  refine (answered_or_step_above grammar machine).imp_right ?_
  intro habove frames next hstep
  rw [habove] at hstep
  cases hown : step grammar machine with
  | error cause => rw [hown] at hstep; cases hstep
  | ok own =>
      rw [hown] at hstep
      exact ⟨own, rfl, (Except.ok.inj hstep).symm⟩

/-- What waits below does not change the course of a task. -/
theorem Reaches.above {start machine : Machine τ σ ε κ} {history : List Event}
    (hreaches : Reaches grammar start history machine) (frames : List (Frame ε κ)) :
    Reaches grammar (start.above frames) history (machine.above frames) := by
  induction hreaches with
  | start => exact .start
  | @step history machine next _ hstep ih =>
      obtain ⟨result, asked, after, rfl⟩ | habove := answered_or_step_above grammar machine
      -- Without frames an answer stays where it is, and above frames it must not be given to them.
      · cases hstep
        rw [event?_answer, Option.toList_none, List.append_nil]
        exact ih
      · have hnext := habove frames
        rw [hstep] at hnext
        exact ih.step hnext

/-- `During grammar task frames parser history machine`: the engine, given `task` above `frames`, has
come to `machine` and has not handed on an answer to these frames.  The events on the way are
`history`. -/
inductive During (grammar : Grammar σ ε κ) (task : Control ε κ) (frames : List (Frame ε κ))
    (parser : Parser τ σ) : List Event → Machine τ σ ε κ → Prop
  | start : During grammar task frames parser [] ⟨task, frames, parser⟩
  | step {history : List Event} {machine next : Machine τ σ ε κ}
      (hduring : During grammar task frames parser history machine)
      (hopen : ∀ result asked after, machine ≠ ⟨.answer result asked, frames, after⟩)
      (hstep : step grammar machine = .ok next) :
      During grammar task frames parser (history ++ (event? grammar machine).toList) next

/-- A task takes the course that it takes when nothing waits for it. -/
theorem During.own {task : Control ε κ} {frames : List (Frame ε κ)} {parser : Parser τ σ}
    {history : List Event} {machine : Machine τ σ ε κ}
    (hduring : During grammar task frames parser history machine) :
    ∃ own, Reaches grammar ⟨task, [], parser⟩ history own ∧ machine = own.above frames := by
  induction hduring with
  | start => exact ⟨_, .start, rfl⟩
  | step _ hopen hstep ih =>
      obtain ⟨own, hreaches, rfl⟩ := ih
      obtain ⟨result, asked, after, rfl⟩ | hown := answered_or_step grammar own
      · exact absurd rfl (hopen result asked after)
      · obtain ⟨own', hstep', rfl⟩ := hown _ _ hstep
        exact ⟨own', hreaches.step hstep', rfl⟩

/-- Where only the frames from before are left, none are left when nothing waits. -/
theorem During.reaches {task control : Control ε κ} {frames : List (Frame ε κ)}
    {parser here : Parser τ σ} {history : List Event}
    (hduring : During grammar task frames parser history ⟨control, frames, here⟩) :
    Reaches grammar ⟨task, [], parser⟩ history ⟨control, [], here⟩ := by
  obtain ⟨⟨control', inner, here'⟩, hreaches, hmachine⟩ := hduring.own
  simp only [above, Machine.mk.injEq] at hmachine
  obtain ⟨rfl, hframes, rfl⟩ := hmachine
  obtain rfl : inner = [] := List.self_eq_append_left.mp hframes
  exact hreaches

/-- The frame that waits for a task goes on with its answer. -/
theorem Reaches.delivered {task : Control ε κ} {parser after : Parser τ σ} {history : List Event}
    {result : Answer ε} {asked : List Kind}
    (hreaches : Reaches grammar ⟨task, [], parser⟩ history ⟨.answer result asked, [], after⟩)
    (frame : Frame ε κ) (frames : List (Frame ε κ)) :
    Reaches grammar ⟨task, frame :: frames, parser⟩ history
      ⟨deliver result asked frame, frames, after⟩ := by
  have hanswered := (hreaches.above (frame :: frames)).step rfl
  rw [event?_above, event?_answer, Option.toList_none, List.append_nil] at hanswered
  exact hanswered

/-- A task that is followed to its answer evaluates to it. -/
theorem evaluates_of_reaches {task : Control ε κ} {parser after : Parser τ σ} {history : List Event}
    {result : Answer ε} {asked : List Kind}
    (hreaches : Reaches grammar ⟨task, [], parser⟩ history ⟨.answer result asked, [], after⟩) :
    Evaluates grammar task parser result asked after := by
  obtain ⟨cost, hcost⟩ := run_of_reaches hreaches
  have hrun := hcost 0
  rw [run_answer] at hrun
  obtain ⟨result', asked', after', hevaluates, spare, -, hspare⟩ := evaluates_of_run hrun
  rw [run_answer] at hspare
  cases hspare
  exact hevaluates

end FrontEnd.Parse.Machine
