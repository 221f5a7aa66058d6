import FrontEnd.Parse.Engine

/-!
# What a task comes to

The engine takes small steps and keeps its callers in a list of frames.  This module says what a
whole task does, whatever frames wait for it: `Evaluates grammar task parser result asked after`
holds if the engine, started on `task` with `parser`, comes to the answer `result` and leaves
`after`.

A step pushes at most one frame, and it never looks at the frames below (`step_frames`).  So a task
is evaluated either by a step that waits for nothing, or by a step that waits for one other task.
A run that ends has evaluated its task (`evaluates_of_run`), and a task that evaluates to an answer
is run to it in a fixed number of steps, so that spare steps change nothing (`run_of_evaluates`).
-/

namespace FrontEnd.Parse

namespace Machine

variable {τ σ ε κ : Type} [TokenStream τ] {grammar : Grammar σ ε κ}

/-- The answer that the engine comes to when it is started on a task, with the kinds that a
condition on statements was asked about, and the parser that it leaves. -/
inductive Evaluates (grammar : Grammar σ ε κ) :
    Control ε κ → Parser τ σ → Answer ε → List Kind → Parser τ σ → Prop
  | answer (result : Answer ε) (asked : List Kind) (parser : Parser τ σ) :
      Evaluates grammar (.answer result asked) parser result asked parser
  /-- The task goes on as another one. -/
  | pass {task next : Control ε κ} {parser middle after : Parser τ σ} {result : Answer ε}
      {asked : List Kind} (hstep : step grammar ⟨task, [], parser⟩ = .ok ⟨next, [], middle⟩)
      (hnext : Evaluates grammar next middle result asked after) :
      Evaluates grammar task parser result asked after
  /-- The task waits in `frame` for another one, and goes on with its answer. -/
  | call {task callee : Control ε κ} {frame : Frame ε κ} {parser middle back after : Parser τ σ}
      {answer result : Answer ε} {kinds asked : List Kind}
      (hstep : step grammar ⟨task, [], parser⟩ = .ok ⟨callee, [frame], middle⟩)
      (hcallee : Evaluates grammar callee middle answer kinds back)
      (hrest : Evaluates grammar (deliver answer kinds frame) back result asked after) :
      Evaluates grammar task parser result asked after

/-! ## A step does not look at the frames below -/

/-- The machine with further frames below its own. -/
def above (machine : Machine τ σ ε κ) (frames : List (Frame ε κ)) : Machine τ σ ε κ :=
  ⟨machine.control, machine.frames ++ frames, machine.parser⟩

omit [TokenStream τ] in
private theorem dispatch_frames (routine : Option (Token → κ)) (token : Token)
    (inner : List (Frame ε κ)) (frames : List (Frame ε κ)) (parser : Parser τ σ) :
    dispatch grammar routine token (inner ++ frames) frames parser =
      (dispatch grammar routine token inner [] parser).above frames := by
  cases routine <;> rfl

private theorem serve_frames (request : Request σ ε κ) (frames : List (Frame ε κ))
    (parser : Parser τ σ) :
    serve request frames parser = (serve request [] parser).map (·.above frames) := by
  cases request with
  | advance resume => simp only [serve]; cases parser.advance <;> rfl
  | expect kind resume => simp only [serve]; cases parser.expect kind <;> rfl
  | _ => rfl

/-- A task other than an answer takes the same step over any frames. -/
theorem step_frames (task : Control ε κ) (htask : ∀ result asked, task ≠ .answer result asked)
    (frames : List (Frame ε κ)) (parser : Parser τ σ) :
    step grammar ⟨task, frames, parser⟩ =
      (step grammar ⟨task, [], parser⟩).map (·.above frames) := by
  cases task with
  | routine control => exact serve_frames _ _ _
  | expression bound =>
      simp only [step]
      cases parser.advance with
      | error cause => rfl
      | ok advanced =>
          exact congrArg Except.ok (dispatch_frames _ _ [.operand bound] frames _)
  | operators bound =>
      simp only [step]
      split
      · rfl
      · cases parser.advance with
        | error cause => rfl
        | ok advanced =>
            exact congrArg Except.ok (dispatch_frames _ _ [.operator bound _] frames _)
  | statement =>
      simp only [step]
      cases parser.advance with
      | error cause => rfl
      | ok advanced => exact congrArg Except.ok (dispatch_frames _ _ [] frames _)
  | statements accept asked =>
      simp only [step]
      split <;> rfl
  | answer result asked => exact absurd rfl (htask result asked)

omit [TokenStream τ] in
private theorem dispatch_length (routine : Option (Token → κ)) (token : Token)
    (inner : List (Frame ε κ)) (parser : Parser τ σ) :
    (dispatch grammar routine token inner [] parser).frames.length ≤ inner.length := by
  cases routine <;> simp [dispatch]

private theorem serve_length {request : Request σ ε κ} {parser : Parser τ σ}
    {next : Machine τ σ ε κ} (hserve : serve request [] parser = .ok next) :
    next.frames.length ≤ 1 := by
  cases request with
  | advance resume =>
      simp only [serve] at hserve
      cases hadvance : parser.advance with
      | error cause => simp [hadvance] at hserve
      | ok advanced =>
          simp only [hadvance] at hserve
          cases hserve
          simp
  | expect kind resume =>
      simp only [serve] at hserve
      cases hexpect : parser.expect kind with
      | error cause => simp [hexpect] at hserve
      | ok expected =>
          simp only [hexpect] at hserve
          cases hserve
          simp
  | _ => cases hserve; simp

/-- A step pushes at most one frame. -/
theorem step_length {task : Control ε κ} {parser : Parser τ σ} {next : Machine τ σ ε κ}
    (hstep : step grammar ⟨task, [], parser⟩ = .ok next) : next.frames.length ≤ 1 := by
  cases task with
  | routine control => exact serve_length hstep
  | expression bound =>
      simp only [step] at hstep
      cases hadvance : parser.advance with
      | error cause => simp [hadvance] at hstep
      | ok advanced =>
          simp only [hadvance] at hstep
          cases hstep
          exact dispatch_length _ _ _ _
  | operators bound =>
      simp only [step] at hstep
      split at hstep
      · cases hstep; simp
      · cases hadvance : parser.advance with
        | error cause => simp [hadvance] at hstep
        | ok advanced =>
            simp only [hadvance] at hstep
            cases hstep
            exact dispatch_length _ _ _ _
  | statement =>
      simp only [step] at hstep
      cases hadvance : parser.advance with
      | error cause => simp [hadvance] at hstep
      | ok advanced =>
          simp only [hadvance] at hstep
          cases hstep
          exact Nat.le_trans (dispatch_length _ _ _ _) (by simp)
  | statements accept asked =>
      simp only [step] at hstep
      split at hstep <;> cases hstep <;> simp
  | answer result asked => cases hstep; simp

/-! ## Evaluation is what the machine does -/

theorem run_answer (fuel : Nat) (result : Answer ε) (asked : List Kind)
    (parser : Parser τ σ) :
    run grammar fuel ⟨.answer result asked, [], parser⟩ = .ok (result, asked, parser) := by
  cases fuel <;> rfl

private theorem run_zero_of_task {task : Control ε κ}
    (htask : ∀ result asked, task ≠ .answer result asked) (frames : List (Frame ε κ))
    (parser : Parser τ σ) : run grammar 0 ⟨task, frames, parser⟩ = .error .outOfFuel := by
  cases task with
  | answer result asked => exact absurd rfl (htask result asked)
  | _ => rfl

private theorem run_succ_of_task {task : Control ε κ}
    (htask : ∀ result asked, task ≠ .answer result asked) (fuel : Nat)
    (frames : List (Frame ε κ)) (parser : Parser τ σ) :
    run grammar (fuel + 1) ⟨task, frames, parser⟩ =
      match step grammar ⟨task, [], parser⟩ with
      | .error cause => .error cause
      | .ok next => run grammar fuel (next.above frames) := by
  have hrun : run grammar (fuel + 1) ⟨task, frames, parser⟩ =
      match step grammar ⟨task, frames, parser⟩ with
      | .error cause => .error cause
      | .ok next => run grammar fuel next := by
    cases task with
    | answer result asked => exact absurd rfl (htask result asked)
    | _ => rfl
  rw [hrun, step_frames task htask frames parser]
  cases step grammar ⟨task, [], parser⟩ <;> rfl

omit [TokenStream τ] in
private theorem answer_or_task (task : Control ε κ) :
    (∃ result asked, task = .answer result asked) ∨ ∀ result asked, task ≠ .answer result asked := by
  cases task with
  | answer result asked => exact .inl ⟨result, asked, rfl⟩
  | _ => exact .inr fun _ _ => nofun

/-- A run that ends has evaluated its task, and has given the answer to the frames below. -/
theorem evaluates_of_run {fuel : Nat} :
    ∀ {task : Control ε κ} {frames : List (Frame ε κ)} {parser : Parser τ σ}
      {outcome : Answer ε × List Kind × Parser τ σ},
      run grammar fuel ⟨task, frames, parser⟩ = .ok outcome →
      ∃ result asked after, Evaluates grammar task parser result asked after ∧
        ∃ spare ≤ fuel, run grammar spare ⟨.answer result asked, frames, after⟩ = .ok outcome := by
  -- The callee of a task leaves fuel to its caller, and how much is not known beforehand: hence the
  -- strong induction.
  induction fuel using Nat.strongRecOn with
  | ind fuel ih =>
      intro task frames parser outcome hrun
      rcases answer_or_task task with ⟨result, asked, rfl⟩ | htask
      · exact ⟨result, asked, parser, .answer result asked parser, fuel, Nat.le_refl fuel, hrun⟩
      cases fuel with
      | zero => rw [run_zero_of_task htask] at hrun; cases hrun
      | succ fuel =>
          rw [run_succ_of_task htask] at hrun
          cases hstep : step grammar ⟨task, [], parser⟩ with
          | error cause => simp [hstep] at hrun
          | ok next =>
              have hlength := step_length hstep
              obtain ⟨control, own, middle⟩ := next
              simp only [hstep, above] at hrun
              match own, hlength with
              | [], _ =>
                  obtain ⟨result, asked, after, hnext, spare, hle, hspare⟩ :=
                    ih fuel (Nat.lt_succ_self fuel) hrun
                  exact ⟨result, asked, after, .pass hstep hnext, spare, by omega, hspare⟩
              | [frame], _ =>
                  obtain ⟨answer, kinds, back, hcallee, left, hle, hleft⟩ :=
                    ih fuel (Nat.lt_succ_self fuel) hrun
                  cases left with
                  | zero => cases hleft
                  | succ left =>
                      obtain ⟨result, asked, after, hrest, spare, hle', hspare⟩ :=
                        ih left (by omega) hleft
                      exact ⟨result, asked, after, .call hstep hcallee hrest, spare, by omega,
                        hspare⟩

/-- The machine evaluates a task in a fixed number of steps, whatever frames are below. -/
theorem run_of_evaluates {task : Control ε κ} {parser after : Parser τ σ} {result : Answer ε}
    {asked : List Kind} (hevaluates : Evaluates grammar task parser result asked after) :
    ∃ cost, ∀ (frames : List (Frame ε κ)) (fuel : Nat),
      run grammar (fuel + cost) ⟨task, frames, parser⟩ =
        run grammar fuel ⟨.answer result asked, frames, after⟩ := by
  induction hevaluates with
  | answer result asked parser => exact ⟨0, fun _ _ => rfl⟩
  | @pass task next parser middle after result asked hstep _ ih =>
      obtain ⟨cost, hcost⟩ := ih
      rcases answer_or_task task with ⟨given, kinds, rfl⟩ | htask
      · cases hstep
        exact ⟨cost, hcost⟩
      · refine ⟨cost + 1, fun frames fuel => ?_⟩
        rw [← Nat.add_assoc, run_succ_of_task htask, hstep]
        exact hcost frames fuel
  | @call task callee frame parser middle back after answer result kinds asked hstep _ _ ihCallee
      ihRest =>
      obtain ⟨cost, hcost⟩ := ihCallee
      obtain ⟨more, hmore⟩ := ihRest
      rcases answer_or_task task with ⟨given, kinds, rfl⟩ | htask
      · cases hstep
      -- One step pushes the frame and one takes it off again.
      · refine ⟨more + 1 + cost + 1, fun frames fuel => ?_⟩
        rw [← Nat.add_assoc, run_succ_of_task htask, hstep, ← Nat.add_assoc]
        exact (hcost (frame :: frames) (fuel + (more + 1))).trans (hmore frames fuel)

/-! ## The rules of an expression -/

namespace Evaluates

variable {parser middle back after : Parser τ σ} {result : Answer ε} {asked kinds : List Kind}
  {token : Token} {start : Token → κ} {chaining : Chaining} {bound : Precedence}

theorem expression (hadvance : parser.advance = .ok (token, middle))
    (hroutine : grammar.prefixRoutine middle.state token.kind = some start)
    (hrun : Evaluates grammar (.routine (start token)) middle (.ok chaining) kinds back)
    (hrest : Evaluates grammar (.operators bound) back result asked after) :
    Evaluates grammar (.expression bound) parser result asked after := by
  have hstep : step grammar ⟨.expression bound, [], parser⟩ =
      .ok ⟨.routine (start token), [.operand bound], middle⟩ := by
    simp only [step, hadvance, hroutine, dispatch]
  exact .call hstep hrun hrest

theorem stop (hbound : grammar.precedence parser.state parser.lookahead.kind ≤ bound) :
    Evaluates grammar (.operators bound) parser (.ok .allowed) [] parser :=
  .pass (if_pos hbound) (.answer _ _ _)

theorem operator (hbound : bound < grammar.precedence parser.state parser.lookahead.kind)
    (hadvance : parser.advance = .ok (token, middle))
    (hroutine : grammar.infixRoutine middle.state token.kind = some start)
    (hrun : Evaluates grammar (.routine (start token)) middle (.ok chaining) kinds back)
    (hrest : Evaluates grammar
      (.operators (chaining.boundAfter
        (grammar.precedence parser.state parser.lookahead.kind) bound)) back result asked after) :
    Evaluates grammar (.operators bound) parser result asked after := by
  have hstep : step grammar ⟨.operators bound, [], parser⟩ =
      .ok ⟨.routine (start token),
        [.operator bound (grammar.precedence parser.state parser.lookahead.kind)], middle⟩ := by
    simp only [step, if_neg (Int32.not_le.mpr hbound), hadvance, hroutine, dispatch]
  exact .call hstep hrun hrest

end Evaluates

theorem step_expression {parser : Parser τ σ} {bound : Precedence} {next : Machine τ σ ε κ}
    (hstep : step grammar ⟨.expression bound, [], parser⟩ = .ok next) :
    ∃ token middle, parser.advance = .ok (token, middle) ∧
      next = dispatch grammar (grammar.prefixRoutine middle.state token.kind) token
        [.operand bound] [] middle := by
  simp only [step] at hstep
  cases hadvance : parser.advance with
  | error cause => simp [hadvance] at hstep
  | ok advanced =>
      simp only [hadvance, Except.ok.injEq] at hstep
      exact ⟨advanced.1, advanced.2, rfl, hstep.symm⟩

/-- Behind an operand the expression ends, or an operator is consumed and its routine run. -/
theorem step_operators {parser : Parser τ σ} {bound : Precedence} {next : Machine τ σ ε κ}
    (hstep : step grammar ⟨.operators bound, [], parser⟩ = .ok next) :
    (grammar.precedence parser.state parser.lookahead.kind ≤ bound ∧
        next = ⟨.answer (.ok .allowed) [], [], parser⟩) ∨
      (bound < grammar.precedence parser.state parser.lookahead.kind ∧
        ∃ token middle, parser.advance = .ok (token, middle) ∧
          next = dispatch grammar (grammar.infixRoutine middle.state token.kind) token
            [.operator bound (grammar.precedence parser.state parser.lookahead.kind)] [] middle) := by
  simp only [step] at hstep
  split at hstep
  · rename_i hbound
    exact .inl ⟨hbound, (Except.ok.inj hstep).symm⟩
  · rename_i hbound
    refine .inr ⟨Int32.not_le.mp hbound, ?_⟩
    cases hadvance : parser.advance with
    | error cause => simp [hadvance] at hstep
    | ok advanced =>
        simp only [hadvance, Except.ok.injEq] at hstep
        exact ⟨advanced.1, advanced.2, rfl, hstep.symm⟩

end Machine

namespace Parser

variable {τ σ ε κ : Type} [TokenStream τ] {grammar : Grammar σ ε κ}

theorem evaluates_of_expression {parser after : Parser τ σ} {fuel : Nat} {bound : Precedence}
    (hparse : parser.expression grammar fuel bound = .ok (.ok (), after)) :
    ∃ chaining asked,
      Machine.Evaluates grammar (.expression bound) parser (.ok chaining) asked after := by
  simp only [expression, perform] at hparse
  cases hrun : Machine.run grammar fuel ⟨.expression bound, [], parser⟩ with
  | error cause => simp [hrun] at hparse
  | ok outcome =>
      obtain ⟨result, asked, left⟩ := outcome
      obtain ⟨answer, kinds, back, hevaluates, spare, _, hspare⟩ := Machine.evaluates_of_run hrun
      rw [Machine.run_answer] at hspare
      simp only [Except.ok.injEq, Prod.mk.injEq] at hspare
      obtain ⟨rfl, rfl, rfl⟩ := hspare
      cases answer with
      | error error => simp [hrun, Except.map] at hparse
      | ok chaining =>
          simp only [hrun, Except.ok.injEq, Prod.mk.injEq] at hparse
          obtain ⟨-, rfl⟩ := hparse
          exact ⟨chaining, kinds, hevaluates⟩

/-- An expression that evaluates to an answer is parsed whenever there are steps enough. -/
theorem expression_of_evaluates {parser after : Parser τ σ} {bound : Precedence}
    {chaining : Chaining} {asked : List Kind}
    (hevaluates : Machine.Evaluates grammar (.expression bound) parser (.ok chaining) asked after) :
    ∃ cost, ∀ fuel, cost ≤ fuel →
      parser.expression grammar fuel bound = .ok (.ok (), after) := by
  obtain ⟨cost, hcost⟩ := Machine.run_of_evaluates hevaluates
  refine ⟨cost, fun fuel hle => ?_⟩
  have hrun := hcost [] (fuel - cost)
  rw [Nat.sub_add_cancel hle, Machine.run_answer] at hrun
  simp only [expression, perform, hrun]
  rfl

end Parser

end FrontEnd.Parse
