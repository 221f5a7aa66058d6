import FrontEnd.Proofs.Parse.Nesting
import FrontEnd.Proofs.Parse.Taking

/-!
# The moments of an expression

Whatever its routines do, an expression is at any moment in one of a few stages: it runs the routine
of its first operand or of an operator, or it stands between two operators, or it has its answer.
`Machine.ClimbsTo` describes how it comes to stand between two operators, with the operators that it
took itself until then, and `Machine.FailsTo` how it fails.  `Machine.Stage` lists the stages; a step
leads from one stage to another (`Machine.Stage.step`), so a run never leaves them.

The expression may fail, or never end, and the account still holds.  It follows that each operator
is taken above the bound of the expression and above all barred operators before it.
-/

namespace FrontEnd.Parse

/-! ## Bounds and barred operators -/

namespace Operator

/-- The precedence lies above the bound and above every barred operator. -/
def Clears (bound : Precedence) (operators : List Operator) (precedence : Precedence) : Prop :=
  bound < precedence ∧
    ∀ operator ∈ operators, operator.chaining = .barred → operator.precedence < precedence

theorem boundBehind_append (bound : Precedence) (operators : List Operator) (operator : Operator) :
    boundBehind bound (operators ++ [operator]) =
      operator.chaining.boundAfter operator.precedence (boundBehind bound operators) := by
  induction operators generalizing bound with
  | nil => rfl
  | cons first operators ih => exact ih _

end Operator

namespace Machine

variable {τ σ ε κ : Type} [TokenStream τ] {grammar : Grammar σ ε κ} {bound : Precedence}
  {parser : Parser τ σ} {history : List Event}

/-! ## Taking a token -/

section Taking

variable {middle : Parser τ σ}

theorem event?_expression (hadvance : parser.advance = .ok (parser.lookahead, middle))
    (frames : List (Frame ε κ)) :
    event? grammar ⟨.expression bound, frames, parser⟩ =
      some (dispatched (grammar.prefixRoutine middle.state parser.lookahead.kind)
        parser.lookahead) := by
  rw [event?, (Parser.input_advance_ok hadvance).2]

theorem reaches_expression (hadvance : parser.advance = .ok (parser.lookahead, middle))
    {routine : Option (Token → κ)}
    (hroutine : grammar.prefixRoutine middle.state parser.lookahead.kind = routine)
    (frames : List (Frame ε κ)) :
    Reaches grammar ⟨.expression bound, frames, parser⟩ [dispatched routine parser.lookahead]
      (dispatch grammar routine parser.lookahead (.operand bound :: frames) frames middle) := by
  have hstep : step grammar ⟨.expression bound, frames, parser⟩ =
      .ok (dispatch grammar routine parser.lookahead (.operand bound :: frames) frames middle) := by
    simp only [step, hadvance, hroutine]
  have hone := Reaches.one hstep
  rw [event?_expression hadvance, hroutine] at hone
  exact hone

theorem event?_operators (hbound : bound < grammar.precedence parser.state parser.lookahead.kind)
    (hadvance : parser.advance = .ok (parser.lookahead, middle)) (frames : List (Frame ε κ)) :
    event? grammar ⟨.operators bound, frames, parser⟩ =
      some (dispatched (grammar.infixRoutine middle.state parser.lookahead.kind)
        parser.lookahead) := by
  rw [(Parser.input_advance_ok hadvance).2]
  exact if_neg (Int32.not_le.mpr hbound)

theorem reaches_operators (hbound : bound < grammar.precedence parser.state parser.lookahead.kind)
    (hadvance : parser.advance = .ok (parser.lookahead, middle)) {routine : Option (Token → κ)}
    (hroutine : grammar.infixRoutine middle.state parser.lookahead.kind = routine)
    (frames : List (Frame ε κ)) :
    Reaches grammar ⟨.operators bound, frames, parser⟩ [dispatched routine parser.lookahead]
      (dispatch grammar routine parser.lookahead
        (.operator bound (grammar.precedence parser.state parser.lookahead.kind) :: frames) frames
        middle) := by
  have hstep : step grammar ⟨.operators bound, frames, parser⟩ =
      .ok (dispatch grammar routine parser.lookahead
        (.operator bound (grammar.precedence parser.state parser.lookahead.kind) :: frames) frames
        middle) := by
    simp only [step, if_neg (Int32.not_le.mpr hbound), hadvance, hroutine]
  have hone := Reaches.one hstep
  rw [event?_operators hbound hadvance, hroutine] at hone
  exact hone

end Taking

/-! ## Between the operators -/

/-- `ClimbsTo grammar bound parser history operators here`: an expression that starts at `parser` has
come to `here`, behind its first operand and behind `operators`, the operators that it took itself.
The events on the way are `history`. -/
inductive ClimbsTo (grammar : Grammar σ ε κ) (bound : Precedence) (parser : Parser τ σ) :
    List Event → List Operator → Parser τ σ → Prop
  | operand {middle here : Parser τ σ} {start : Token → κ} {chaining : Chaining} {asked : List Kind}
      {history : List Event} (hadvance : parser.advance = .ok (parser.lookahead, middle))
      (hroutine : grammar.prefixRoutine middle.state parser.lookahead.kind = some start)
      (hrun : Reaches grammar ⟨.routine (start parser.lookahead), [], middle⟩ history
        ⟨.answer (.ok chaining) asked, [], here⟩) :
      ClimbsTo grammar bound parser (.started parser.lookahead :: history) [] here
  | operator {here middle back : Parser τ σ} {start : Token → κ} {chaining : Chaining}
      {asked : List Kind} {history later : List Event} {operators : List Operator}
      (hclimbs : ClimbsTo grammar bound parser history operators here)
      (hbound : Operator.boundBehind bound operators <
        grammar.precedence here.state here.lookahead.kind)
      (hadvance : here.advance = .ok (here.lookahead, middle))
      (hroutine : grammar.infixRoutine middle.state here.lookahead.kind = some start)
      (hrun : Reaches grammar ⟨.routine (start here.lookahead), [], middle⟩ later
        ⟨.answer (.ok chaining) asked, [], back⟩) :
      ClimbsTo grammar bound parser (history ++ .started here.lookahead :: later)
        (operators ++
          [⟨here.lookahead, grammar.precedence here.state here.lookahead.kind, chaining⟩]) back

/-- An operator may be taken behind others. -/
theorem Takes.append {here middle back : Parser τ σ} {start : Token → κ} {chaining : Chaining}
    {kinds : List Kind} {operators : List Operator}
    (htakes : Takes grammar bound parser operators here)
    (hbound : Operator.boundBehind bound operators <
      grammar.precedence here.state here.lookahead.kind)
    (hadvance : here.advance = .ok (here.lookahead, middle))
    (hroutine : grammar.infixRoutine middle.state here.lookahead.kind = some start)
    (hrun : Evaluates grammar (.routine (start here.lookahead)) middle (.ok chaining) kinds back) :
    Takes grammar bound parser
      (operators ++
        [⟨here.lookahead, grammar.precedence here.state here.lookahead.kind, chaining⟩]) back := by
  induction htakes with
  | nothing => exact .operator hbound hadvance hroutine hrun (.nothing _ _)
  | operator hbound' hadvance' hroutine' hrun' _ ih =>
      exact .operator hbound' hadvance' hroutine' hrun' (ih hbound hadvance hroutine hrun)

namespace ClimbsTo

variable {here : Parser τ σ} {operators : List Operator}

theorem takes (hclimbs : ClimbsTo grammar bound parser history operators here) :
    ∃ operand, Opens grammar parser operand ∧ Takes grammar bound operand operators here := by
  induction hclimbs with
  | operand hadvance hroutine hrun =>
      exact ⟨_, .operand hadvance hroutine (evaluates_of_reaches hrun), .nothing _ _⟩
  | operator _ hbound hadvance hroutine hrun ih =>
      obtain ⟨operand, hopens, htakes⟩ := ih
      exact ⟨operand, hopens,
        htakes.append hbound hadvance hroutine (evaluates_of_reaches hrun)⟩

/-- What lies above the bound in force lies above the bound and above every barred operator. -/
theorem clears (hclimbs : ClimbsTo grammar bound parser history operators here)
    {precedence : Precedence} (hbound : Operator.boundBehind bound operators < precedence) :
    Operator.Clears bound operators precedence := by
  obtain ⟨operand, -, htakes⟩ := hclimbs.takes
  have hnot := mt (htakes.le_boundBehind_iff precedence).mpr (Int32.not_le.mpr hbound)
  rw [not_or] at hnot
  refine ⟨Int32.not_le.mp hnot.1, ?_⟩
  intro operator hmem hbarred
  have hfar : ¬ precedence.toInt ≤ operator.precedence.toInt + 1 :=
    fun hle => hnot.2 ⟨operator, hmem, hbarred, hle⟩
  rw [Int32.lt_iff_toInt_lt]
  omega

/-- Each operator clears the bound and the operators before it. -/
theorem clears_of_append (hclimbs : ClimbsTo grammar bound parser history operators here)
    {earlier later : List Operator} {operator : Operator}
    (hoperators : operators = earlier ++ operator :: later) :
    Operator.Clears bound earlier operator.precedence := by
  induction hclimbs generalizing later with
  | operand => simp at hoperators
  | operator hclimbs hbound _ _ _ ih =>
      obtain rfl | ⟨later, last, rfl⟩ := List.eq_nil_or_concat later
      · obtain ⟨rfl, hlast⟩ := List.append_inj' hoperators rfl
        cases hlast
        exact hclimbs.clears hbound
      · rw [List.concat_eq_append, ← List.cons_append, ← List.append_assoc] at hoperators
        exact ih (List.append_inj' hoperators rfl).1

/-- The engine comes to stand there, whatever waits for the expression. -/
theorem reaches (hclimbs : ClimbsTo grammar bound parser history operators here)
    (frames : List (Frame ε κ)) :
    Reaches grammar ⟨.expression bound, frames, parser⟩ history
      ⟨.operators (Operator.boundBehind bound operators), frames, here⟩ := by
  induction hclimbs with
  | operand hadvance hroutine hrun =>
      exact (reaches_expression hadvance hroutine frames).trans (hrun.delivered _ frames)
  | operator _ hbound hadvance hroutine hrun ih =>
      rw [Operator.boundBehind_append]
      exact ih.trans ((reaches_operators hbound hadvance hroutine frames).trans
        (hrun.delivered _ frames))

end ClimbsTo

/-- `FailsTo grammar bound parser history error after`: an expression that starts at `parser` fails
at `after` with `error`.  It found a token that has no routine, or one of its routines failed. -/
inductive FailsTo (grammar : Grammar σ ε κ) (bound : Precedence) (parser : Parser τ σ) :
    List Event → ε → Parser τ σ → Prop
  | misplacedOperand {middle : Parser τ σ}
      (hadvance : parser.advance = .ok (parser.lookahead, middle))
      (hroutine : grammar.prefixRoutine middle.state parser.lookahead.kind = none) :
      FailsTo grammar bound parser [.refused parser.lookahead]
        (grammar.misplaced middle.state parser.lookahead) middle
  | operand {middle after : Parser τ σ} {start : Token → κ} {error : ε} {asked : List Kind}
      {history : List Event} (hadvance : parser.advance = .ok (parser.lookahead, middle))
      (hroutine : grammar.prefixRoutine middle.state parser.lookahead.kind = some start)
      (hrun : Reaches grammar ⟨.routine (start parser.lookahead), [], middle⟩ history
        ⟨.answer (.error error) asked, [], after⟩) :
      FailsTo grammar bound parser (.started parser.lookahead :: history) error after
  | misplacedOperator {here middle : Parser τ σ} {history : List Event} {operators : List Operator}
      (hclimbs : ClimbsTo grammar bound parser history operators here)
      (hbound : Operator.boundBehind bound operators <
        grammar.precedence here.state here.lookahead.kind)
      (hadvance : here.advance = .ok (here.lookahead, middle))
      (hroutine : grammar.infixRoutine middle.state here.lookahead.kind = none) :
      FailsTo grammar bound parser (history ++ [.refused here.lookahead])
        (grammar.misplaced middle.state here.lookahead) middle
  | operator {here middle after : Parser τ σ} {start : Token → κ} {error : ε} {asked : List Kind}
      {history later : List Event} {operators : List Operator}
      (hclimbs : ClimbsTo grammar bound parser history operators here)
      (hbound : Operator.boundBehind bound operators <
        grammar.precedence here.state here.lookahead.kind)
      (hadvance : here.advance = .ok (here.lookahead, middle))
      (hroutine : grammar.infixRoutine middle.state here.lookahead.kind = some start)
      (hrun : Reaches grammar ⟨.routine (start here.lookahead), [], middle⟩ later
        ⟨.answer (.error error) asked, [], after⟩) :
      FailsTo grammar bound parser (history ++ .started here.lookahead :: later) error after

theorem FailsTo.reaches {error : ε} {after : Parser τ σ}
    (hfails : FailsTo grammar bound parser history error after) (frames : List (Frame ε κ)) :
    Reaches grammar ⟨.expression bound, frames, parser⟩ history
      ⟨.answer (.error error) [], frames, after⟩ := by
  cases hfails with
  | misplacedOperand hadvance hroutine => exact reaches_expression hadvance hroutine frames
  | operand hadvance hroutine hrun =>
      exact (reaches_expression hadvance hroutine frames).trans (hrun.delivered _ frames)
  | misplacedOperator hclimbs hbound hadvance hroutine =>
      exact (hclimbs.reaches frames).trans (reaches_operators hbound hadvance hroutine frames)
  | operator hclimbs hbound hadvance hroutine hrun =>
      exact (hclimbs.reaches frames).trans
        ((reaches_operators hbound hadvance hroutine frames).trans (hrun.delivered _ frames))

/-! ## The stages of an expression -/

/-- Where an expression is, when it has the events `history` behind it. -/
inductive Stage (grammar : Grammar σ ε κ) (bound : Precedence) (parser : Parser τ σ) :
    List Event → Machine τ σ ε κ → Prop
  | start : Stage grammar bound parser [] ⟨.expression bound, [], parser⟩
  /-- The routine of the first operand is running. -/
  | operand {middle : Parser τ σ} {start : Token → κ} {history : List Event}
      {own : Machine τ σ ε κ} (hadvance : parser.advance = .ok (parser.lookahead, middle))
      (hroutine : grammar.prefixRoutine middle.state parser.lookahead.kind = some start)
      (hrun : Reaches grammar ⟨.routine (start parser.lookahead), [], middle⟩ history own) :
      Stage grammar bound parser (.started parser.lookahead :: history) (own.above [.operand bound])
  | between {here : Parser τ σ} {history : List Event} {operators : List Operator}
      (hclimbs : ClimbsTo grammar bound parser history operators here) :
      Stage grammar bound parser history
        ⟨.operators (Operator.boundBehind bound operators), [], here⟩
  /-- The routine of an operator is running. -/
  | operator {here middle : Parser τ σ} {start : Token → κ} {history later : List Event}
      {operators : List Operator} {own : Machine τ σ ε κ}
      (hclimbs : ClimbsTo grammar bound parser history operators here)
      (hbound : Operator.boundBehind bound operators <
        grammar.precedence here.state here.lookahead.kind)
      (hadvance : here.advance = .ok (here.lookahead, middle))
      (hroutine : grammar.infixRoutine middle.state here.lookahead.kind = some start)
      (hrun : Reaches grammar ⟨.routine (start here.lookahead), [], middle⟩ later own) :
      Stage grammar bound parser (history ++ .started here.lookahead :: later)
        (own.above [.operator (Operator.boundBehind bound operators)
          (grammar.precedence here.state here.lookahead.kind)])
  | stopped {here : Parser τ σ} {history : List Event} {operators : List Operator}
      (hclimbs : ClimbsTo grammar bound parser history operators here)
      (hbound : grammar.precedence here.state here.lookahead.kind ≤
        Operator.boundBehind bound operators) :
      Stage grammar bound parser history ⟨.answer (.ok .allowed) [], [], here⟩
  | failed {after : Parser τ σ} {history : List Event} {error : ε}
      (hfails : FailsTo grammar bound parser history error after) :
      Stage grammar bound parser history ⟨.answer (.error error) [], [], after⟩

/-- A step leads from one stage to another. -/
theorem Stage.step {machine next : Machine τ σ ε κ}
    (hstage : Stage grammar bound parser history machine)
    (hstep : Machine.step grammar machine = .ok next) :
    Stage grammar bound parser (history ++ (event? grammar machine).toList) next := by
  cases hstage with
  | start =>
      obtain ⟨token, middle, hadvance, rfl⟩ := step_expression hstep
      obtain rfl := Parser.eq_lookahead_of_advance hadvance
      rw [event?_expression hadvance]
      cases hroutine : grammar.prefixRoutine middle.state parser.lookahead.kind with
      | none => exact .failed (.misplacedOperand hadvance hroutine)
      | some start => exact .operand hadvance hroutine .start
  | @operand middle start history own hadvance hroutine hrun =>
      obtain ⟨result, asked, here, rfl⟩ | hopen := answered_or_step grammar own
      · cases hstep
        rw [event?_above, event?_answer, Option.toList_none, List.append_nil]
        cases result with
        | error error => exact .failed (.operand hadvance hroutine hrun)
        | ok chaining => exact .between (.operand hadvance hroutine hrun)
      · obtain ⟨own', hown, rfl⟩ := hopen _ _ hstep
        exact .operand hadvance hroutine (hrun.step hown)
  | @between here history operators hclimbs =>
      obtain ⟨hbound, rfl⟩ | ⟨hbound, token, middle, hadvance, rfl⟩ := step_operators hstep
      · simp only [event?, if_pos hbound, Option.toList_none, List.append_nil]
        exact .stopped hclimbs hbound
      · obtain rfl := Parser.eq_lookahead_of_advance hadvance
        rw [event?_operators hbound hadvance]
        cases hroutine : grammar.infixRoutine middle.state here.lookahead.kind with
        | none => exact .failed (.misplacedOperator hclimbs hbound hadvance hroutine)
        | some start => exact .operator hclimbs hbound hadvance hroutine .start
  | @operator here middle start history later operators own hclimbs hbound hadvance hroutine hrun =>
      obtain ⟨result, asked, back, rfl⟩ | hopen := answered_or_step grammar own
      · cases hstep
        rw [event?_above, event?_answer, Option.toList_none, List.append_nil]
        cases result with
        | error error => exact .failed (.operator hclimbs hbound hadvance hroutine hrun)
        | ok chaining =>
            have hbetween := Stage.between (.operator hclimbs hbound hadvance hroutine hrun)
            rw [Operator.boundBehind_append] at hbetween
            exact hbetween
      · obtain ⟨own', hown, rfl⟩ := hopen _ _ hstep
        rw [List.append_assoc]
        exact .operator hclimbs hbound hadvance hroutine (hrun.step hown)
  | stopped hclimbs hbound =>
      cases hstep
      rw [event?_answer, Option.toList_none, List.append_nil]
      exact .stopped hclimbs hbound
  | failed hfails =>
      cases hstep
      rw [event?_answer, Option.toList_none, List.append_nil]
      exact .failed hfails

/-- An expression is in one of its stages at every moment. -/
theorem Reaches.stage {machine : Machine τ σ ε κ}
    (hreaches : Reaches grammar ⟨.expression bound, [], parser⟩ history machine) :
    Stage grammar bound parser history machine := by
  induction hreaches with
  | start => exact .start
  | step _ hstep ih => exact ih.step hstep

/-- While no routine of its own waits for anything, an expression is about to start, or it has
climbed somewhere, or it has failed. -/
theorem Reaches.unnested {control : Control ε κ} {here : Parser τ σ}
    (hreaches : Reaches grammar ⟨.expression bound, [], parser⟩ history ⟨control, [], here⟩) :
    control = .expression bound ∨
      (∃ operators, ClimbsTo grammar bound parser history operators here ∧
        control = .operators (Operator.boundBehind bound operators)) ∨
      (∃ operators, ClimbsTo grammar bound parser history operators here ∧
        grammar.precedence here.state here.lookahead.kind ≤
          Operator.boundBehind bound operators ∧
        control = .answer (.ok .allowed) []) ∨
      ∃ error, FailsTo grammar bound parser history error here ∧
        control = .answer (.error error) [] := by
  generalize hmachine : (⟨control, [], here⟩ : Machine τ σ ε κ) = machine at hreaches
  cases hreaches.stage with
  | start =>
      cases hmachine
      exact .inl rfl
  | operand => simp [Machine.above] at hmachine
  | between hclimbs =>
      cases hmachine
      exact .inr (.inl ⟨_, hclimbs, rfl⟩)
  | operator => simp [Machine.above] at hmachine
  | stopped hclimbs hbound =>
      cases hmachine
      exact .inr (.inr (.inl ⟨_, hclimbs, hbound, rfl⟩))
  | failed hfails =>
      cases hmachine
      exact .inr (.inr (.inr ⟨_, hfails, rfl⟩))

/-- An expression that stands between two operators has climbed there, and the bound in force is the
one behind its own operators. -/
theorem Reaches.climbsTo {current : Precedence} {here : Parser τ σ}
    (hreaches : Reaches grammar ⟨.expression bound, [], parser⟩ history
      ⟨.operators current, [], here⟩) :
    ∃ operators, ClimbsTo grammar bound parser history operators here ∧
      current = Operator.boundBehind bound operators := by
  obtain ⟨⟨⟩⟩ | ⟨operators, hclimbs, ⟨⟩⟩ | ⟨_, _, _, ⟨⟩⟩ | ⟨_, _, ⟨⟩⟩ := hreaches.unnested
  exact ⟨operators, hclimbs, rfl⟩

/-- An expression that succeeds has climbed to a token that is not above the bound in force. -/
theorem Reaches.climbsTo_of_ok {chaining : Chaining} {asked : List Kind} {after : Parser τ σ}
    (hreaches : Reaches grammar ⟨.expression bound, [], parser⟩ history
      ⟨.answer (.ok chaining) asked, [], after⟩) :
    ∃ operators, ClimbsTo grammar bound parser history operators after ∧
      grammar.precedence after.state after.lookahead.kind ≤
        Operator.boundBehind bound operators := by
  obtain ⟨⟨⟩⟩ | ⟨_, _, ⟨⟩⟩ | ⟨operators, hclimbs, hbound, ⟨⟩⟩ | ⟨_, _, ⟨⟩⟩ := hreaches.unnested
  exact ⟨operators, hclimbs, hbound⟩

theorem Reaches.failsTo {error : ε} {asked : List Kind} {after : Parser τ σ}
    (hreaches : Reaches grammar ⟨.expression bound, [], parser⟩ history
      ⟨.answer (.error error) asked, [], after⟩) :
    FailsTo grammar bound parser history error after := by
  obtain ⟨⟨⟩⟩ | ⟨_, _, ⟨⟩⟩ | ⟨_, _, _, ⟨⟩⟩ | ⟨error, hfails, ⟨⟩⟩ := hreaches.unnested
  exact hfails

end Machine

/-- **An expression takes no operator that binds too loosely.**  Whatever waits for an expression, and
whether it succeeds or not, between two operators it has climbed over the operators that it took
itself.  Each of them binds tighter than the bound of the expression and than all barred operators
before, and so does the token that it takes next, if it takes one.  An expression that succeeds
leaves a token that does not bind above the bound in force. -/
theorem Parser.expression_takes_tighter {τ σ ε κ : Type} [TokenStream τ] (grammar : Grammar σ ε κ)
    (bound : Precedence) (parser : Parser τ σ) :
    (∀ frames history current here,
      Machine.During grammar (.expression bound) frames parser history
        ⟨.operators current, frames, here⟩ →
      ∃ operators, Machine.ClimbsTo grammar bound parser history operators here ∧
        current = Operator.boundBehind bound operators ∧
        (∀ earlier operator later, operators = earlier ++ operator :: later →
          Operator.Clears bound earlier operator.precedence) ∧
        (Machine.event? grammar ⟨.operators current, frames, here⟩ ≠ none →
          Operator.Clears bound operators
            (grammar.precedence here.state here.lookahead.kind))) ∧
    (∀ frames history chaining asked after,
      Machine.During grammar (.expression bound) frames parser history
        ⟨.answer (.ok chaining) asked, frames, after⟩ →
      ∃ operators, Machine.ClimbsTo grammar bound parser history operators after ∧
        grammar.precedence after.state after.lookahead.kind ≤
          Operator.boundBehind bound operators) ∧
    ∀ fuel after, parser.expression grammar fuel bound = .ok (.ok (), after) →
      ∃ history operators, Machine.ClimbsTo grammar bound parser history operators after ∧
        grammar.precedence after.state after.lookahead.kind ≤
          Operator.boundBehind bound operators := by
  refine ⟨?_, fun _ _ _ _ _ hduring => hduring.reaches.climbsTo_of_ok, ?_⟩
  · intro frames history current here hduring
    obtain ⟨operators, hclimbs, rfl⟩ := hduring.reaches.climbsTo
    refine ⟨operators, hclimbs, rfl, fun _ _ _ => hclimbs.clears_of_append, ?_⟩
    intro htaken
    apply hclimbs.clears
    rw [← Int32.not_le]
    intro hstop
    exact htaken (if_pos hstop)
  · intro fuel after hparse
    obtain ⟨history, answer, asked, hanswer, hreaches⟩ := Parser.reaches_of_expression hparse
    cases answer with
    | error error => cases hanswer
    | ok chaining => exact ⟨history, hreaches.climbsTo_of_ok⟩

/-- Marks that all bind as tightly as can be. -/
def Marks.tightest : Grammar Unit SyntaxError Chaining :=
  { Marks.grammar with precedence := fun _ kind => if kind = word then 0 else Int32.maxValue }

/-- There is no bound above the tilde, but the bang behind it is left all the same. -/
theorem Parser.expression_takes_tighter_tightest :
    Marks.input.expression Marks.tightest 10 0 = .ok (.ok (), Marks.atBang) ∧
      ∃ history operators,
        Machine.ClimbsTo Marks.tightest 0 Marks.input history operators Marks.atBang ∧
        Marks.tightest.precedence Marks.atBang.state Marks.atBang.lookahead.kind ≤
          Operator.boundBehind 0 operators :=
  ⟨rfl, (Parser.expression_takes_tighter Marks.tightest 0 Marks.input).2.2 10 Marks.atBang rfl⟩

end FrontEnd.Parse
