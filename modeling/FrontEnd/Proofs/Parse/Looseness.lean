import FrontEnd.Proofs.Parse.Tightness

/-!
# Expressions with a looser bound

The bound of an expression decides only where it stops.  An expression with a looser bound goes the
same way, through the same tokens and the same author's states, up to the place where the tighter
bound stops.

Behind a barred operator the bound does not matter any more, so the looser expression stops there
too.  Otherwise it goes on from there with its own bound.
-/

namespace FrontEnd.Parse

/-! ## The bound in force -/

namespace Operator

variable {bound tighter : Precedence} {operators : List Operator}

theorem boundBehind_mono (hle : bound ≤ tighter) (operators : List Operator) :
    boundBehind bound operators ≤ boundBehind tighter operators := by
  induction operators generalizing bound tighter with
  | nil => exact hle
  | cons operator operators ih =>
      unfold boundBehind
      apply ih
      cases operator.chaining with
      | allowed => exact hle
      | barred => exact Int32.le_refl _

/-- What lies above a tighter bound in force lies above a looser one. -/
theorem boundBehind_lt {precedence : Precedence} (hle : bound ≤ tighter)
    (hbound : boundBehind tighter operators < precedence) :
    boundBehind bound operators < precedence :=
  Int32.lt_of_le_of_lt (boundBehind_mono hle operators) hbound

/-- A barred operator makes the bound before it irrelevant. -/
theorem boundBehind_eq_of_barred (bound tighter : Precedence)
    (hbarred : ∃ operator ∈ operators, operator.chaining = .barred) :
    boundBehind bound operators = boundBehind tighter operators := by
  induction operators generalizing bound tighter with
  | nil => simp at hbarred
  | cons operator operators ih =>
      unfold boundBehind
      cases hchaining : operator.chaining with
      | allowed =>
          obtain ⟨other, hmem, hother⟩ := hbarred
          rcases List.mem_cons.mp hmem with rfl | hmem
          · rw [hchaining] at hother
            cases hother
          · exact ih _ _ ⟨other, hmem, hother⟩
      | barred => rfl

theorem boundBehind_eq_of_allowed (bound : Precedence)
    (hallowed : ∀ operator ∈ operators, operator.chaining ≠ .barred) :
    boundBehind bound operators = bound := by
  induction operators with
  | nil => rfl
  | cons operator operators ih =>
      rw [List.forall_mem_cons] at hallowed
      unfold boundBehind
      cases hchaining : operator.chaining with
      | allowed => exact ih hallowed.2
      | barred => exact absurd hchaining hallowed.1

end Operator

/-! ## Going the same way -/

namespace Machine

variable {τ σ ε κ : Type} [TokenStream τ] {grammar : Grammar σ ε κ} {bound tighter : Precedence}
  {parser here after : Parser τ σ} {history : List Event} {operators : List Operator}

/-- An expression takes every operator at a looser bound that it takes at a tighter one. -/
theorem ClimbsTo.loosen (hclimbs : ClimbsTo grammar tighter parser history operators here)
    (hle : bound ≤ tighter) : ClimbsTo grammar bound parser history operators here := by
  induction hclimbs with
  | operand hadvance hroutine hrun => exact .operand hadvance hroutine hrun
  | operator _ hbound hadvance hroutine hrun ih =>
      exact .operator ih (Operator.boundBehind_lt hle hbound) hadvance hroutine hrun

theorem FailsTo.loosen {error : ε} (hfails : FailsTo grammar tighter parser history error after)
    (hle : bound ≤ tighter) : FailsTo grammar bound parser history error after := by
  cases hfails with
  | misplacedOperand hadvance hroutine => exact .misplacedOperand hadvance hroutine
  | operand hadvance hroutine hrun => exact .operand hadvance hroutine hrun
  | misplacedOperator hclimbs hbound hadvance hroutine =>
      have hlower := Operator.boundBehind_lt hle hbound
      exact .misplacedOperator (hclimbs.loosen hle) hlower hadvance hroutine
  | operator hclimbs hbound hadvance hroutine hrun =>
      have hlower := Operator.boundBehind_lt hle hbound
      exact .operator (hclimbs.loosen hle) hlower hadvance hroutine hrun

/-- At every stage, a looser bound has led to the same place with the same events. -/
theorem Stage.loosen {machine : Machine τ σ ε κ}
    (hstage : Stage grammar tighter parser history machine) (hle : bound ≤ tighter) :
    ∃ moment, Reaches grammar ⟨.expression bound, [], parser⟩ history moment ∧
      moment.parser = machine.parser := by
  cases hstage with
  | start => exact ⟨_, .start, rfl⟩
  | operand hadvance hroutine hrun =>
      exact ⟨_, (reaches_expression hadvance hroutine []).trans (hrun.above [.operand bound]), rfl⟩
  | between hclimbs => exact ⟨_, (hclimbs.loosen hle).reaches [], rfl⟩
  | operator hclimbs hbound hadvance hroutine hrun =>
      have htaken :=
        reaches_operators (Operator.boundBehind_lt hle hbound) hadvance hroutine []
      exact ⟨_, ((hclimbs.loosen hle).reaches []).trans (htaken.trans (hrun.above [_])), rfl⟩
  | stopped hclimbs _ => exact ⟨_, (hclimbs.loosen hle).reaches [], rfl⟩
  | failed hfails => exact ⟨_, (hfails.loosen hle).reaches [], rfl⟩

/-- Where an expression stands in front of a token that is not above the bound in force, it
ends. -/
theorem ClimbsTo.answers (hclimbs : ClimbsTo grammar bound parser history operators after)
    (hbound : grammar.precedence after.state after.lookahead.kind ≤
      Operator.boundBehind bound operators) :
    Reaches grammar ⟨.expression bound, [], parser⟩ history
      ⟨.answer (.ok .allowed) [], [], after⟩ := by
  have hstep : step grammar ⟨.operators (Operator.boundBehind bound operators), [], after⟩ =
      .ok ⟨.answer (.ok .allowed) [], [], after⟩ := if_pos hbound
  have hends := (hclimbs.reaches []).step hstep
  simp only [event?, if_pos hbound, Option.toList_none, List.append_nil] at hends
  exact hends

end Machine

/-- **A looser bound goes on where a tighter one stops.**  If an expression fails at the tighter
bound, it fails at the looser one in the same way.  If it succeeds behind a barred operator of its
own, it succeeds there at the looser bound too; and if it took no barred operator, then at the looser
bound it is the loop over the operators, resumed from there.  In any case, the tighter expression
goes only through places where the looser one comes through as well, so what it has consumed is at
any time a beginning of what the looser one consumes. -/
theorem Parser.expression_looser {τ σ ε κ : Type} [TokenStream τ] (grammar : Grammar σ ε κ)
    (parser : Parser τ σ) {bound tighter : Precedence} (hle : bound ≤ tighter) :
    (∀ fuel error after,
      parser.expression grammar fuel tighter = .ok (.error error, after) →
      ∃ cost, ∀ fuel, cost ≤ fuel →
        parser.expression grammar fuel bound = .ok (.error error, after)) ∧
    (∀ fuel after, parser.expression grammar fuel tighter = .ok (.ok (), after) →
      ∃ history operators, Machine.ClimbsTo grammar tighter parser history operators after ∧
        grammar.precedence after.state after.lookahead.kind ≤
          Operator.boundBehind tighter operators ∧
        ((∃ operator ∈ operators, operator.chaining = .barred) →
          ∃ cost, ∀ fuel, cost ≤ fuel →
            parser.expression grammar fuel bound = .ok (.ok (), after)) ∧
        ((∀ operator ∈ operators, operator.chaining ≠ .barred) →
          ∃ cost, ∀ fuel, parser.perform grammar (fuel + cost) (.expression bound) =
            after.perform grammar fuel (.operators bound))) ∧
    ∀ history machine,
      Machine.Reaches grammar ⟨.expression tighter, [], parser⟩ history machine →
      (∃ moment, Machine.Reaches grammar ⟨.expression bound, [], parser⟩ history moment ∧
        moment.parser = machine.parser) ∧
      ∀ whole result asked after,
        Machine.Ends grammar ⟨.expression bound, [], parser⟩ whole result asked after →
        history <+: whole := by
  refine ⟨?_, ?_, ?_⟩
  · intro fuel error after hparse
    obtain ⟨history, answer, asked, hanswer, hreaches⟩ := Parser.reaches_of_expression hparse
    cases answer with
    | ok chaining => cases hanswer
    | error error' =>
        cases hanswer
        exact Parser.expression_of_reaches ((hreaches.failsTo.loosen hle).reaches [])
  · intro fuel after hparse
    obtain ⟨history, answer, asked, hanswer, hreaches⟩ := Parser.reaches_of_expression hparse
    cases answer with
    | error error => cases hanswer
    | ok chaining =>
        obtain ⟨operators, hclimbs, hbound⟩ := hreaches.climbsTo_of_ok
        refine ⟨history, operators, hclimbs, hbound, ?_, ?_⟩
        · intro hbarred
          rw [Operator.boundBehind_eq_of_barred tighter bound hbarred] at hbound
          exact Parser.expression_of_reaches ((hclimbs.loosen hle).answers hbound)
        · intro hallowed
          have hresumed := (hclimbs.loosen hle).reaches []
          rw [Operator.boundBehind_eq_of_allowed bound hallowed] at hresumed
          obtain ⟨cost, hcost⟩ := Machine.run_of_reaches hresumed
          exact ⟨cost, fun fuel => by simp only [Parser.perform, hcost fuel]⟩
  · intro history machine hreaches
    obtain ⟨moment, hmoment, hparser⟩ := hreaches.stage.loosen hle
    exact ⟨⟨moment, hmoment, hparser⟩, fun _ _ _ _ hends => hends.whole history moment hmoment⟩

/-- A bang behind a tilde is left at every bound below the tilde. -/
theorem Parser.expression_looser_marks :
    (0 : Precedence) ≤ 1 ∧
      Marks.input.expression Marks.grammar 10 1 = .ok (.ok (), Marks.atBang) ∧
      ∃ cost, ∀ fuel, cost ≤ fuel →
        Marks.input.expression Marks.grammar fuel 0 = .ok (.ok (), Marks.atBang) := by
  have hle : (0 : Precedence) ≤ 1 := by decide
  have hparse : Marks.input.expression Marks.grammar 10 1 = .ok (.ok (), Marks.atBang) := rfl
  obtain ⟨history, operators, -, hbound, hbarred, -⟩ :=
    (Parser.expression_looser Marks.grammar Marks.input hle).2.1 10 Marks.atBang hparse
  refine ⟨hle, hparse, hbarred (Classical.byContradiction fun hnone => ?_)⟩
  -- Without a barred operator the bang would have been taken.
  rw [Operator.boundBehind_eq_of_allowed 1
    fun operator hmem hchaining => hnone ⟨operator, hmem, hchaining⟩] at hbound
  exact absurd hbound (by decide)

end FrontEnd.Parse
