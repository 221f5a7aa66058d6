import FrontEnd.Proofs.Operators.Grammar
import FrontEnd.Proofs.Parse.Consumption
import FrontEnd.Proofs.Parse.Evaluation

/-!
# Precedence climbing as a relation

`Climbs table phase before tree after` says that precedence climbing reads `tree` between the two
inputs: from the beginning of an expression, or with a finished left operand in hand.  It has one
rule for each part that a token can have, and no stack.  `expression_ok_iff` shows that it is what
the engine does with the table's grammar, whatever is built: the engine parses an expression
exactly if the expression can be climbed, and then it has pushed what is built for its tree and
nothing else.
-/

namespace FrontEnd.Operators

open FrontEnd.Parse (Precedence Chaining Parser Machine Control Frame Answer)

/-- Where precedence climbing is in an expression. -/
inductive Phase
  /-- At its beginning. -/
  | expression (bound : Precedence)
  /-- Behind the finished operand `left`. -/
  | operators (bound : Precedence) (left : Tree)

variable {τ : Type} [TokenStream τ]

/-- Precedence climbing by the rules of an operator table. -/
inductive Climbs (table : Table) : Phase → Parser τ Unit → Tree → Parser τ Unit → Prop
  | atom {bound : Precedence} {before middle after : Parser τ Unit} {token : Token} {tree : Tree}
      (hadvance : before.advance = .ok (token, middle))
      (hopening : table.opening token.kind = some .atom)
      (hrest : Climbs table (.operators bound (.atom token)) middle tree after) :
      Climbs table (.expression bound) before tree after
  | prefixed {bound inner : Precedence} {before middle behind after : Parser τ Unit}
      {token : Token} {operand tree : Tree}
      (hadvance : before.advance = .ok (token, middle))
      (hopening : table.opening token.kind = some (.operator inner))
      (hoperand : Climbs table (.expression inner) middle operand behind)
      (hrest : Climbs table (.operators bound (.prefixed token operand)) behind tree after) :
      Climbs table (.expression bound) before tree after
  | group {bound : Precedence} {before middle behind outside after : Parser τ Unit}
      {token closing : Token} {body tree : Tree}
      (hadvance : before.advance = .ok (token, middle))
      (hopening : table.opening token.kind = some (.group closing.kind))
      (hbody : Climbs table (.expression 0) middle body behind)
      (hclose : behind.advance = .ok (closing, outside))
      (hrest : Climbs table (.operators bound (.group token body closing)) outside tree after) :
      Climbs table (.expression bound) before tree after
  | stop {bound : Precedence} {before : Parser τ Unit} {left : Tree}
      (hbound : table.precedence before.lookahead.kind ≤ bound) :
      Climbs table (.operators bound left) before left before
  | suffixed {bound : Precedence} {before middle after : Parser τ Unit} {token : Token}
      {left tree : Tree}
      (hadvance : before.advance = .ok (token, middle))
      (hbound : bound < table.precedence token.kind)
      (hcontinuation : table.continuation token.kind = some .suffix)
      (hrest : Climbs table (.operators bound (.suffixed left token)) middle tree after) :
      Climbs table (.operators bound left) before tree after
  | binary {bound : Precedence} {before middle behind after : Parser τ Unit} {token : Token}
      {associativity : Associativity} {left right tree : Tree}
      (hadvance : before.advance = .ok (token, middle))
      (hbound : bound < table.precedence token.kind)
      (hcontinuation : table.continuation token.kind = some (.binary associativity))
      (hright : Climbs table
        (.expression (associativity.operandBound (table.precedence token.kind))) middle right
        behind)
      (hrest : Climbs table
        (.operators
          (associativity.chaining.boundAfter (table.precedence token.kind) bound)
          (.binary left token right)) behind tree after) :
      Climbs table (.operators bound left) before tree after

variable {α : Type}

namespace Phase

/-- The task of the engine in a phase. -/
def control : Phase → Control FrontEnd.Parse.SyntaxError (Routine α)
  | expression bound => .expression bound
  | operators bound _ => .operators bound

/-- What is on the stack in a phase, above the given entries. -/
def stack (builder : Builder α) (below : List α) : Phase → List α
  | expression _ => below
  | operators _ left => builder.build left :: below

end Phase

/-! ## What is climbed, the engine parses -/

section Routines

variable {table : Table} {builder : Builder α} {input middle : Parser τ Unit} {stack : List α}
  {result : Answer FrontEnd.Parse.SyntaxError} {asked : List Kind} {after : Parser τ (List α)}

private theorem evaluates_finish (chaining : Chaining) (parser : Parser τ (List α)) :
    Machine.Evaluates (table.grammar builder) (.routine (.finish chaining)) parser (.ok chaining) []
      parser :=
  .pass rfl (.answer _ _ _)

private theorem evaluates_change {act : List α → List α} {next : Routine α}
    (hnext : Machine.Evaluates (table.grammar builder) (.routine next)
      (input.withState (act stack)) result asked after) :
    Machine.Evaluates (table.grammar builder) (.routine (.change act next))
      (input.withState stack) result asked after :=
  .pass rfl hnext

private theorem evaluates_operand {bound : Precedence} {next : Routine α} {entry : α}
    (hoperand : Machine.Evaluates (table.grammar builder) (.expression bound)
      (input.withState stack) (.ok .allowed) [] (middle.withState (entry :: stack)))
    (hnext : Machine.Evaluates (table.grammar builder) (.routine next)
      (middle.withState (entry :: stack)) result asked after) :
    Machine.Evaluates (table.grammar builder) (.routine (.operand bound next))
      (input.withState stack) result asked after :=
  .call rfl hoperand hnext

private theorem evaluates_close {token opening : Token} {next : Token → Routine α}
    (hadvance : input.advance = .ok (token, middle))
    (hnext : Machine.Evaluates (table.grammar builder) (.routine (next token))
      (middle.withState stack) result asked after) :
    Machine.Evaluates (table.grammar builder)
      (.routine (.look fun last => .close token.kind opening (next last)))
      (input.withState stack) result asked after := by
  have htoken : token = input.lookahead := Parser.eq_lookahead_of_advance hadvance
  have hexpect : (input.withState stack).expect token.kind =
      .ok (true, middle.withState stack) := by
    simp only [Parser.expect, Parser.lookahead_withState, ← htoken, if_true,
      Parser.advance_withState_ok hadvance]
  have hclose : Machine.step (table.grammar builder)
      ⟨.routine (.close token.kind opening (next input.lookahead)), [], input.withState stack⟩ =
        .ok ⟨.routine (next token), [], middle.withState stack⟩ := by
    simp only [Machine.step, Table.grammar, Routine.request, Machine.serve, hexpect, if_true,
      ← htoken]
  exact .pass rfl (.pass hclose hnext)

private theorem prefixRoutine_eq {kind : Kind} {opening : Opening} (state : List α)
    (hopening : table.opening kind = some opening) :
    (table.grammar builder).prefixRoutine state kind =
      some fun token => opening.routine builder token := by
  simp only [Table.grammar, hopening, Option.map_some]

private theorem infixRoutine_eq {kind : Kind} {continuation : Continuation} (state : List α)
    (hcontinuation : table.continuation kind = some continuation) :
    (table.grammar builder).infixRoutine state kind =
      some fun token => continuation.routine builder (table.precedence token.kind) token := by
  simp only [Table.grammar, hcontinuation, Option.map_some]

private theorem evaluates_expression {bound : Precedence} {token : Token} {opening : Opening}
    {back : Parser τ (List α)} (hadvance : input.advance = .ok (token, middle))
    (hopening : table.opening token.kind = some opening)
    (hroutine : Machine.Evaluates (table.grammar builder)
      (.routine (opening.routine builder token)) (middle.withState stack) (.ok .allowed) [] back)
    (hrest : Machine.Evaluates (table.grammar builder) (.operators bound) back result asked
      after) :
    Machine.Evaluates (table.grammar builder) (.expression bound) (input.withState stack) result
      asked after :=
  .expression (Parser.advance_withState_ok hadvance stack) (prefixRoutine_eq _ hopening) hroutine
    hrest

private theorem evaluates_operator {bound : Precedence} {token : Token}
    {continuation : Continuation} {chaining : Chaining} {back : Parser τ (List α)}
    (hadvance : input.advance = .ok (token, middle))
    (hbound : bound < table.precedence token.kind)
    (hcontinuation : table.continuation token.kind = some continuation)
    (hroutine : Machine.Evaluates (table.grammar builder)
      (.routine (continuation.routine builder (table.precedence token.kind) token))
      (middle.withState stack) (.ok chaining) [] back)
    (hrest : Machine.Evaluates (table.grammar builder)
      (.operators (chaining.boundAfter (table.precedence token.kind) bound)) back result asked
      after) :
    Machine.Evaluates (table.grammar builder) (.operators bound) (input.withState stack) result
      asked after := by
  have htoken : token = input.lookahead := Parser.eq_lookahead_of_advance hadvance
  rw [htoken] at hbound hrest
  exact .operator hbound (Parser.advance_withState_ok hadvance stack)
    (infixRoutine_eq _ hcontinuation) hroutine hrest

end Routines

/-- What can be climbed, the engine parses: it replaces what is on the stack in the phase by what
is built for the tree. -/
theorem evaluates_of_climbs {table : Table} (builder : Builder α) {phase : Phase}
    {before after : Parser τ Unit} {tree : Tree} (hclimbs : Climbs table phase before tree after) :
    ∀ below : List α, Machine.Evaluates (table.grammar builder) phase.control
      (before.withState (phase.stack builder below)) (.ok .allowed) []
      (after.withState (builder.build tree :: below)) := by
  induction hclimbs with
  | atom hadvance hopening _ ihRest =>
      intro below
      exact evaluates_expression hadvance hopening (evaluates_change (evaluates_finish _ _))
        (ihRest below)
  | prefixed hadvance hopening _ _ ihOperand ihRest =>
      intro below
      exact evaluates_expression hadvance hopening
        (evaluates_operand (ihOperand below) (evaluates_change (evaluates_finish _ _)))
        (ihRest below)
  | group hadvance hopening _ hclose _ ihBody ihRest =>
      intro below
      exact evaluates_expression hadvance hopening
        (evaluates_operand (ihBody below)
          (evaluates_close hclose (evaluates_change (evaluates_finish _ _))))
        (ihRest below)
  | stop hbound =>
      intro below
      exact .stop hbound
  | suffixed hadvance hbound hcontinuation _ ihRest =>
      intro below
      exact evaluates_operator hadvance hbound hcontinuation
        (evaluates_change (evaluates_finish _ _)) (ihRest below)
  | binary hadvance hbound hcontinuation _ _ ihRight ihRest =>
      intro below
      exact evaluates_operator hadvance hbound hcontinuation
        (evaluates_operand (ihRight _) (evaluates_change (evaluates_finish _ _))) (ihRest below)

theorem expression_of_climbs {table : Table} (builder : Builder α) {bound : Precedence}
    {before after : Parser τ Unit} {tree : Tree}
    (hclimbs : Climbs table (.expression bound) before tree after) (below : List α) :
    ∃ cost, ∀ fuel, cost ≤ fuel →
      (before.withState below).expression (table.grammar builder) fuel bound =
        .ok (.ok (), after.withState (builder.build tree :: below)) :=
  Parser.expression_of_evaluates (evaluates_of_climbs builder hclimbs below)

/-! ## What the engine parses can be climbed -/

/-- What a routine does to the parser if it returns, in terms of climbing. -/
private def Performs (table : Table) (builder : Builder α) :
    Routine α → Parser τ (List α) → Chaining → Parser τ (List α) → Prop
  | .finish given, parser, chaining, after => chaining = given ∧ after = parser
  | .fail _, _, _, _ => False
  | .change act next, parser, chaining, after =>
    Performs table builder next (parser.input.withState (act parser.state)) chaining after
  | .operand bound next, parser, chaining, after =>
    ∃ tree middle, Climbs table (.expression bound) parser.input tree middle ∧
      Performs table builder next (middle.withState (builder.build tree :: parser.state)) chaining
        after
  | .look next, parser, chaining, after =>
    Performs table builder (next parser.lookahead) parser chaining after
  | .close closing _ next, parser, chaining, after =>
    parser.lookahead.kind = closing ∧
      ∃ middle, parser.input.advance = .ok (parser.lookahead, middle) ∧
        Performs table builder next (middle.withState parser.state) chaining after

/-- What a task does to the parser if it ends without an error, in terms of climbing. -/
private def Meets (table : Table) (builder : Builder α)
    (task : Control FrontEnd.Parse.SyntaxError (Routine α)) (parser : Parser τ (List α))
    (chaining : Chaining) (after : Parser τ (List α)) : Prop :=
  match task with
  | .routine routine => Performs table builder routine parser chaining after
  | .expression bound =>
    ∃ tree, Climbs table (.expression bound) parser.input tree after.input ∧
      after.state = builder.build tree :: parser.state
  | .operators bound =>
    ∀ left below, parser.state = builder.build left :: below →
      ∃ tree, Climbs table (.operators bound left) parser.input tree after.input ∧
        after.state = builder.build tree :: below
  | .answer result _ => result = .ok chaining ∧ after = parser
  | .statement => True
  | .statements _ _ => True

section Meets

variable {table : Table} {builder : Builder α}
  {task next : Control FrontEnd.Parse.SyntaxError (Routine α)}
  {parser middle back after : Parser τ (List α)} {chaining : Chaining}

/-- A prefix routine that returns, and the operators behind it, make an expression. -/
private theorem climbs_of_opening {opening : Opening} {token : Token} {bound : Precedence}
    {given : Chaining} (hadvance : parser.advance = .ok (token, middle))
    (hopening : table.opening token.kind = some opening)
    (hroutine : Performs table builder (opening.routine builder token) middle given back)
    (hrest : Meets table builder (.operators bound) back chaining after) :
    Meets table builder (.expression bound) parser chaining after := by
  obtain ⟨hinput, hstate⟩ := Parser.input_advance_ok hadvance
  cases opening with
  | atom =>
      obtain ⟨-, rfl⟩ := hroutine
      obtain ⟨tree, hclimbs, hstack⟩ := hrest (.atom token) parser.state (by simp [← hstate]; rfl)
      exact ⟨tree, .atom hinput hopening hclimbs, hstack⟩
  | operator inner =>
      obtain ⟨operand, behind, hoperand, -, rfl⟩ := hroutine
      obtain ⟨tree, hclimbs, hstack⟩ :=
        hrest (.prefixed token operand) parser.state (by simp [← hstate]; rfl)
      exact ⟨tree, .prefixed hinput hopening hoperand hclimbs, hstack⟩
  | group closing =>
      obtain ⟨body, behind, hbody, rfl, outside, hclose, -, rfl⟩ := hroutine
      obtain ⟨tree, hclimbs, hstack⟩ :=
        hrest (.group token body behind.lookahead) parser.state (by simp [← hstate]; rfl)
      exact ⟨tree, .group hinput hopening hbody hclose hclimbs, hstack⟩

/-- An infix routine that returns, and the operators behind it, go on with an expression. -/
private theorem climbs_of_continuation {continuation : Continuation} {token : Token}
    {bound : Precedence} {given : Chaining} (hadvance : parser.advance = .ok (token, middle))
    (hbound : bound < table.precedence token.kind)
    (hcontinuation : table.continuation token.kind = some continuation)
    (hroutine : Performs table builder
      (continuation.routine builder (table.precedence token.kind) token) middle given back)
    (hrest : Meets table builder
      (.operators (given.boundAfter (table.precedence token.kind) bound)) back chaining after) :
    Meets table builder (.operators bound) parser chaining after := by
  intro left below hbelow
  obtain ⟨hinput, hstate⟩ := Parser.input_advance_ok hadvance
  cases continuation with
  | suffix =>
      obtain ⟨rfl, rfl⟩ := hroutine
      obtain ⟨tree, hclimbs, hstack⟩ :=
        hrest (.suffixed left token) below (by simp [hstate, hbelow]; rfl)
      exact ⟨tree, .suffixed hinput hbound hcontinuation hclimbs, hstack⟩
  | binary associativity =>
      obtain ⟨right, behind, hright, rfl, rfl⟩ := hroutine
      obtain ⟨tree, hclimbs, hstack⟩ :=
        hrest (.binary left token right) below (by simp [hstate, hbelow]; rfl)
      exact ⟨tree, .binary hinput hbound hcontinuation hright hclimbs, hstack⟩

private theorem meets_of_pass
    (hstep : Machine.step (table.grammar builder) ⟨task, [], parser⟩ = .ok ⟨next, [], middle⟩)
    (hnext : Meets table builder next middle chaining after) :
    Meets table builder task parser chaining after := by
  cases task with
  | routine routine =>
      cases routine with
      | finish given =>
          cases hstep
          obtain ⟨hresult, rfl⟩ := hnext
          exact ⟨(Except.ok.inj hresult).symm, rfl⟩
      | fail error =>
          cases hstep
          cases hnext.1
      | change act rest => cases hstep; exact hnext
      | operand bound rest => cases hstep
      | look rest => cases hstep; exact hnext
      | close closing opening rest =>
          simp only [Machine.step, Table.grammar, Routine.request, Machine.serve,
            Parser.expect] at hstep
          by_cases hkind : parser.lookahead.kind = closing
          · rw [if_pos hkind] at hstep
            cases hadvance : parser.advance with
            | error cause => simp [hadvance] at hstep
            | ok advanced =>
                obtain ⟨token, outside⟩ := advanced
                obtain ⟨hinput, hstate⟩ := Parser.input_advance_ok hadvance
                obtain rfl := Parser.eq_lookahead_of_advance hadvance
                simp only [hadvance, if_true, Except.ok.injEq] at hstep
                cases hstep
                refine ⟨hkind, middle.input, hinput, ?_⟩
                rw [← hstate]
                exact hnext
          -- Without the closing token the routine goes on as a failure, which cannot return.
          · rw [if_neg hkind] at hstep
            cases hstep
            exact False.elim hnext
  | expression bound =>
      obtain ⟨token, advanced, hadvance, hdispatch⟩ := Machine.step_expression hstep
      cases hroutine : (table.grammar builder).prefixRoutine advanced.state token.kind with
      | none =>
          simp only [hroutine, Machine.dispatch] at hdispatch
          cases hdispatch
          cases hnext.1
      | some start => simp [hroutine, Machine.dispatch] at hdispatch
  | operators bound =>
      rcases Machine.step_operators hstep with ⟨hbound, hdone⟩ | ⟨-, token, advanced, -, hdispatch⟩
      · cases hdone
        intro left below hbelow
        obtain ⟨-, rfl⟩ := hnext
        exact ⟨left, .stop hbound, hbelow⟩
      · cases hroutine : (table.grammar builder).infixRoutine advanced.state token.kind with
        | none =>
            simp only [hroutine, Machine.dispatch] at hdispatch
            cases hdispatch
            cases hnext.1
        | some start => simp [hroutine, Machine.dispatch] at hdispatch
  | answer result asked => cases hstep; exact hnext
  | statement => trivial
  | statements accept asked => trivial

private theorem meets_of_call {callee : Control FrontEnd.Parse.SyntaxError (Routine α)}
    {frame : Frame FrontEnd.Parse.SyntaxError (Routine α)}
    {answer : Answer FrontEnd.Parse.SyntaxError} {kinds : List Kind}
    (hstep : Machine.step (table.grammar builder) ⟨task, [], parser⟩ =
      .ok ⟨callee, [frame], middle⟩)
    (hcallee : ∀ given, answer = .ok given → Meets table builder callee middle given back)
    (hrest : Meets table builder (Machine.deliver answer kinds frame) back chaining after) :
    Meets table builder task parser chaining after := by
  cases task with
  | routine routine =>
      cases routine with
      | operand bound rest =>
          cases hstep
          cases answer with
          | error error => exact False.elim hrest
          | ok given =>
              obtain ⟨tree, hclimbs, hstack⟩ := hcallee given rfl
              refine ⟨tree, back.input, hclimbs, ?_⟩
              rw [← hstack]
              exact hrest
      | close closing opening rest =>
          simp only [Machine.step, Table.grammar, Routine.request, Machine.serve] at hstep
          cases hexpect : parser.expect closing with
          | error cause => simp [hexpect] at hstep
          | ok expected => simp [hexpect] at hstep
      | _ => cases hstep
  | expression bound =>
      obtain ⟨token, advanced, hadvance, hdispatch⟩ := Machine.step_expression hstep
      cases hopening : table.opening token.kind with
      | none =>
          have hroutine : (table.grammar builder).prefixRoutine advanced.state token.kind = none := by
            simp only [Table.grammar, hopening, Option.map_none]
          simp [hroutine, Machine.dispatch] at hdispatch
      | some opening =>
          rw [prefixRoutine_eq _ hopening] at hdispatch
          cases hdispatch
          cases answer with
          | error error => cases hrest.1
          | ok given => exact climbs_of_opening hadvance hopening (hcallee given rfl) hrest
  | operators bound =>
      rcases Machine.step_operators hstep with ⟨-, hdone⟩ | ⟨hbound, token, advanced, hadvance,
        hdispatch⟩
      · cases hdone
      · obtain rfl := Parser.eq_lookahead_of_advance hadvance
        cases hcontinuation : table.continuation parser.lookahead.kind with
        | none =>
            have hroutine : (table.grammar builder).infixRoutine advanced.state
                parser.lookahead.kind = none := by
              simp only [Table.grammar, hcontinuation, Option.map_none]
            simp [hroutine, Machine.dispatch] at hdispatch
        | some continuation =>
            rw [infixRoutine_eq _ hcontinuation] at hdispatch
            cases hdispatch
            cases answer with
            | error error => cases hrest.1
            | ok given =>
                exact climbs_of_continuation hadvance hbound hcontinuation (hcallee given rfl) hrest
  | answer result asked => cases hstep
  | statement => trivial
  | statements accept asked => trivial

/-- A task that the engine carries out without an error does what climbing says. -/
private theorem meets_of_evaluates {result : Answer FrontEnd.Parse.SyntaxError} {asked : List Kind}
    (hevaluates : Machine.Evaluates (table.grammar builder) task parser result asked after) :
    ∀ chaining, result = .ok chaining → Meets table builder task parser chaining after := by
  induction hevaluates with
  | answer result asked parser => exact fun chaining hresult => ⟨hresult, rfl⟩
  | pass hstep _ ih => exact fun chaining hresult => meets_of_pass hstep (ih chaining hresult)
  | call hstep _ _ ihCallee ihRest =>
      exact fun chaining hresult => meets_of_call hstep ihCallee (ihRest chaining hresult)

end Meets

/-! ## Both together -/

/-- The engine parses an expression with the grammar of a table exactly if the expression can be
climbed; it then has pushed what is built for the tree, and nothing else. -/
theorem expression_ok_iff {table : Table} {builder : Builder α} {parser after : Parser τ (List α)}
    {bound : Precedence} :
    (∃ fuel, parser.expression (table.grammar builder) fuel bound = .ok (.ok (), after)) ↔
      ∃ tree, Climbs table (.expression bound) parser.input tree after.input ∧
        after.state = builder.build tree :: parser.state := by
  constructor
  · rintro ⟨fuel, hparse⟩
    obtain ⟨chaining, asked, hevaluates⟩ := Parser.evaluates_of_expression hparse
    exact meets_of_evaluates hevaluates chaining rfl
  · rintro ⟨tree, hclimbs, hstate⟩
    obtain ⟨cost, hcost⟩ := expression_of_climbs builder hclimbs parser.state
    refine ⟨cost, ?_⟩
    rw [← Parser.withState_input after, hstate]
    exact hcost cost (Nat.le_refl cost)

end FrontEnd.Operators
