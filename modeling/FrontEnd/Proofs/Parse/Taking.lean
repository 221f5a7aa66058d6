import FrontEnd.Parse.SyntaxError
import FrontEnd.Proofs.Parse.Consumption
import FrontEnd.Proofs.Parse.Evaluation
import FrontEnd.Proofs.Parse.Precedence

/-!
# The operators that an expression takes

Behind its first operand an expression takes one operator after the other, and the routine of each
may parse whatever it likes before it returns.  `Machine.Takes` follows the operators of one
expression through all this: those that are taken in the expressions nested in it do not count.

A barred operator replaces the bound of the expression.  `Operator.boundBehind` is the bound in
force behind some operators, and an expression that succeeds has come to a token that does not bind
above it (`Machine.evaluates_operators_iff`).  The bound behind a barred operator is one above its
precedence, and the next operator must bind above the bound: an operator exactly one level tighter
than the barred one is therefore left as well (`Machine.Takes.le_boundBehind_iff`).
-/

namespace FrontEnd.Parse

/-- An operator that an expression took: the precedence that it was taken with, and what its routine
said about the operators behind it. -/
structure Operator where
  token : Token
  precedence : Precedence
  chaining : Chaining

/-- The bound in force behind some operators of an expression. -/
def Operator.boundBehind (bound : Precedence) : List Operator → Precedence
  | [] => bound
  | operator :: rest =>
    boundBehind (operator.chaining.boundAfter operator.precedence bound) rest

/-- A token is not above the bound behind a barred operator if it is at most one level tighter. -/
theorem Chaining.le_boundAfter_barred_iff {limit precedence bound : Precedence} :
    limit ≤ Chaining.barred.boundAfter precedence bound ↔ limit.toInt ≤ precedence.toInt + 1 := by
  have hmax := Int32.toInt_lt limit
  rw [Int32.le_iff_toInt_le, toInt_boundAfter_barred]
  omega

namespace Machine

variable {τ σ ε κ : Type} [TokenStream τ] {grammar : Grammar σ ε κ}

/-- `Opens grammar parser operand`: an expression that starts at `parser` has parsed its first
operand at `operand`. -/
inductive Opens (grammar : Grammar σ ε κ) : Parser τ σ → Parser τ σ → Prop
  | operand {parser middle operand : Parser τ σ} {start : Token → κ} {chaining : Chaining}
      {kinds : List Kind} (hadvance : parser.advance = .ok (parser.lookahead, middle))
      (hroutine : grammar.prefixRoutine middle.state parser.lookahead.kind = some start)
      (hrun : Evaluates grammar (.routine (start parser.lookahead)) middle (.ok chaining) kinds
        operand) :
      Opens grammar parser operand

/-- `Takes grammar bound parser operators after`: an expression that has come to `parser` with
`bound` takes `operators` one after the other and comes to `after`. -/
inductive Takes (grammar : Grammar σ ε κ) :
    Precedence → Parser τ σ → List Operator → Parser τ σ → Prop
  | nothing (bound : Precedence) (parser : Parser τ σ) : Takes grammar bound parser [] parser
  | operator {bound : Precedence} {parser middle back after : Parser τ σ} {start : Token → κ}
      {chaining : Chaining} {kinds : List Kind} {rest : List Operator}
      (hbound : bound < grammar.precedence parser.state parser.lookahead.kind)
      (hadvance : parser.advance = .ok (parser.lookahead, middle))
      (hroutine : grammar.infixRoutine middle.state parser.lookahead.kind = some start)
      (hrun : Evaluates grammar (.routine (start parser.lookahead)) middle (.ok chaining) kinds
        back)
      (hrest : Takes grammar
        (chaining.boundAfter (grammar.precedence parser.state parser.lookahead.kind) bound) back
        rest after) :
      Takes grammar bound parser
        (⟨parser.lookahead, grammar.precedence parser.state parser.lookahead.kind, chaining⟩ ::
          rest) after

/-! ## Expressions that succeed -/

section Dispatch

variable {routine : Option (Token → κ)} {token : Token} {frame : Frame ε κ}
  {parser middle : Parser τ σ}

omit [TokenStream τ] in
private theorem answer_of_dispatch {next : Control ε κ}
    (heq : ⟨next, [], middle⟩ = dispatch grammar routine token [frame] [] parser) :
    ∃ error, next = .answer (.error error) [] := by
  cases routine with
  | none =>
      cases heq
      exact ⟨_, rfl⟩
  | some start => cases heq

omit [TokenStream τ] in
private theorem routine_of_dispatch {callee : Control ε κ} {waiting : Frame ε κ}
    (heq : ⟨callee, [waiting], middle⟩ = dispatch grammar routine token [frame] [] parser) :
    ∃ start, routine = some start ∧ callee = .routine (start token) ∧ waiting = frame ∧
      middle = parser := by
  cases routine with
  | none => cases heq
  | some start =>
      cases heq
      exact ⟨start, rfl, rfl, rfl, rfl⟩

end Dispatch

theorem Evaluates.of_answer {result result' : Answer ε} {asked asked' : List Kind}
    {parser after : Parser τ σ}
    (hevaluates : Evaluates grammar (.answer result asked) parser result' asked' after) :
    result' = result ∧ asked' = asked ∧ after = parser := by
  generalize htask : Control.answer result asked = task at hevaluates
  induction hevaluates with
  | answer result' asked' parser =>
      cases htask
      exact ⟨rfl, rfl, rfl⟩
  | pass hstep _ ih =>
      subst htask
      cases hstep
      exact ih rfl
  | call hstep _ _ _ _ =>
      subst htask
      cases hstep

theorem Evaluates.of_finish {control : κ} {chaining : Chaining} {result : Answer ε}
    {asked : List Kind} {parser after : Parser τ σ}
    (hrequest : grammar.request control = .finish chaining)
    (hevaluates : Evaluates grammar (.routine control) parser result asked after) :
    result = .ok chaining := by
  have hfinish : step grammar ⟨.routine control, [], parser⟩ =
      .ok ⟨.answer (.ok chaining) [], [], parser⟩ := by
    simp only [step, hrequest, serve]
  cases hevaluates with
  | pass hstep hnext =>
      rw [hfinish] at hstep
      cases hstep
      exact hnext.of_answer.1
  | call hstep _ _ =>
      rw [hfinish] at hstep
      cases hstep

theorem Takes.evaluates {bound : Precedence} {parser after : Parser τ σ}
    {operators : List Operator} (htakes : Takes grammar bound parser operators after)
    (hstop : grammar.precedence after.state after.lookahead.kind ≤
      Operator.boundBehind bound operators) :
    Evaluates grammar (.operators bound) parser (.ok .allowed) [] after := by
  induction htakes with
  | nothing bound parser => exact .stop hstop
  | operator hbound hadvance hroutine hrun _ ih =>
      exact .operator hbound hadvance hroutine hrun (ih hstop)

/-- The loop over the operators, followed to its end. -/
private theorem takes_of_evaluates {task : Control ε κ} {parser after : Parser τ σ}
    {result : Answer ε} {asked : List Kind}
    (hevaluates : Evaluates grammar task parser result asked after) :
    ∀ bound chaining, task = .operators bound → result = .ok chaining →
      ∃ operators, Takes grammar bound parser operators after ∧
        grammar.precedence after.state after.lookahead.kind ≤
          Operator.boundBehind bound operators := by
  induction hevaluates with
  | answer => nofun
  | @pass task next parser middle after result asked hstep hnext _ =>
      rintro bound chaining rfl rfl
      obtain ⟨hbound, heq⟩ | ⟨-, token, left, -, heq⟩ := step_operators hstep
      · cases heq
        obtain ⟨-, -, rfl⟩ := hnext.of_answer
        exact ⟨[], .nothing bound _, hbound⟩
      -- A token without a routine: the expression does not succeed.
      · obtain ⟨error, rfl⟩ := answer_of_dispatch heq
        cases hnext.of_answer.1
  | @call task callee frame parser middle back after answer result kinds asked hstep hcallee hrest _
      ih =>
      rintro bound chaining rfl rfl
      obtain ⟨-, heq⟩ | ⟨hbound, token, left, hadvance, heq⟩ := step_operators hstep
      · cases heq
      · obtain ⟨start, hroutine, rfl, rfl, rfl⟩ := routine_of_dispatch heq
        obtain rfl := Parser.eq_lookahead_of_advance hadvance
        cases answer with
        | error error => cases hrest.of_answer.1
        | ok said =>
            obtain ⟨operators, htakes, hstop⟩ := ih _ _ rfl rfl
            exact ⟨_, .operator hbound hadvance hroutine hcallee htakes, hstop⟩

/-- **An expression goes on** until the lookahead is not above the bound in force. -/
theorem evaluates_operators_iff {bound : Precedence} {parser after : Parser τ σ} :
    (∃ chaining asked, Evaluates grammar (.operators bound) parser (.ok chaining) asked after) ↔
      ∃ operators, Takes grammar bound parser operators after ∧
        grammar.precedence after.state after.lookahead.kind ≤
          Operator.boundBehind bound operators := by
  constructor
  · rintro ⟨chaining, asked, hevaluates⟩
    exact takes_of_evaluates hevaluates bound chaining rfl rfl
  · rintro ⟨operators, htakes, hstop⟩
    exact ⟨_, _, htakes.evaluates hstop⟩

theorem evaluates_expression_iff {bound : Precedence} {parser after : Parser τ σ} :
    (∃ chaining asked, Evaluates grammar (.expression bound) parser (.ok chaining) asked after) ↔
      ∃ operand, Opens grammar parser operand ∧
        ∃ chaining asked,
          Evaluates grammar (.operators bound) operand (.ok chaining) asked after := by
  constructor
  · rintro ⟨chaining, asked, hevaluates⟩
    cases hevaluates with
    | pass hstep hnext =>
        obtain ⟨token, left, hadvance, heq⟩ := step_expression hstep
        obtain ⟨error, rfl⟩ := answer_of_dispatch heq
        cases hnext.of_answer.1
    | @call _ _ _ _ _ operand _ answer _ _ _ hstep hcallee hrest =>
        obtain ⟨token, left, hadvance, heq⟩ := step_expression hstep
        obtain ⟨start, hroutine, rfl, rfl, rfl⟩ := routine_of_dispatch heq
        obtain rfl := Parser.eq_lookahead_of_advance hadvance
        cases answer with
        | error error => cases hrest.of_answer.1
        | ok said => exact ⟨operand, .operand hadvance hroutine hcallee, chaining, asked, hrest⟩
  · rintro ⟨operand, ⟨hadvance, hroutine, hrun⟩, chaining, asked, hrest⟩
    exact ⟨chaining, asked, .expression hadvance hroutine hrun hrest⟩

/-! ## The bound in force -/

/-- A token is not above the bound in force if it is not above the bound of the expression, or at
most one level tighter than a barred operator. -/
theorem Takes.le_boundBehind_iff {bound : Precedence} {parser after : Parser τ σ}
    {operators : List Operator} (htakes : Takes grammar bound parser operators after)
    (limit : Precedence) :
    limit ≤ Operator.boundBehind bound operators ↔
      limit ≤ bound ∨ ∃ operator ∈ operators,
        operator.chaining = .barred ∧ limit.toInt ≤ operator.precedence.toInt + 1 := by
  induction htakes with
  | nothing bound parser => simp [Operator.boundBehind]
  | @operator bound parser middle back after start chaining kinds rest hbound _ _ _ _ ih =>
      rw [Operator.boundBehind, ih]
      simp only [List.mem_cons, exists_eq_or_imp]
      cases chaining with
      | allowed => simp [Chaining.boundAfter]
      | barred =>
          rw [Chaining.le_boundAfter_barred_iff]
          constructor
          · rintro (hlimit | hlater)
            · exact .inr (.inl ⟨rfl, hlimit⟩)
            · exact .inr (.inr hlater)
          · rintro (hlimit | ⟨-, hlimit⟩ | hlater)
            -- What is not above the old bound is not above the operator either.
            · have hoperator := Int32.lt_iff_toInt_lt.mp hbound
              have hlower := Int32.le_iff_toInt_le.mp hlimit
              exact .inl (by omega)
            · exact .inl hlimit
            · exact .inr hlater

theorem Takes.precedence_eq {precedence : Kind → Precedence}
    (hfixed : ∀ state kind, grammar.precedence state kind = precedence kind) {bound : Precedence}
    {parser after : Parser τ σ} {operators : List Operator}
    (htakes : Takes grammar bound parser operators after) :
    ∀ operator ∈ operators, operator.precedence = precedence operator.token.kind := by
  induction htakes with
  | nothing => nofun
  | operator _ _ _ _ _ ih => exact List.forall_mem_cons.mpr ⟨hfixed _ _, ih⟩

end Machine

/-- **Where an expression stops.**  With fixed precedences, an expression that succeeds leaves a
token that binds no tighter than its bound, or at most one level tighter than a barred operator that
it took itself; and at such a token it does stop. -/
theorem Parser.expression_leaves_iff {τ σ ε κ : Type} [TokenStream τ] {grammar : Grammar σ ε κ}
    {precedence : Kind → Precedence}
    (hfixed : ∀ state kind, grammar.precedence state kind = precedence kind)
    {parser after : Parser τ σ} {bound : Precedence} :
    (∃ fuel, parser.expression grammar fuel bound = .ok (.ok (), after)) ↔
      ∃ operand operators, Machine.Opens grammar parser operand ∧
        Machine.Takes grammar bound operand operators after ∧
        (precedence after.lookahead.kind ≤ bound ∨
          ∃ operator ∈ operators, operator.chaining = .barred ∧
            (precedence after.lookahead.kind).toInt ≤
              (precedence operator.token.kind).toInt + 1) := by
  have hstop : ∀ {operand operators}, Machine.Takes grammar bound operand operators after →
      (grammar.precedence after.state after.lookahead.kind ≤ Operator.boundBehind bound operators ↔
        precedence after.lookahead.kind ≤ bound ∨
          ∃ operator ∈ operators, operator.chaining = .barred ∧
            (precedence after.lookahead.kind).toInt ≤
              (precedence operator.token.kind).toInt + 1) := by
    intro operand operators htakes
    rw [hfixed, htakes.le_boundBehind_iff]
    refine or_congr_right (exists_congr fun operator => and_congr_right fun hmem => ?_)
    rw [htakes.precedence_eq hfixed operator hmem]
  constructor
  · rintro ⟨fuel, hparse⟩
    obtain ⟨operand, hopens, hevaluates⟩ :=
      Machine.evaluates_expression_iff.mp (Parser.evaluates_of_expression hparse)
    obtain ⟨operators, htakes, hle⟩ := Machine.evaluates_operators_iff.mp hevaluates
    exact ⟨operand, operators, hopens, htakes, (hstop htakes).mp hle⟩
  · rintro ⟨operand, operators, hopens, htakes, hle⟩
    have hevaluates :=
      Machine.evaluates_operators_iff.mpr ⟨operators, htakes, (hstop htakes).mpr hle⟩
    obtain ⟨chaining, asked, hexpression⟩ :=
      Machine.evaluates_expression_iff.mpr ⟨operand, hopens, hevaluates⟩
    obtain ⟨cost, hcost⟩ := Parser.expression_of_evaluates hexpression
    exact ⟨cost, hcost cost (Nat.le_refl cost)⟩

/-! ## Marks -/

namespace Marks

def word : Kind := ⟨1⟩

def tilde : Kind := ⟨2⟩

def bang : Kind := ⟨3⟩

def precedence (kind : Kind) : Precedence :=
  if kind = tilde then 2 else if kind = bang then 3 else 0

/-- A word may be followed by marks, which are operators without a right operand.  A tilde is
barred; a bang binds one level tighter. -/
def grammar : Grammar Unit SyntaxError Chaining where
  precedence _ := precedence
  prefixRoutine _ kind := if kind = word then some fun _ => .allowed else none
  infixRoutine _ kind :=
    if kind = tilde then some fun _ => .barred
    else if kind = bang then some fun _ => .allowed
    else none
  statementRoutine _ _ := none
  misplaced _ token := .ofToken token
  request := .finish

/-- A word, a tilde and a bang. -/
def input : Parser Recording Unit :=
  .ofRecording (.ofTokens [⟨word, "1", .unknown⟩, ⟨tilde, "~", .unknown⟩, ⟨bang, "!", .unknown⟩])

/-- The parser in front of the bang. -/
def atBang : Parser Recording Unit :=
  .ofRecording (.ofTokens [⟨bang, "!", .unknown⟩])

/-- Only a tilde is barred. -/
theorem kind_of_barred {bound : Precedence} {parser after : Parser Recording Unit}
    {operators : List Operator} (htakes : Machine.Takes grammar bound parser operators after) :
    ∀ operator ∈ operators, operator.chaining = .barred → operator.token.kind = tilde := by
  induction htakes with
  | nothing => nofun
  | @operator bound parser middle back after start chaining kinds rest _ _ hroutine hrun _ ih =>
      refine List.forall_mem_cons.mpr ⟨?_, ih⟩
      rintro rfl
      by_cases htilde : parser.lookahead.kind = tilde
      · exact htilde
      · have hbang : (if parser.lookahead.kind = bang then some fun _ => Chaining.allowed
            else none) = some start := (if_neg htilde).symm.trans hroutine
        obtain ⟨-, hstart⟩ := Option.ite_none_right_eq_some.mp hbang
        cases hstart
        cases hrun.of_finish rfl

end Marks

/-- The word and the tilde are an expression of their own. -/
theorem Parser.expression_leaves_iff_marks :
    (∀ state kind, Marks.grammar.precedence state kind = Marks.precedence kind) ∧
      ∃ operand operators, Machine.Opens Marks.grammar Marks.input operand ∧
        Machine.Takes Marks.grammar 0 operand operators Marks.atBang ∧
        (Marks.precedence Marks.atBang.lookahead.kind ≤ 0 ∨
          ∃ operator ∈ operators, operator.chaining = .barred ∧
            (Marks.precedence Marks.atBang.lookahead.kind).toInt ≤
              (Marks.precedence operator.token.kind).toInt + 1) :=
  ⟨fun _ _ => rfl, (Parser.expression_leaves_iff fun _ _ => rfl).mp ⟨10, rfl⟩⟩

/-- A bang binds tighter than the bound and than the only barred operator, and yet it is left. -/
theorem Parser.expression_leaves_tighter :
    (∃ fuel, Marks.input.expression Marks.grammar fuel 0 = .ok (.ok (), Marks.atBang)) ∧
      ∀ operand operators, Machine.Opens Marks.grammar Marks.input operand →
        Machine.Takes Marks.grammar 0 operand operators Marks.atBang →
        ¬ (Marks.precedence Marks.atBang.lookahead.kind ≤ 0 ∨
          ∃ operator ∈ operators, operator.chaining = .barred ∧
            Marks.precedence Marks.atBang.lookahead.kind ≤
              Marks.precedence operator.token.kind) := by
  refine ⟨⟨10, rfl⟩, ?_⟩
  rintro operand operators - htakes (hbound | ⟨operator, hmem, hbarred, hle⟩)
  · exact absurd hbound (by decide)
  · rw [Marks.kind_of_barred htakes operator hmem hbarred] at hle
    exact absurd hle (by decide)

end FrontEnd.Parse
