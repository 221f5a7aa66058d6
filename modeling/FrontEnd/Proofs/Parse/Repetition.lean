import FrontEnd.Proofs.Parse.Nesting
import FrontEnd.Proofs.Parse.Termination

/-!
# Lists of statements

A list of statements asks its condition about the kind of the lookahead, and as long as the
condition holds it parses a statement and asks again.  The statements may run lists and expressions
of their own on the way, and the condition may remember what it was asked.

This module shows that nothing else happens.  `Parser.Repeats` puts single statements one behind the
other, each with a question in front, and `Parser.Iterates` adds the last question and how the list
ends.  A list that comes to an answer is such an iteration, and every such iteration is what the
engine does (`Parser.statements_iterate`).

## Strategy

At any moment a list is about to ask, or it is inside a statement, or it has its answer
(`Machine.Turn`).  A step leads from one of these to another, since the engine works on a statement
as if nothing waited for it.
-/

namespace FrontEnd.Parse

variable {τ σ ε κ : Type} [TokenStream τ] {grammar : Grammar σ ε κ}

/-! ## Single statements -/

/-- `Parses grammar parser history result after`: a statement that is parsed at `parser` comes to
`result` and leaves `after`, and `history` are all its events. -/
structure Parser.Parses (grammar : Grammar σ ε κ) (parser : Parser τ σ) (history : List Event)
    (result : Except ε Unit) (after : Parser τ σ) : Prop where
  call : ∃ cost, ∀ fuel, cost ≤ fuel → parser.statement grammar fuel = .ok (result, after)
  events : ∃ answer asked, answer.map (fun _ => ()) = result ∧
    Machine.Ends grammar ⟨.statement, [], parser⟩ history answer asked after

theorem Parser.parses_of_reaches {parser after : Parser τ σ} {history : List Event}
    {answer : Answer ε} {asked : List Kind}
    (hreaches : Machine.Reaches grammar ⟨.statement, [], parser⟩ history
      ⟨.answer answer asked, [], after⟩) :
    parser.Parses grammar history (answer.map fun _ => ()) after := by
  obtain ⟨cost, hcost⟩ := Parser.perform_of_reaches hreaches
  refine ⟨⟨cost, fun fuel hle => ?_⟩, answer, asked, rfl, hreaches.ends⟩
  simp only [Parser.statement, hcost fuel hle]

/-- A statement that is under way has consumed a token. -/
theorem Machine.Reaches.statement_started {parser : Parser τ σ} {history : List Event}
    {machine : Machine τ σ ε κ}
    (hreaches : Reaches grammar ⟨.statement, [], parser⟩ history machine) :
    (history = [] ∧ machine = ⟨.statement, [], parser⟩) ∨ history ≠ [] := by
  induction hreaches with
  | start => exact .inl ⟨rfl, rfl⟩
  | step _ hstep ih =>
      right
      obtain ⟨rfl, rfl⟩ | hsome := ih
      · exact List.cons_ne_nil _ _
      · exact List.append_ne_nil_of_left_ne_nil hsome _

theorem Parser.Parses.ne_nil {parser after : Parser τ σ} {history : List Event}
    {result : Except ε Unit} (hparses : parser.Parses grammar history result after) :
    history ≠ [] := by
  obtain ⟨answer, asked, -, hends⟩ := hparses.events
  obtain ⟨-, heq⟩ | hsome := hends.reaches.statement_started
  · cases heq
  · exact hsome

theorem Parser.Parses.reaches_ok {parser after : Parser τ σ} {history : List Event}
    (hparses : parser.Parses grammar history (.ok ()) after) :
    ∃ chaining asked, Machine.Reaches grammar ⟨.statement, [], parser⟩ history
      ⟨.answer (.ok chaining) asked, [], after⟩ := by
  obtain ⟨answer, asked, hanswer, hends⟩ := hparses.events
  cases answer with
  | error error => cases hanswer
  | ok chaining => exact ⟨chaining, asked, hends.reaches⟩

theorem Parser.Parses.reaches_error {parser after : Parser τ σ} {history : List Event} {error : ε}
    (hparses : parser.Parses grammar history (.error error) after) :
    ∃ asked, Machine.Reaches grammar ⟨.statement, [], parser⟩ history
      ⟨.answer (.error error) asked, [], after⟩ := by
  obtain ⟨answer, asked, hanswer, hends⟩ := hparses.events
  cases answer with
  | error error =>
      cases hanswer
      exact ⟨asked, hends.reaches⟩
  | ok chaining => cases hanswer

/-- If the condition holds, the list waits for a statement. -/
theorem Machine.reaches_statement {accept : Acceptance} {asked : List Kind} {parser : Parser τ σ}
    (haccept : accept asked parser.lookahead.kind = true) (frames : List (Frame ε κ)) :
    Reaches grammar ⟨.statements accept asked, frames, parser⟩ []
      ⟨.statement, .statements accept (parser.lookahead.kind :: asked) :: frames, parser⟩ :=
  .one (if_pos haccept)

/-- If the condition fails, the list ends in front of the token that it was asked about. -/
theorem Machine.reaches_rejected {accept : Acceptance} {asked : List Kind} {parser : Parser τ σ}
    (hreject : accept asked parser.lookahead.kind = false) (frames : List (Frame ε κ)) :
    Reaches grammar ⟨.statements accept asked, frames, parser⟩ []
      ⟨.answer (.ok .allowed) (parser.lookahead.kind :: asked).reverse, frames, parser⟩ :=
  .one (if_neg (Bool.eq_false_iff.mp hreject))

/-! ## Iterations -/

namespace Parser

/-- `Repeats grammar accept parser asked rounds here`: from `parser` on the condition held for the
kind of the lookahead and a statement was parsed, again and again, up to `here`.  The condition was
asked about the kinds `asked`, the latest one first, and the statements have the events `rounds`. -/
inductive Repeats (grammar : Grammar σ ε κ) (accept : Acceptance) (parser : Parser τ σ) :
    List Kind → List (List Event) → Parser τ σ → Prop
  | nothing : Repeats grammar accept parser [] [] parser
  | statement {asked : List Kind} {rounds : List (List Event)} {history : List Event}
      {here next : Parser τ σ} (hrepeats : Repeats grammar accept parser asked rounds here)
      (haccept : accept asked here.lookahead.kind = true)
      (hparses : here.Parses grammar history (.ok ()) next) :
      Repeats grammar accept parser (here.lookahead.kind :: asked) (rounds ++ [history]) next

/-- `Iterates grammar accept parser rounds result asked after`: statements are parsed one behind the
other until the condition fails, or until a statement does.  The condition is asked about the kinds
`asked`, and the statements that are started have the events `rounds`. -/
inductive Iterates (grammar : Grammar σ ε κ) (accept : Acceptance) (parser : Parser τ σ) :
    List (List Event) → Except ε Unit → List Kind → Parser τ σ → Prop
  | rejected {asked : List Kind} {rounds : List (List Event)} {here : Parser τ σ}
      (hrepeats : Repeats grammar accept parser asked rounds here)
      (hreject : accept asked here.lookahead.kind = false) :
      Iterates grammar accept parser rounds (.ok ()) (here.lookahead.kind :: asked).reverse here
  | failed {asked : List Kind} {rounds : List (List Event)} {history : List Event}
      {here after : Parser τ σ} {error : ε}
      (hrepeats : Repeats grammar accept parser asked rounds here)
      (haccept : accept asked here.lookahead.kind = true)
      (hparses : here.Parses grammar history (.error error) after) :
      Iterates grammar accept parser (rounds ++ [history]) (.error error)
        (here.lookahead.kind :: asked).reverse after

variable {accept : Acceptance} {parser here after : Parser τ σ} {asked : List Kind}
  {rounds : List (List Event)} {result : Except ε Unit}

/-- There is a statement behind each question. -/
theorem Repeats.length_eq (hrepeats : Repeats grammar accept parser asked rounds here) :
    asked.length = rounds.length := by
  induction hrepeats with
  | nothing => rfl
  | statement _ _ _ ih => simp [ih]

/-- Each statement that is started consumes a token. -/
theorem Repeats.ne_nil (hrepeats : Repeats grammar accept parser asked rounds here) :
    ∀ round ∈ rounds, round ≠ [] := by
  induction hrepeats with
  | nothing => nofun
  | statement _ _ hparses ih =>
      exact List.forall_mem_append.mpr ⟨ih, List.forall_mem_singleton.mpr hparses.ne_nil⟩

/-- The engine comes to where the statements led, and is about to ask. -/
theorem Repeats.reaches (hrepeats : Repeats grammar accept parser asked rounds here)
    (frames : List (Frame ε κ)) :
    Machine.Reaches grammar ⟨.statements accept [], frames, parser⟩ rounds.flatten
      ⟨.statements accept asked, frames, here⟩ := by
  induction hrepeats with
  | nothing => exact .start
  | statement _ haccept hparses ih =>
      obtain ⟨chaining, kinds, hstatement⟩ := hparses.reaches_ok
      rw [List.flatten_append, List.flatten_singleton]
      exact ih.trans ((Machine.reaches_statement haccept frames).trans
        (hstatement.delivered _ frames))

theorem Iterates.reaches (hiterates : Iterates grammar accept parser rounds result asked after)
    (frames : List (Frame ε κ)) :
    ∃ answer, answer.map (fun _ => ()) = result ∧
      Machine.Reaches grammar ⟨.statements accept [], frames, parser⟩ rounds.flatten
        ⟨.answer answer asked, frames, after⟩ := by
  cases hiterates with
  | rejected hrepeats hreject =>
      have hends := (hrepeats.reaches frames).trans (Machine.reaches_rejected hreject frames)
      rw [List.append_nil] at hends
      exact ⟨.ok .allowed, rfl, hends⟩
  | @failed asked rounds history here after error hrepeats haccept hparses =>
      obtain ⟨kinds, hstatement⟩ := hparses.reaches_error
      refine ⟨.error error, rfl, ?_⟩
      rw [List.flatten_append, List.flatten_singleton]
      exact (hrepeats.reaches frames).trans ((Machine.reaches_statement haccept frames).trans
        (hstatement.delivered _ frames))

theorem Iterates.length_eq (hiterates : Iterates grammar accept parser rounds result asked after) :
    (result = .ok () → asked.length = rounds.length + 1) ∧
      ∀ error, result = .error error → asked.length = rounds.length := by
  cases hiterates with
  | rejected hrepeats _ =>
      refine ⟨fun _ => ?_, nofun⟩
      rw [List.length_reverse, List.length_cons, hrepeats.length_eq]
  | failed hrepeats _ _ =>
      refine ⟨nofun, fun _ _ => ?_⟩
      rw [List.length_reverse, List.length_cons, hrepeats.length_eq, List.length_append,
        List.length_singleton]

theorem Iterates.ne_nil (hiterates : Iterates grammar accept parser rounds result asked after) :
    ∀ round ∈ rounds, round ≠ [] := by
  cases hiterates with
  | rejected hrepeats _ => exact hrepeats.ne_nil
  | failed hrepeats _ hparses =>
      exact List.forall_mem_append.mpr
        ⟨hrepeats.ne_nil, List.forall_mem_singleton.mpr hparses.ne_nil⟩

end Parser

/-! ## The moments of a list -/

namespace Machine

/-- Where a list of statements is, when it has the events `history` behind it. -/
inductive Turn (grammar : Grammar σ ε κ) (accept : Acceptance) (parser : Parser τ σ) :
    List Event → Machine τ σ ε κ → Prop
  | asking {asked : List Kind} {rounds : List (List Event)} {here : Parser τ σ}
      (hrepeats : Parser.Repeats grammar accept parser asked rounds here) :
      Turn grammar accept parser rounds.flatten ⟨.statements accept asked, [], here⟩
  /-- A statement is being parsed. -/
  | inside {asked : List Kind} {rounds : List (List Event)} {history : List Event}
      {here : Parser τ σ} {own : Machine τ σ ε κ}
      (hrepeats : Parser.Repeats grammar accept parser asked rounds here)
      (haccept : accept asked here.lookahead.kind = true)
      (hrun : Reaches grammar ⟨.statement, [], here⟩ history own) :
      Turn grammar accept parser (rounds.flatten ++ history)
        (own.above [.statements accept (here.lookahead.kind :: asked)])
  | answered {answer : Answer ε} {asked : List Kind} {rounds : List (List Event)}
      {after : Parser τ σ}
      (hiterates : Parser.Iterates grammar accept parser rounds (answer.map fun _ => ()) asked
        after) :
      Turn grammar accept parser rounds.flatten ⟨.answer answer asked, [], after⟩

variable {accept : Acceptance} {parser : Parser τ σ} {history : List Event}
  {machine next : Machine τ σ ε κ}

/-- A step goes on with the question, with the statement, or with what behind it comes. -/
theorem Turn.step (hturn : Turn grammar accept parser history machine)
    (hstep : Machine.step grammar machine = .ok next) :
    Turn grammar accept parser (history ++ (event? grammar machine).toList) next := by
  cases hturn with
  | @asking asked rounds here hrepeats =>
      show Turn grammar accept parser (rounds.flatten ++ []) next
      by_cases haccept : accept asked here.lookahead.kind = true
      · simp only [Machine.step, haccept, if_true] at hstep
        cases hstep
        exact .inside hrepeats haccept .start
      · rw [Bool.not_eq_true] at haccept
        simp only [Machine.step, haccept] at hstep
        cases hstep
        rw [List.append_nil]
        exact .answered (.rejected hrepeats haccept)
  | @inside asked rounds history here own hrepeats haccept hrun =>
      rw [List.append_assoc]
      obtain ⟨answer, kinds, back, rfl⟩ | hopen := answered_or_step grammar own
      -- The statement is over, and its answer decides whether the list goes on.
      · cases hstep
        have hparses := Parser.parses_of_reaches hrun
        have hrounds : rounds.flatten ++ history = (rounds ++ [history]).flatten := by
          rw [List.flatten_append, List.flatten_singleton]
        rw [event?_above, event?_answer, Option.toList_none, List.append_nil, hrounds]
        cases answer with
        | error error => exact .answered (.failed hrepeats haccept hparses)
        | ok chaining => exact .asking (.statement hrepeats haccept hparses)
      · obtain ⟨own', hown, rfl⟩ := hopen _ _ hstep
        exact .inside hrepeats haccept (hrun.step hown)
  | answered hiterates =>
      cases hstep
      rw [event?_answer, Option.toList_none, List.append_nil]
      exact .answered hiterates

theorem Reaches.turn
    (hreaches : Reaches grammar ⟨.statements accept [], [], parser⟩ history machine) :
    Turn grammar accept parser history machine := by
  induction hreaches with
  | start => exact .asking .nothing
  | step _ hstep ih => exact ih.step hstep

/-- A list that has its answer is an iteration. -/
theorem Reaches.iterates {answer : Answer ε} {asked : List Kind} {after : Parser τ σ}
    (hreaches : Reaches grammar ⟨.statements accept [], [], parser⟩ history
      ⟨.answer answer asked, [], after⟩) :
    ∃ rounds, Parser.Iterates grammar accept parser rounds (answer.map fun _ => ()) asked after ∧
      history = rounds.flatten := by
  generalize hmachine : (⟨.answer answer asked, [], after⟩ : Machine τ σ ε κ) = machine at hreaches
  cases hreaches.turn with
  | asking => cases hmachine
  | inside => simp [Machine.above] at hmachine
  | @answered answer' asked' rounds after' hiterates =>
      cases hmachine
      exact ⟨rounds, hiterates, rfl⟩

end Machine

/-- **A list of statements is the iteration of its statements.**  Alone or inside another task, a
list that comes to an answer has parsed statements one behind the other, each behind a question
about the lookahead that was answered with yes.  It succeeds in front of the token for which the
answer is no, and it fails as the statement fails that fails first; and whenever statements go on
like this, the list comes to that answer.  It asks once more than it parses statements that succeed,
and each statement that it starts consumes a token at least. -/
theorem Parser.statements_iterate (grammar : Grammar σ ε κ) (accept : Acceptance)
    (parser : Parser τ σ) :
    (∀ result asked after,
      (∃ fuel, parser.statements grammar fuel accept = .ok (result, asked, after)) ↔
        ∃ rounds, Iterates grammar accept parser rounds result asked after) ∧
    (∀ frames history answer asked after,
      Machine.During grammar (.statements accept []) frames parser history
        ⟨.answer answer asked, frames, after⟩ →
      ∃ rounds, Iterates grammar accept parser rounds (answer.map fun _ => ()) asked after ∧
        history = rounds.flatten) ∧
    ∀ rounds result asked after, Iterates grammar accept parser rounds result asked after →
      (result = .ok () → asked.length = rounds.length + 1) ∧
      (∀ error, result = .error error → asked.length = rounds.length) ∧
      (∃ answer, answer.map (fun _ => ()) = result ∧
        Machine.Ends grammar ⟨.statements accept [], [], parser⟩ rounds.flatten answer asked
          after) ∧
      ∀ round ∈ rounds, round ≠ [] := by
  refine ⟨?_, fun _ _ _ _ _ hduring => hduring.reaches.iterates, ?_⟩
  · intro result asked after
    constructor
    · rintro ⟨fuel, hparse⟩
      obtain ⟨history, answer, rfl, hreaches⟩ := Parser.reaches_of_perform hparse
      obtain ⟨rounds, hiterates, -⟩ := hreaches.iterates
      exact ⟨rounds, hiterates⟩
    · rintro ⟨rounds, hiterates⟩
      obtain ⟨answer, rfl, hreaches⟩ := hiterates.reaches []
      obtain ⟨cost, hcost⟩ := Parser.perform_of_reaches hreaches
      exact ⟨cost, hcost cost (Nat.le_refl cost)⟩
  · intro rounds result asked after hiterates
    obtain ⟨answer, hanswer, hreaches⟩ := hiterates.reaches []
    obtain ⟨hok, herror⟩ := hiterates.length_eq
    exact ⟨hok, herror, ⟨answer, hanswer, hreaches.ends⟩, hiterates.ne_nil⟩

/-! ## A list of two headings -/

namespace Outline

/-- Holds for the first two kinds that it is asked about. -/
def twice : Acceptance :=
  fun asked _ => decide (asked.length < 2)

/-- The parser behind the end of the input. -/
def behind : Parser Recording Unit :=
  .ofRecording (.ofTokens [])

end Outline

/-- The first heading contains all that follows, so the second one is missing. -/
theorem Parser.statements_iterate_outline :
    Outline.first.statements Outline.grammar 40 Outline.twice =
        .ok (.error (.unexpectedEnd .unknown), [Outline.heading, .endOfInput], Outline.behind) ∧
      ∃ rounds, Iterates Outline.grammar Outline.twice Outline.first rounds
          (.error (.unexpectedEnd .unknown)) [Outline.heading, .endOfInput] Outline.behind ∧
        rounds.length = 2 ∧ ∀ round ∈ rounds, round ≠ [] := by
  have hparse : Outline.first.statements Outline.grammar 40 Outline.twice =
      .ok (.error (.unexpectedEnd .unknown), [Outline.heading, .endOfInput], Outline.behind) := rfl
  obtain ⟨hcalls, -, hlists⟩ :=
    Parser.statements_iterate Outline.grammar Outline.twice Outline.first
  obtain ⟨rounds, hiterates⟩ := (hcalls _ _ _).mp ⟨40, hparse⟩
  obtain ⟨-, herror, -, hrounds⟩ := hlists _ _ _ _ hiterates
  exact ⟨hparse, rounds, hiterates, (herror _ rfl).symm, hrounds⟩

end FrontEnd.Parse
