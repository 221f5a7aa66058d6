import FrontEnd.Parse.SyntaxError
import FrontEnd.Proofs.Parse.Course
import FrontEnd.Proofs.Pulls

/-!
# Parsing comes to an end

A parse comes to an answer if the stream gives finitely many tokens before its end, if no routine
goes round in a loop of its own, and if there is no routine for the end of the input.  The reason is
that each routine is started on a token that does not end the input, and so uses one of them up.

Engine and routines call each other, so there is no part of the grammar to recur on.  The induction
is on the number of tokens left (`Parser.AtMost`), and inside it on the requests that a routine can
still make (`Grammar.Loopless`).  Tasks that consume nothing at first, such as a list of statements
whose condition holds for ever, hand on to tasks that consume a token or fail.
-/

namespace FrontEnd

/-! ## Tokens left -/

/-- A pull takes a token off a recording, unless it gives an end. -/
theorem Recording.remaining_next (recording : Recording) :
    recording.next.2.remaining + [recording.next.1].countP (fun token => !token.isEnd) ≤
      recording.remaining := by
  obtain ⟨pending, ending⟩ := recording
  cases pending with
  | nil => exact Nat.le_refl 0
  | cons token rest =>
      by_cases htoken : token.isEnd = true
      · have hnext : Recording.next ⟨token :: rest, ending⟩ =
            (.ending token.position, ⟨[], token.position⟩) := if_pos htoken
        rw [hnext]
        exact Nat.zero_le _
      · have hnext : Recording.next ⟨token :: rest, ending⟩ = (token, ⟨rest, ending⟩) :=
          if_neg htoken
        rw [hnext]
        exact Nat.add_le_add_left List.countP_le_length rest.length

/-- A recording gives no more tokens than it has. -/
theorem Recording.tokens_countP (recording : Recording) (pulls : Nat) :
    ∃ given, TokenStream.tokens pulls recording = .ok given ∧
      given.countP (fun token => !token.isEnd) ≤ recording.remaining := by
  induction pulls generalizing recording with
  | zero => exact ⟨[], rfl, Nat.zero_le _⟩
  | succ pulls ih =>
      obtain ⟨given, hgiven, hcount⟩ := ih recording.next.2
      have hnext : TokenStream.next recording = .ok (recording.next.1, recording.next.2) := rfl
      refine ⟨recording.next.1 :: given, ?_, ?_⟩
      · rw [TokenStream.tokens_succ_of_next hnext, hgiven]
        rfl
      · have hfewer := recording.remaining_next
        rw [← List.singleton_append, List.countP_append]
        omega

namespace Parse

namespace Parser

variable {τ σ : Type} [TokenStream τ] {count : Nat} {parser : Parser τ σ}

/-- The stream can be pulled for ever, and with the lookahead it gives no more than `count` tokens
that do not end the input. -/
def AtMost (count : Nat) (parser : Parser τ σ) : Prop :=
  ∀ pulls, ∃ given, TokenStream.tokens pulls parser.stream = .ok given ∧
    (parser.lookahead :: given).countP (fun token => !token.isEnd) ≤ count

theorem AtMost.mono {more : Nat} (hatMost : parser.AtMost count) (hle : count ≤ more) :
    parser.AtMost more := by
  intro pulls
  obtain ⟨given, hgiven, hcount⟩ := hatMost pulls
  exact ⟨given, hgiven, Nat.le_trans hcount hle⟩

/-- A token that does not end the input is one less. -/
theorem AtMost.advance (hatMost : parser.AtMost count) :
    ∃ after, parser.advance = .ok (parser.lookahead, after) ∧ after.AtMost count ∧
      (parser.lookahead.isEnd = false → ∃ left < count, after.AtMost left) := by
  obtain ⟨given, hgiven, -⟩ := hatMost 1
  obtain ⟨token, rest, -, hnext, -, -⟩ := TokenStream.next_of_tokens_succ hgiven
  have hadvance : parser.advance = .ok (parser.lookahead, ⟨rest, token, parser.state⟩) := by
    simp only [Parser.advance, hnext]
  -- What is pulled behind the advance is what one pull more gives in front of it.
  have hpulls : ∀ pulls, ∃ later, TokenStream.tokens pulls rest = .ok later ∧
      (parser.lookahead :: token :: later).countP (fun token => !token.isEnd) ≤ count := by
    intro pulls
    obtain ⟨given, hgiven, hcount⟩ := hatMost (pulls + 1)
    rw [TokenStream.tokens_succ_of_next hnext] at hgiven
    obtain ⟨later, hlater, rfl⟩ := exists_of_map_eq_ok hgiven
    exact ⟨later, hlater, hcount⟩
  refine ⟨_, hadvance, ?_, ?_⟩
  · intro pulls
    obtain ⟨later, hlater, hcount⟩ := hpulls pulls
    exact ⟨later, hlater, Nat.le_trans (List.sublist_cons_self _ _).countP_le hcount⟩
  · intro hlookahead
    have hfewer : ∀ pulls, ∃ later, TokenStream.tokens pulls rest = .ok later ∧
        (token :: later).countP (fun token => !token.isEnd) < count := by
      intro pulls
      obtain ⟨later, hlater, hcount⟩ := hpulls pulls
      rw [List.countP_cons_of_pos (by simp [hlookahead])] at hcount
      exact ⟨later, hlater, hcount⟩
    obtain ⟨_, -, hpos⟩ := hfewer 0
    refine ⟨count - 1, by omega, ?_⟩
    intro pulls
    obtain ⟨later, hlater, hcount⟩ := hfewer pulls
    exact ⟨later, hlater, Nat.le_sub_one_of_lt hcount⟩

theorem atMost_recording (parser : Parser Recording σ) :
    parser.AtMost (parser.stream.remaining + 1) := by
  intro pulls
  obtain ⟨given, hgiven, hcount⟩ := parser.stream.tokens_countP pulls
  refine ⟨given, hgiven, ?_⟩
  calc (parser.lookahead :: given).countP (fun token => !token.isEnd)
      ≤ given.countP (fun token => !token.isEnd) + 1 := by
        rw [List.countP_cons]
        split <;> omega
    _ ≤ parser.stream.remaining + 1 := Nat.add_le_add_right hcount 1

end Parser

/-! ## Routines without loops -/

/-- Whatever it is answered, the routine returns after finitely many requests of its own. -/
inductive Grammar.Loopless {σ ε κ : Type} (grammar : Grammar σ ε κ) : κ → Prop
  | finish {control : κ} {chaining : Chaining}
      (hrequest : grammar.request control = .finish chaining) : Loopless grammar control
  | fail {control : κ} {error : ε} (hrequest : grammar.request control = .fail error) :
      Loopless grammar control
  | peek {control : κ} {resume : Token → κ} (hrequest : grammar.request control = .peek resume)
      (hrest : ∀ token, Loopless grammar (resume token)) : Loopless grammar control
  | advance {control : κ} {resume : Token → κ}
      (hrequest : grammar.request control = .advance resume)
      (hrest : ∀ token, Loopless grammar (resume token)) : Loopless grammar control
  | expect {control : κ} {kind : Kind} {resume : Bool → κ}
      (hrequest : grammar.request control = .expect kind resume)
      (hrest : ∀ matched, Loopless grammar (resume matched)) : Loopless grammar control
  | consult {control : κ} {act : σ → σ × κ} (hrequest : grammar.request control = .consult act)
      (hrest : ∀ state, Loopless grammar (act state).2) : Loopless grammar control
  | call {control : κ} {task : Task} {resume : Except ε Unit → List Kind → κ}
      (hcall : (grammar.request control).call? = some (task, resume))
      (hrest : ∀ result asked, Loopless grammar (resume result asked)) : Loopless grammar control

namespace Machine

variable {τ σ ε κ : Type} [TokenStream τ] {grammar : Grammar σ ε κ}

/-- From here on there is at no time a routine for the end of the input, nor one with a loop. -/
structure Orderly (grammar : Grammar σ ε κ) (machine : Machine τ σ ε κ) : Prop where
  ending : ∀ {history later kind start}, Reaches grammar machine history later →
    grammar.Offers later.parser.state kind start → kind.isEnd = false
  loopless : ∀ {history later kind start}, Reaches grammar machine history later →
    grammar.Offers later.parser.state kind start → ∀ token, grammar.Loopless (start token)

theorem Orderly.later {machine later : Machine τ σ ε κ} {history : List Event}
    (horderly : Orderly grammar machine) (hreaches : Reaches grammar machine history later) :
    Orderly grammar later :=
  ⟨fun hlater => horderly.ending (hreaches.trans hlater),
    fun hlater => horderly.loopless (hreaches.trans hlater)⟩

/-! ## Tasks come to an answer -/

/-- A machine in an orderly grammar, with at most `count` tokens left. -/
structure Ready (grammar : Grammar σ ε κ) (count : Nat) (machine : Machine τ σ ε κ) : Prop where
  orderly : Orderly grammar machine
  atMost : machine.parser.AtMost count
  loopless : ∀ control, machine.control = .routine control → grammar.Loopless control

/-- The task in hand comes to an answer, with at most `count` tokens left. -/
def Settles (grammar : Grammar σ ε κ) (count : Nat) (machine : Machine τ σ ε κ) : Prop :=
  ∃ history result asked after,
    Reaches grammar machine history ⟨.answer result asked, machine.frames, after⟩ ∧
    after.AtMost count

/-- Everything comes to an answer when fewer than `count` tokens are left. -/
def SettleBelow (τ : Type) [TokenStream τ] (grammar : Grammar σ ε κ) (count : Nat) : Prop :=
  ∀ left < count, ∀ machine : Machine τ σ ε κ,
    Ready grammar left machine → Settles grammar left machine

/-- The next step consumes the lookahead and hands it to its routine, if there is one, which will
answer to the frames `inner` in front of those that wait already. -/
structure Dispatches (grammar : Grammar σ ε κ) (machine : Machine τ σ ε κ)
    (routine : σ → Kind → Option (Token → κ)) (inner : List (Frame ε κ)) : Prop where
  offers : ∀ state kind start, routine state kind = some start → grammar.Offers state kind start
  step : ∀ after, machine.parser.advance = .ok (machine.parser.lookahead, after) →
    step grammar machine =
      .ok (dispatch grammar (routine after.state machine.parser.lookahead.kind)
        machine.parser.lookahead (inner ++ machine.frames) machine.frames after)

section Tasks

variable {count left : Nat} {task : Control ε κ} {frames inner : List (Frame ε κ)}
  {parser after : Parser τ σ} {history : List Event} {routine : σ → Kind → Option (Token → κ)}

theorem dispatches_expression (bound : Precedence) :
    Dispatches grammar ⟨.expression bound, frames, parser⟩ grammar.prefixRoutine
      [.operand bound] := by
  refine ⟨fun _ _ _ => .inl, ?_⟩
  intro after hadvance
  simp only [Machine.step, hadvance]
  rfl

theorem dispatches_operators {bound : Precedence}
    (hbound : ¬ grammar.precedence parser.state parser.lookahead.kind ≤ bound) :
    Dispatches grammar ⟨.operators bound, frames, parser⟩ grammar.infixRoutine
      [.operator bound (grammar.precedence parser.state parser.lookahead.kind)] := by
  refine ⟨fun _ _ _ h => .inr (.inl h), ?_⟩
  intro after hadvance
  simp only [Machine.step, hbound, if_false, hadvance]
  rfl

theorem dispatches_statement :
    Dispatches grammar ⟨.statement, frames, parser⟩ grammar.statementRoutine [] := by
  refine ⟨fun _ _ _ h => .inr (.inr h), ?_⟩
  intro after hadvance
  simp only [Machine.step, hadvance]
  rfl

/-- A token that is consumed has no routine, or it is used up when its routine answers. -/
theorem Dispatches.answers (hdispatches : Dispatches grammar ⟨task, frames, parser⟩ routine inner)
    (hbelow : SettleBelow τ grammar count) (horderly : Orderly grammar ⟨task, frames, parser⟩)
    (hatMost : parser.AtMost count) :
    (∃ history error after, Reaches grammar ⟨task, frames, parser⟩ history
        ⟨.answer (.error error) [], frames, after⟩ ∧ after.AtMost count) ∨
      ∃ left < count, ∃ history result asked after,
        Reaches grammar ⟨task, frames, parser⟩ history
          ⟨.answer result asked, inner ++ frames, after⟩ ∧ after.AtMost left := by
  obtain ⟨after, hadvance, hafter, hfewer⟩ := hatMost.advance
  have hdispatched := Reaches.one (hdispatches.step after hadvance)
  cases hroutine : routine after.state parser.lookahead.kind with
  | none =>
      rw [hroutine] at hdispatched
      exact .inl ⟨_, _, after, hdispatched, hafter⟩
  | some start =>
      -- The end has no routine, so the token is not the end and one less is left.
      have hoffer := hdispatches.offers _ _ _ hroutine
      rw [(Parser.input_advance_ok hadvance).2] at hoffer
      obtain ⟨left, hlt, hleft⟩ := hfewer (horderly.ending .start hoffer)
      rw [hroutine] at hdispatched
      have hready : Ready grammar left
          ⟨.routine (start parser.lookahead), inner ++ frames, after⟩ := by
        refine ⟨horderly.later hdispatched, hleft, ?_⟩
        intro control hcontrol
        cases hcontrol
        exact horderly.loopless .start hoffer parser.lookahead
      obtain ⟨later, result, asked, last, hlater, hlast⟩ := hbelow left hlt _ hready
      exact .inr ⟨left, hlt, _, result, asked, last, hdispatched.trans hlater, hlast⟩

omit [TokenStream τ] in
private theorem deliver_ne_routine {frame : Frame ε κ} (hframe : ∀ resume, frame ≠ .caller resume)
    (result : Answer ε) (asked : List Kind) (control : κ) :
    deliver result asked frame ≠ .routine control := by
  cases frame with
  | caller resume => exact absurd rfl (hframe resume)
  | _ => cases result <;> nofun

/-- The engine goes on with an answer to itself when fewer tokens are left. -/
theorem settles_of_answer {frame : Frame ε κ} {result : Answer ε} {asked : List Kind}
    (hbelow : SettleBelow τ grammar count) (horderly : Orderly grammar ⟨task, frames, parser⟩)
    (hreaches : Reaches grammar ⟨task, frames, parser⟩ history
      ⟨.answer result asked, frame :: frames, after⟩)
    (hatMost : after.AtMost left) (hlt : left < count)
    (hframe : ∀ resume, frame ≠ .caller resume) :
    Settles grammar count ⟨task, frames, parser⟩ := by
  have hnext := hreaches.step rfl
  have hready : Ready grammar left ⟨deliver result asked frame, frames, after⟩ := by
    refine ⟨horderly.later hnext, hatMost, ?_⟩
    intro control hcontrol
    exact absurd hcontrol (deliver_ne_routine hframe result asked control)
  obtain ⟨_, result', asked', last, hlater, hlast⟩ := hbelow left hlt _ hready
  exact ⟨_, result', asked', last, hnext.trans hlater, hlast.mono (Nat.le_of_lt hlt)⟩

theorem Dispatches.settles {frame : Frame ε κ}
    (hdispatches : Dispatches grammar ⟨task, frames, parser⟩ routine [frame])
    (hbelow : SettleBelow τ grammar count) (horderly : Orderly grammar ⟨task, frames, parser⟩)
    (hatMost : parser.AtMost count) (hframe : ∀ resume, frame ≠ .caller resume) :
    Settles grammar count ⟨task, frames, parser⟩ := by
  rcases hdispatches.answers hbelow horderly hatMost with
    ⟨_, _, _, hreaches, hafter⟩ | ⟨_, hlt, _, _, _, _, hreaches, hafter⟩
  · exact ⟨_, _, _, _, hreaches, hafter⟩
  · exact settles_of_answer hbelow horderly hreaches hafter hlt hframe

/-- A task of the engine comes to an answer if everything does with fewer tokens left. -/
theorem settles_task (hbelow : SettleBelow τ grammar count)
    (htask : ∀ control, task ≠ .routine control)
    (horderly : Orderly grammar ⟨task, frames, parser⟩) (hatMost : parser.AtMost count) :
    Settles grammar count ⟨task, frames, parser⟩ := by
  cases task with
  | routine control => exact absurd rfl (htask control)
  | expression bound => exact (dispatches_expression bound).settles hbelow horderly hatMost nofun
  | operators bound =>
      by_cases hbound : grammar.precedence parser.state parser.lookahead.kind ≤ bound
      · have hstop : step grammar ⟨.operators bound, frames, parser⟩ =
            .ok ⟨.answer (.ok .allowed) [], frames, parser⟩ := if_pos hbound
        exact ⟨_, _, _, _, .one hstop, hatMost⟩
      · exact (dispatches_operators hbound).settles hbelow horderly hatMost nofun
  | statement =>
      rcases dispatches_statement.answers hbelow horderly hatMost with
        ⟨_, _, _, hreaches, hafter⟩ | ⟨_, hlt, _, _, _, _, hreaches, hafter⟩
      · exact ⟨_, _, _, _, hreaches, hafter⟩
      · exact ⟨_, _, _, _, hreaches, hafter.mono (Nat.le_of_lt hlt)⟩
  | statements accept asked =>
      by_cases haccept : accept asked parser.lookahead.kind = true
      · have hstep : step grammar ⟨.statements accept asked, frames, parser⟩ =
            .ok ⟨.statement, .statements accept (parser.lookahead.kind :: asked) :: frames,
              parser⟩ := if_pos haccept
        have hstarted := Reaches.one hstep
        -- The statement fails at once, or it has used up a token when the condition is asked again.
        rcases dispatches_statement.answers hbelow (horderly.later hstarted) hatMost with
          ⟨_, error, _, hreaches, hafter⟩ | ⟨_, hlt, _, _, _, _, hreaches, hafter⟩
        · exact ⟨_, .error error, _, _, hstarted.trans (hreaches.step rfl), hafter⟩
        · exact settles_of_answer hbelow horderly (hstarted.trans hreaches) hafter hlt nofun
      · have hstop : step grammar ⟨.statements accept asked, frames, parser⟩ =
            .ok ⟨.answer (.ok .allowed) (parser.lookahead.kind :: asked).reverse, frames, parser⟩ :=
          if_neg haccept
        exact ⟨_, _, _, _, .one hstop, hatMost⟩
  | answer result asked => exact ⟨[], result, asked, parser, .start, hatMost⟩

/-- A task that goes on as another one comes to the answer of that one. -/
theorem Orderly.settles_of_reaches {next : Control ε κ}
    (horderly : Orderly grammar ⟨task, frames, parser⟩)
    (hreaches : Reaches grammar ⟨task, frames, parser⟩ history ⟨next, frames, after⟩)
    (hnext : Orderly grammar ⟨next, frames, after⟩ →
      Settles grammar count ⟨next, frames, after⟩) :
    Settles grammar count ⟨task, frames, parser⟩ := by
  obtain ⟨_, result, asked, last, hlater, hlast⟩ := hnext (horderly.later hreaches)
  exact ⟨_, result, asked, last, hreaches.trans hlater, hlast⟩

/-- The engine takes up the task of a call, and the routine waits. -/
theorem step_of_call {control : κ} {called : Task} {resume : Except ε Unit → List Kind → κ}
    (hcall : (grammar.request control).call? = some (called, resume)) :
    step grammar ⟨.routine control, frames, parser⟩ =
      .ok ⟨called.control, .caller resume :: frames, parser⟩ := by
  cases hrequest : grammar.request control with
  | expression _ _ | statement _ | statements _ _ =>
      rw [hrequest] at hcall
      cases hcall
      simp only [step, hrequest, serve, Task.control]
  | _ =>
      rw [hrequest] at hcall
      cases hcall

omit [TokenStream τ] in
private theorem task_ne_routine (called : Task) (control : κ) :
    (called.control : Control ε κ) ≠ .routine control := by
  cases called <;> nofun

/-- A routine without a loop comes to an answer if everything does with fewer tokens left. -/
theorem settles_routine {control : κ} (hbelow : SettleBelow τ grammar count)
    (hloopless : grammar.Loopless control)
    (horderly : Orderly grammar ⟨.routine control, frames, parser⟩)
    (hatMost : parser.AtMost count) : Settles grammar count ⟨.routine control, frames, parser⟩ := by
  -- A request may leave the number of tokens as it is: hence the induction over the requests.
  induction hloopless generalizing frames parser with
  | @finish control chaining hrequest =>
      have hstep : step grammar ⟨.routine control, frames, parser⟩ =
          .ok ⟨.answer (.ok chaining) [], frames, parser⟩ := by
        simp only [step, hrequest, serve]
      exact ⟨_, _, _, _, .one hstep, hatMost⟩
  | @fail control error hrequest =>
      have hstep : step grammar ⟨.routine control, frames, parser⟩ =
          .ok ⟨.answer (.error error) [], frames, parser⟩ := by
        simp only [step, hrequest, serve]
      exact ⟨_, _, _, _, .one hstep, hatMost⟩
  | @peek control resume hrequest _ ih =>
      have hstep : step grammar ⟨.routine control, frames, parser⟩ =
          .ok ⟨.routine (resume parser.lookahead), frames, parser⟩ := by
        simp only [step, hrequest, serve]
      exact horderly.settles_of_reaches (.one hstep) fun hlater => ih _ hlater hatMost
  | @advance control resume hrequest _ ih =>
      obtain ⟨after, hadvance, hafter, -⟩ := hatMost.advance
      have hstep : step grammar ⟨.routine control, frames, parser⟩ =
          .ok ⟨.routine (resume parser.lookahead), frames, after⟩ := by
        simp only [step, hrequest, serve, hadvance]
      exact horderly.settles_of_reaches (.one hstep) fun hlater => ih _ hlater hafter
  | @expect control kind resume hrequest _ ih =>
      by_cases hkind : parser.lookahead.kind = kind
      · obtain ⟨after, hadvance, hafter, -⟩ := hatMost.advance
        have hstep : step grammar ⟨.routine control, frames, parser⟩ =
            .ok ⟨.routine (resume true), frames, after⟩ := by
          simp only [step, hrequest, serve, Parser.expect, hkind, hadvance, if_true]
        exact horderly.settles_of_reaches (.one hstep) fun hlater => ih _ hlater hafter
      · have hstep : step grammar ⟨.routine control, frames, parser⟩ =
            .ok ⟨.routine (resume false), frames, parser⟩ := by
          simp only [step, hrequest, serve, Parser.expect, hkind, if_false]
        exact horderly.settles_of_reaches (.one hstep) fun hlater => ih _ hlater hatMost
  | @consult control act hrequest _ ih =>
      have hstep : step grammar ⟨.routine control, frames, parser⟩ =
          .ok ⟨.routine (act parser.state).2, frames,
            parser.input.withState (act parser.state).1⟩ := by
        simp only [step, hrequest, serve]
        rfl
      exact horderly.settles_of_reaches (.one hstep) fun hlater => ih _ hlater hatMost
  | @call control called resume hcall _ ih =>
      have hstep : step grammar ⟨.routine control, frames, parser⟩ =
          .ok ⟨called.control, .caller resume :: frames, parser⟩ := step_of_call hcall
      have hcalled := Reaches.one hstep
      obtain ⟨_, result, asked, after, hreaches, hafter⟩ :=
        settles_task hbelow (task_ne_routine called) (horderly.later hcalled) hatMost
      have hback := (hcalled.trans hreaches).step rfl
      exact horderly.settles_of_reaches hback fun hlater => ih _ _ hlater hafter

end Tasks

/-- **Everything comes to an answer**, whatever the number of tokens left. -/
theorem Ready.settles {count : Nat} {machine : Machine τ σ ε κ}
    (hready : Ready grammar count machine) : Settles grammar count machine := by
  induction count using Nat.strongRecOn generalizing machine with
  | ind count ih =>
      have hbelow : SettleBelow τ grammar count := fun left hlt machine => ih left hlt
      obtain ⟨task, frames, parser⟩ := machine
      by_cases htask : ∃ control, task = .routine control
      · obtain ⟨control, rfl⟩ := htask
        exact settles_routine hbelow (hready.loopless control rfl) hready.orderly hready.atMost
      · exact settles_task hbelow (not_exists.mp htask) hready.orderly hready.atMost

/-! ## Routines that are started -/

theorem Moves.offers_of_started {machine next : Machine τ σ ε κ} {event : Option Event}
    {token : Token} (hmoves : Moves grammar machine event next)
    (hstarted : event = some (.started token)) :
    ∃ start, grammar.Offers machine.parser.state token.kind start := by
  cases hmoves with
  | @dispatch task routine inner frames parser after token' hinner hroutine hadvance =>
      cases routine with
      | none => cases hstarted
      | some start =>
          cases hstarted
          exact ⟨start, hroutine start rfl⟩
  | _ => cases hstarted

/-- A token that starts a routine does not end the input. -/
theorem Orderly.isEnd_of_started {start machine : Machine τ σ ε κ} {history : List Event}
    {token : Token} (horderly : Orderly grammar start)
    (hreaches : Reaches grammar start history machine) (hmem : .started token ∈ history) :
    token.isEnd = false := by
  induction hreaches with
  | start => cases hmem
  | step hreaches hstep ih =>
      rcases List.mem_append.mp hmem with hmem | hmem
      · exact ih hmem
      · have hevent := Option.mem_toList.mp hmem
        obtain ⟨_, hoffer⟩ := (moves_of_step hstep).offers_of_started hevent
        exact horderly.ending hreaches hoffer

end Machine

/-- Whether a token was handed to its routine. -/
def Event.isStart : Event → Bool
  | started _ => true
  | _ => false

theorem Machine.Orderly.countP_isStart_le {τ σ ε κ : Type} [TokenStream τ] {grammar : Grammar σ ε κ}
    {start machine : Machine τ σ ε κ} {history : List Event}
    (horderly : Machine.Orderly grammar start)
    (hreaches : Machine.Reaches grammar start history machine) :
    history.countP Event.isStart ≤
      (history.map Event.token).countP (fun token => !token.isEnd) := by
  rw [List.countP_map]
  apply List.countP_mono_left
  intro event hmem hstart
  cases event with
  | started token => simp [Event.token, horderly.isEnd_of_started hreaches hmem]
  | taken token => cases hstart
  | refused token => cases hstart

/-- **Parsing comes to an end.**  On a recording, in a grammar that has at no time a routine for the
end of the input nor one with a loop of its own, every task comes to an answer: with fuel enough the
parser performs it.  On the way it runs at most as many routines as it consumes tokens in front of
the end. -/
theorem Parser.perform_terminates {σ ε κ : Type} {grammar : Grammar σ ε κ} (task : Task)
    (parser : Parser Recording σ)
    (horderly : Machine.Orderly grammar ⟨task.control, [], parser⟩) :
    ∃ history answer asked after cost,
      (∀ fuel, cost ≤ fuel → parser.perform grammar fuel task.control =
        .ok (answer.map fun _ => (), asked, after)) ∧
      Machine.Ends grammar ⟨task.control, [], parser⟩ history answer asked after ∧
      Parser.Consumes parser.input (history.map Event.token) after.input ∧
      history.countP Event.isStart ≤
        (history.map Event.token).countP (fun token => !token.isEnd) := by
  have hready : Machine.Ready grammar (parser.stream.remaining + 1)
      ⟨task.control, [], parser⟩ := by
    refine ⟨horderly, parser.atMost_recording, ?_⟩
    intro control hcontrol
    exact absurd hcontrol (Machine.task_ne_routine task control)
  obtain ⟨history, answer, asked, after, hreaches, -⟩ := hready.settles
  obtain ⟨cost, hcost⟩ := Parser.perform_of_reaches hreaches
  exact ⟨history, answer, asked, after, cost, hcost, hreaches.ends, hreaches.consumes,
    horderly.countP_isStart_le hreaches⟩

/-! ## Outlines -/

namespace Outline

def heading : Kind := ⟨1⟩

def word : Kind := ⟨2⟩

inductive Point
  | title
  | lines
  | done

/-- A heading is followed by a word and by further headings.  Their list goes on whatever stands
there, no routine minds an error, and the end of the input binds like an operator. -/
def grammar : Grammar Unit SyntaxError Point where
  precedence _ kind := if kind.isEnd then 1 else 0
  prefixRoutine _ kind := if kind = word then some fun _ => .done else none
  infixRoutine _ _ := none
  statementRoutine _ kind := if kind = heading then some fun _ => .title else none
  misplaced _ token := .ofToken token
  request
    | .title => .expression 0 fun _ => .lines
    | .lines => .statements (fun _ _ => true) fun _ _ => .done
    | .done => .finish .allowed

theorem isEnd_of_offers {kind : Kind} {start : Token → Point}
    (hoffer : grammar.Offers () kind start) : kind.isEnd = false := by
  rcases hoffer with hoffer | hoffer | hoffer
  · obtain ⟨rfl, -⟩ := Option.ite_none_right_eq_some.mp hoffer
    rfl
  · cases hoffer
  · obtain ⟨rfl, -⟩ := Option.ite_none_right_eq_some.mp hoffer
    rfl

theorem loopless (point : Point) : grammar.Loopless point := by
  have hdone : grammar.Loopless .done := .finish rfl
  have hlines : grammar.Loopless .lines := .call rfl fun _ _ => hdone
  cases point with
  | title => exact .call rfl fun _ _ => hlines
  | lines => exact hlines
  | done => exact hdone

theorem orderly (machine : Machine Recording Unit SyntaxError Point) :
    Machine.Orderly grammar machine :=
  ⟨fun _ hoffer => isEnd_of_offers hoffer, fun _ _ _ => loopless _⟩

/-- A heading in a heading, each with its word. -/
def first : Parser Recording Unit :=
  .ofRecording (.ofTokens [⟨heading, "one", .unknown⟩, ⟨word, "a", .unknown⟩,
    ⟨heading, "two", .unknown⟩, ⟨word, "b", .unknown⟩])

end Outline

/-- The list of headings goes on behind the last word until the end of the input has no routine. -/
theorem Parser.perform_terminates_outline :
    Machine.Orderly Outline.grammar ⟨Task.statement.control, [], Outline.first⟩ ∧
      ∃ history answer asked after cost,
        (∀ fuel, cost ≤ fuel → Outline.first.perform Outline.grammar fuel .statement =
          .ok (answer.map fun _ => (), asked, after)) ∧
        Machine.Ends Outline.grammar ⟨.statement, [], Outline.first⟩ history answer asked after ∧
        Parser.Consumes Outline.first.input (history.map Event.token) after.input ∧
        history.countP Event.isStart ≤
          (history.map Event.token).countP (fun token => !token.isEnd) :=
  ⟨Outline.orderly _, Parser.perform_terminates .statement Outline.first (Outline.orderly _)⟩

end Parse

end FrontEnd
