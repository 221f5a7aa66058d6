import FrontEnd.Scan.Scanner

/-!
# Scanning over cursors that cannot be told apart

Two cursors are told apart by what they show: the lookahead, its width, the text since the mark and
a failed read.  A relation between cursors is a `Cursor.Similarity` if related cursors show the
same, a failed read apart, and stay related when both are moved in the same way; it is a
`Cursor.Bisimulation` if they agree on a failed read as well.  Since scanning works on cursors
through these operations only, the relation carries over to everything above: trackers, runs of a
scanning program, single tokens, and whole histories of a scanner.

## Strategy

Each level has a relation of its own, with the relation between the cursors as a parameter, and
lemmas that say what one operation preserves.  Where the operation returns something besides the
new state, `Agree` says that both sides return the same value, or abandon the scan for the same
cause.  The results are `Program.agree_run_of_similarity`, by induction over the number of requests,
and `Scanner.agree_play`, by induction over the history.
-/

namespace FrontEnd

variable {γ δ ι υ : Type} [Cursor γ ι] [Cursor δ υ]

/-- Related cursors show the same, a failed read apart, and go on doing so. -/
structure Cursor.Similarity (related : γ → δ → Prop) : Prop where
  peek : ∀ {first second}, related first second → Cursor.peek first = Cursor.peek second
  width : ∀ {first second}, related first second → Cursor.width first = Cursor.width second
  lexeme : ∀ {first second}, related first second → Cursor.lexeme first = Cursor.lexeme second
  advance : ∀ {first second}, related first second → (Cursor.peek first).isSome →
    related (Cursor.advance first) (Cursor.advance second)
  mark : ∀ {first second}, related first second → related (Cursor.mark first) (Cursor.mark second)

/-- Related cursors show the same, and go on doing so. -/
structure Cursor.Bisimulation (related : γ → δ → Prop) : Prop
    extends Cursor.Similarity related where
  failure : ∀ {first second}, related first second →
    Cursor.failure? first = Cursor.failure? second

instance {related : γ → δ → Prop} :
    Coe (Cursor.Bisimulation related) (Cursor.Similarity related) :=
  ⟨Cursor.Bisimulation.toSimilarity⟩

/-! ## Trackers -/

namespace Tracker

theorem takeWhileFrom_eq (accept : Char → Bool) (count : Nat) (tracker : Tracker γ) :
    takeWhileFrom accept count tracker =
      match tracker.peek with
      | none => (count, tracker)
      | some character =>
        if accept character then takeWhileFrom accept (count + 1) tracker.advance
        else (count, tracker) := by
  rw [takeWhileFrom]
  split <;> rename_i hpeek <;> rw [hpeek]

/-- The cursors are related and the locations are the same. -/
structure Mirrors (related : γ → δ → Prop) (first : Tracker γ) (second : Tracker δ) : Prop where
  cursor : related first.cursor second.cursor
  here : first.here = second.here
  start : first.start = second.start

namespace Mirrors

variable {related : γ → δ → Prop} {first : Tracker γ} {second : Tracker δ}

theorem peek (hrelated : Cursor.Similarity related) (hmirrors : Mirrors related first second) :
    first.peek = second.peek :=
  hrelated.peek hmirrors.cursor

theorem isDone (hrelated : Cursor.Similarity related) (hmirrors : Mirrors related first second) :
    first.isDone = second.isDone := by
  unfold Tracker.isDone
  rw [hmirrors.peek hrelated]

theorem text (hrelated : Cursor.Similarity related) (hmirrors : Mirrors related first second) :
    first.text = second.text :=
  hrelated.lexeme hmirrors.cursor

theorem failure (hrelated : Cursor.Bisimulation related)
    (hmirrors : Mirrors related first second) : first.failure? = second.failure? :=
  hrelated.failure hmirrors.cursor

theorem advance (hrelated : Cursor.Similarity related)
    (hmirrors : Mirrors related first second) : Mirrors related first.advance second.advance := by
  have hpeek := hmirrors.peek hrelated
  unfold Tracker.advance
  cases hfirst : first.peek with
  | none =>
      rw [← hpeek, hfirst]
      exact hmirrors
  | some character =>
      rw [← hpeek, hfirst]
      refine ⟨hrelated.advance hmirrors.cursor ?_, ?_, hmirrors.start⟩
      · show first.peek.isSome
        rw [hfirst, Option.isSome_some]
      · show first.here.past _ _ = second.here.past _ _
        rw [hmirrors.here, hrelated.width hmirrors.cursor]

theorem mark (hrelated : Cursor.Similarity related) (hmirrors : Mirrors related first second) :
    Mirrors related first.mark second.mark where
  cursor := hrelated.mark hmirrors.cursor
  here := hmirrors.here
  start := hmirrors.here

theorem takeIf (hrelated : Cursor.Similarity related) (hmirrors : Mirrors related first second)
    (accept : Char → Bool) :
    (first.takeIf accept).1 = (second.takeIf accept).1 ∧
      Mirrors related (first.takeIf accept).2 (second.takeIf accept).2 := by
  unfold Tracker.takeIf
  rw [← hmirrors.peek hrelated]
  cases first.peek with
  | none => exact ⟨rfl, hmirrors⟩
  | some character =>
      dsimp only
      by_cases haccept : accept character
      · rw [if_pos haccept, if_pos haccept]
        exact ⟨rfl, hmirrors.advance hrelated⟩
      · rw [if_neg haccept, if_neg haccept]
        exact ⟨rfl, hmirrors⟩

private theorem takeWhileFrom (hrelated : Cursor.Similarity related) (accept : Char → Bool)
    (count : Nat) (first : Tracker γ) :
    ∀ {second : Tracker δ}, Mirrors related first second →
      (Tracker.takeWhileFrom accept count first).1 = (Tracker.takeWhileFrom accept count second).1 ∧
        Mirrors related (Tracker.takeWhileFrom accept count first).2
          (Tracker.takeWhileFrom accept count second).2 := by
  fun_induction Tracker.takeWhileFrom accept count first with
  | case1 count first hpeek =>
      intro second hmirrors
      rw [takeWhileFrom_eq, ← hmirrors.peek hrelated, hpeek]
      exact ⟨rfl, hmirrors⟩
  | case2 count first character hpeek haccept ih =>
      intro second hmirrors
      rw [takeWhileFrom_eq accept count second, ← hmirrors.peek hrelated, hpeek]
      simp only [haccept, if_true]
      exact ih (hmirrors.advance hrelated)
  | case3 count first character hpeek haccept =>
      intro second hmirrors
      rw [takeWhileFrom_eq, ← hmirrors.peek hrelated, hpeek]
      simp only [haccept]
      exact ⟨rfl, hmirrors⟩

theorem takeWhile (hrelated : Cursor.Similarity related)
    (hmirrors : Mirrors related first second) (accept : Char → Bool) :
    (first.takeWhile accept).1 = (second.takeWhile accept).1 ∧
      Mirrors related (first.takeWhile accept).2 (second.takeWhile accept).2 :=
  takeWhileFrom hrelated accept 0 first hmirrors

end Mirrors

end Tracker

namespace Scan

/-- Both scans were abandoned for the same cause, or returned the same value and related states. -/
inductive Agree {ω α β : Type} (related : α → β → Prop) :
    Except Halt (ω × α) → Except Halt (ω × β) → Prop
  | error (cause : Halt) : Agree related (.error cause) (.error cause)
  | ok (value : ω) {first : α} {second : β} (hrelated : related first second) :
    Agree related (.ok (value, first)) (.ok (value, second))

/-- Scans that agree go on to agree if they do so from the same value and related states. -/
theorem Agree.bind {ω ω' α α' β β' : Type} {related : α → β → Prop} {related' : α' → β' → Prop}
    {first : Except Halt (ω × α)} {second : Except Halt (ω × β)}
    {goOn : ω × α → Except Halt (ω' × α')} {goOn' : ω × β → Except Halt (ω' × β')}
    (hagree : Agree related first second)
    (hgoOn : ∀ value {left right}, related left right →
      Agree related' (goOn (value, left)) (goOn' (value, right))) :
    Agree related' (first >>= goOn) (second >>= goOn') := by
  cases hagree with
  | error cause => exact .error cause
  | ok value hrelated => exact hgoOn value hrelated

/-- Scans that agree do so whatever is made of the value. -/
theorem Agree.map {ω ω' α β : Type} {related : α → β → Prop} {first : Except Halt (ω × α)}
    {second : Except Halt (ω × β)} (hagree : Agree related first second) (change : ω → ω') :
    Agree related (first.map fun (value, state) => (change value, state))
      (second.map fun (value, state) => (change value, state)) := by
  cases hagree with
  | error cause => exact .error cause
  | ok value hrelated => exact .ok (change value) hrelated

theorem Agree.imp {ω α β : Type} {related related' : α → β → Prop}
    {first : Except Halt (ω × α)} {second : Except Halt (ω × β)} (hagree : Agree related first second)
    (himp : ∀ left right, related left right → related' left right) : Agree related' first second := by
  cases hagree with
  | error cause => exact .error cause
  | ok value hrelated => exact .ok value (himp _ _ hrelated)

/-! ## Programs -/

variable {κ : Type} {related : γ → δ → Prop}

/-- A program that is run over similar cursors makes the same requests, gets the same answers and
returns the same kind, if the cursors agree on a failed read whenever the program asks for it. -/
theorem Program.agree_run_of_similarity (hrelated : Cursor.Similarity related) (program : Program κ)
    (hfailure : ∀ {control resume}, program.request control = .failure resume →
      ∀ {first second}, related first second → Cursor.failure? first = Cursor.failure? second)
    (fuel : Nat) {control : κ} {first : Tracker γ} {second : Tracker δ}
    (hmirrors : Tracker.Mirrors related first second) :
    Agree (fun left right => left.1 = right.1 ∧ Tracker.Mirrors related left.2 right.2)
      (program.run fuel control first) (program.run fuel control second) := by
  induction fuel generalizing control first second with
  | zero => exact .error .outOfFuel
  | succ fuel ih =>
      unfold Program.run
      -- Both sides get the same answer, so both go on at the same control point.
      cases hrequest : program.request control with
      | finish kind next => exact .ok kind ⟨rfl, hmirrors⟩
      | peek resume =>
          rw [← hmirrors.peek hrelated]
          exact ih hmirrors
      | advance next => exact ih (hmirrors.advance hrelated)
      | mark next => exact ih (hmirrors.mark hrelated)
      | text resume =>
          rw [← hmirrors.text hrelated]
          exact ih hmirrors
      | takeIf accept resume =>
          obtain ⟨htaken, hafter⟩ := hmirrors.takeIf hrelated accept
          dsimp only
          rw [htaken]
          exact ih hafter
      | takeWhile accept resume =>
          obtain ⟨hcount, hafter⟩ := hmirrors.takeWhile hrelated accept
          dsimp only
          rw [hcount]
          exact ih hafter
      | failure resume =>
          have hsame : first.failure? = second.failure? := hfailure hrequest hmirrors.cursor
          rw [← hsame]
          exact ih hmirrors
      | halt cause => exact .error cause

theorem Program.agree_run (hrelated : Cursor.Bisimulation related) (program : Program κ) (fuel : Nat)
    {control : κ} {first : Tracker γ} {second : Tracker δ}
    (hmirrors : Tracker.Mirrors related first second) :
    Agree (fun left right => left.1 = right.1 ∧ Tracker.Mirrors related left.2 right.2)
      (program.run fuel control first) (program.run fuel control second) :=
  program.agree_run_of_similarity hrelated (fun _ => hrelated.failure) fuel hmirrors

/-! ## Scanners -/

/-- What is asked of a scanner: the next token, or to be bound to another input. -/
inductive Command (ι : Type)
  | next
  | reset (input : ι)

/-- The same commands with the inputs in another form. -/
def Command.map {μ ι : Type} (form : μ → ι) : Command μ → Command ι
  | next => next
  | reset input => reset (form input)

namespace Scanner

/-- The tokens that a scanner returns in the course of a history, and the scanner behind it. -/
def play (scanner : Scanner γ κ) : List (Command ι) → Except Halt (List Token × Scanner γ κ)
  | [] => .ok ([], scanner)
  | .next :: rest => do
    let (token, scanner) ← scanner.next
    let (tokens, scanner) ← scanner.play rest
    return (token :: tokens, scanner)
  | .reset input :: rest => (scanner.reset input).play rest

section Next

variable {scanner : Scanner γ κ}

theorem next_ended {position : Position} (hended : scanner.ended = some position) :
    scanner.next = .ok (.ending position, scanner) := by
  simp only [next, hended]

theorem next_failed (hended : scanner.ended = none)
    (hfailed : (scanner.failure?.isSome && scanner.tracker.isDone) = true) :
    scanner.next = .ok (.ending (scanner.tracker.here.inFile scanner.filename),
      { scanner with ended := some (scanner.tracker.here.inFile scanner.filename) }) := by
  simp only [next, hended, hfailed, if_true]

/-- The scanner behind a token of the given kind that a run of the program has found. -/
def behind (scanner : Scanner γ κ) (kind : Kind) (control : κ) (tracker : Tracker γ) :
    Scanner γ κ :=
  { scanner with
    tracker := tracker.mark
    control
    ended := if kind.isEnd then some (tracker.start.inFile scanner.filename) else none
    runs := scanner.runs + 1 }

theorem next_running (hended : scanner.ended = none)
    (hrunning : (scanner.failure?.isSome && scanner.tracker.isDone) = false) :
    scanner.next = scanner.program.run scanner.budget scanner.control scanner.tracker >>=
      fun (kind, control, tracker) =>
        .ok (⟨kind, tracker.text, tracker.start.inFile scanner.filename⟩,
          scanner.behind kind control tracker) := by
  simp only [next, hended, hrunning]
  cases scanner.program.run scanner.budget scanner.control scanner.tracker with
  | error cause => rfl
  | ok found => rfl

end Next

/-- The trackers mirror each other and all the rest is the same. -/
structure Mirrors (related : γ → δ → Prop) (first : Scanner γ κ) (second : Scanner δ κ) : Prop where
  tracker : Tracker.Mirrors related first.tracker second.tracker
  program : first.program = second.program
  control : first.control = second.control
  budget : first.budget = second.budget
  filename : first.filename = second.filename
  ended : first.ended = second.ended
  runs : first.runs = second.runs

namespace Mirrors

variable {first : Scanner γ κ} {second : Scanner δ κ}

theorem behind (hrelated : Cursor.Similarity related)
    (hmirrors : Mirrors related first second) {control : κ} {left : Tracker γ} {right : Tracker δ}
    (htracker : Tracker.Mirrors related left right) (kind : Kind) :
    Mirrors related (first.behind kind control left) (second.behind kind control right) where
  tracker := htracker.mark hrelated
  program := hmirrors.program
  control := rfl
  budget := hmirrors.budget
  filename := hmirrors.filename
  ended := by
    unfold Scanner.behind
    rw [htracker.start, hmirrors.filename]
  runs := congrArg (· + 1) hmirrors.runs

theorem next (hrelated : Cursor.Bisimulation related) (hmirrors : Mirrors related first second) :
    Agree (Mirrors related) first.next second.next := by
  have hdone : (first.failure?.isSome && first.tracker.isDone) =
      (second.failure?.isSome && second.tracker.isDone) := by
    unfold Scanner.failure?
    rw [hmirrors.tracker.failure hrelated, hmirrors.tracker.isDone hrelated]
  have hended := hmirrors.ended
  cases hfirst : first.ended with
  | some position =>
      rw [next_ended hfirst, next_ended (hended ▸ hfirst)]
      exact .ok _ hmirrors
  | none =>
      by_cases hfailed : (first.failure?.isSome && first.tracker.isDone) = true
      · have hposition : first.tracker.here.inFile first.filename =
            second.tracker.here.inFile second.filename := by
          rw [hmirrors.tracker.here, hmirrors.filename]
        rw [next_failed hfirst hfailed, next_failed (hended ▸ hfirst) (hdone ▸ hfailed), hposition]
        exact .ok _ { hmirrors with ended := rfl }
      · rw [Bool.not_eq_true] at hfailed
        have hrun : Agree _ (first.program.run first.budget first.control first.tracker)
            (first.program.run first.budget first.control second.tracker) :=
          first.program.agree_run hrelated first.budget hmirrors.tracker
        rw [next_running hfirst hfailed, next_running (hended ▸ hfirst) (hdone ▸ hfailed),
          ← hmirrors.program, ← hmirrors.control, ← hmirrors.budget]
        refine hrun.bind ?_
        rintro kind ⟨control, left⟩ ⟨_, right⟩ ⟨rfl, htracker⟩
        dsimp only
        rw [htracker.text hrelated, htracker.start, hmirrors.filename]
        exact .ok _ (hmirrors.behind hrelated htracker kind)

theorem reset {left : ι} {right : υ}
    (hmirrors : Mirrors related first second)
    (hinput : related (Cursor.reset first.tracker.cursor left)
      (Cursor.reset second.tracker.cursor right)) :
    Mirrors related (first.reset left) (second.reset right) where
  tracker := ⟨hinput, rfl, rfl⟩
  program := hmirrors.program
  control := hmirrors.control
  budget := hmirrors.budget
  filename := hmirrors.filename
  ended := rfl
  runs := hmirrors.runs

end Mirrors

/-- Two scanners that mirror each other return the same tokens in the course of a history in which
both are always bound to inputs with related cursors. -/
theorem agree_play (hrelated : Cursor.Bisimulation related) {μ : Type} {left : μ → ι} {right : μ → υ}
    (hinputs : ∀ input first second,
      related (Cursor.reset first (left input)) (Cursor.reset second (right input)))
    (history : List (Command μ)) {first : Scanner γ κ} {second : Scanner δ κ}
    (hmirrors : Mirrors related first second) :
    Agree (Mirrors related) (first.play (history.map (.map left)))
      (second.play (history.map (.map right))) := by
  induction history generalizing first second with
  | nil => exact .ok [] hmirrors
  | cons command history ih =>
      cases command with
      | next =>
          refine (hmirrors.next hrelated).bind ?_
          intro token left right hafter
          refine (ih hafter).bind ?_
          intro tokens left right hfinal
          exact .ok (token :: tokens) hfinal
      | reset input => exact ih (hmirrors.reset (hinputs input _ _))

end Scanner

end Scan

end FrontEnd
