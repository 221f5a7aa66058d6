import FrontEnd.Input.Script
import FrontEnd.Proofs.Parse.Locality
import FrontEnd.Proofs.Scan.Calls

/-!
# Scanners that are used again

A scanner that is bound to another input keeps nothing of what it has read before, if its program
keeps nothing between tokens.  It is then the scanner that would be opened on that input, apart from
the number of times that its program was run (`Scanner.reset_eq_reused`).  That number goes into
nothing that a scanner does, so from there on the two cannot be told apart, neither by calls nor by
a parser that pulls from them.
-/

namespace FrontEnd.Scan

variable {γ ι κ : Type} [Cursor γ ι]

/-! ## Programs that keep nothing -/

namespace Rule

theorem decideBy_ne_finish (condition : Condition) (resume : Bool → κ) (kind : Kind) (next : κ) :
    decideBy condition resume ≠ .finish kind next := by
  cases condition <;> nofun

/-- A program of rules starts every token with all of its rules. -/
theorem stateless_program (rules : List Rule) : (program rules).Stateless := by
  intro pending kind next hfinish
  change request rules pending = .finish kind next at hfinish
  cases pending with
  | nil =>
      cases hfinish
      rfl
  | cons rule rest =>
      cases rule with
      | result found =>
          cases hfinish
          rfl
      | keyword words base otherwise =>
          cases hwords : Keywords.ofWords words <;>
            simp [request, hwords, Request.keyword] at hfinish
      | branch condition yes no => exact absurd hfinish (decideBy_ne_finish _ _ _ _)
      | repeatWhile condition body => exact absurd hfinish (decideBy_ne_finish _ _ _ _)
      | _ => cases hfinish

end Rule

namespace Scanner

/-- The program keeps nothing between tokens, and starts the next one at its beginning. -/
structure Rested (scanner : Scanner γ κ) : Prop where
  stateless : scanner.program.Stateless
  control : scanner.control = scanner.program.start

theorem invariant_rested : Invariant (Rested : Scanner γ κ → Prop) where
  yields := by
    intro scanner token after hrested hyields
    cases hyields with
    | again => exact hrested
    | failed => exact ⟨hrested.stateless, hrested.control⟩
    | found _ hrun =>
        obtain ⟨last, hfinish⟩ := Program.finish_of_run hrun
        exact ⟨hrested.stateless, hrested.stateless last _ _ hfinish⟩
  reset _ hrested := ⟨hrested.stateless, hrested.control⟩

/-! ## Runs before -/

/-- The scanner as if its program had been run `runs` times before. -/
def reused (scanner : Scanner γ κ) (runs : Nat) : Scanner γ κ :=
  { scanner with runs := runs + scanner.runs }

theorem next_reused (scanner : Scanner γ κ) (runs : Nat) :
    (scanner.reused runs).next =
      scanner.next.map fun (token, after) => (token, after.reused runs) := by
  have hended_eq : (scanner.reused runs).ended = scanner.ended := rfl
  have hfailed_eq :
      ((scanner.reused runs).failure?.isSome && (scanner.reused runs).tracker.isDone) =
        (scanner.failure?.isSome && scanner.tracker.isDone) := rfl
  cases hended : scanner.ended with
  | some position =>
      rw [next_ended hended, next_ended (hended_eq.trans hended)]
      rfl
  | none =>
      by_cases hfailed : (scanner.failure?.isSome && scanner.tracker.isDone) = true
      · rw [next_failed hended hfailed,
          next_failed (hended_eq.trans hended) (hfailed_eq.trans hfailed)]
        rfl
      · rw [Bool.not_eq_true] at hfailed
        rw [next_running hended hfailed,
          next_running (hended_eq.trans hended) (hfailed_eq.trans hfailed)]
        show scanner.program.run scanner.budget scanner.control scanner.tracker >>= _ = _
        cases scanner.program.run scanner.budget scanner.control scanner.tracker <;> rfl

theorem call_reused (scanner : Scanner γ κ) (runs : Nat) (call : Call ι) :
    (scanner.reused runs).call call =
      (scanner.call call).map fun (reply, after) => (reply, after.reused runs) := by
  cases call with
  | next =>
      unfold Scanner.call
      rw [next_reused]
      cases scanner.next <;> rfl
  | nextBeforeEnd =>
      have hnext : TokenStream.next (scanner.reused runs) =
          (TokenStream.next scanner).map fun (token, after) => (token, after.reused runs) :=
        next_reused scanner runs
      unfold Scanner.call TokenStream.nextBeforeEnd?
      rw [hnext]
      cases TokenStream.next scanner <;> rfl
  | reset input => rfl

theorem calls_reused (scanner : Scanner γ κ) (runs : Nat) (history : List (Call ι)) :
    (scanner.reused runs).calls history =
      (scanner.calls history).map fun (replies, after) => (replies, after.reused runs) := by
  induction history generalizing scanner with
  | nil => rfl
  | cons call history ih =>
      unfold calls
      rw [call_reused]
      cases scanner.call call with
      | error cause => rfl
      | ok answered =>
          obtain ⟨reply, after⟩ := answered
          show ((after.reused runs).calls history >>= _) = Except.map _ (after.calls history >>= _)
          rw [ih]
          cases after.calls history <;> rfl

theorem keeps_reused (runs : Nat) :
    TokenStream.Keeps fun _ (first second : Scanner γ κ) => first = second.reused runs := by
  rintro - first second rfl
  show Agree _ (second.reused runs).next second.next
  rw [next_reused]
  cases second.next with
  | error cause => exact .error cause
  | ok pulled => exact .ok pulled.1 rfl

/-! ## A new input -/

/-- Bound to another input, a scanner is the one that would be opened on it. -/
theorem reset_eq_reused [Cursor.Mode γ ι] {program : Program κ} {budget : Nat} {filename : String}
    {scanner : Scanner γ κ} (hmade : scanner.MadeWith program budget filename)
    (hrested : scanner.Rested) (input : ι) :
    scanner.reset input =
      (ofCursor (Cursor.Mode.opened input) program budget filename).reused scanner.runs := by
  have htracker : scanner.tracker.reset input = .ofCursor (Cursor.Mode.opened input) :=
    congrArg Tracker.ofCursor (Cursor.Mode.reset_eq scanner.tracker.cursor input)
  have hcontrol := hrested.control
  obtain ⟨rfl, rfl, rfl⟩ := hmade
  simp only [reset, reused, ofCursor, htracker, hcontrol, Nat.add_zero]

end Scanner

section Parsers

open Parse (Grammar Operation Parser)

variable {σ ε μ : Type}

/-- The parsers look the same, and so do their scanners, but that the first one's program was run
`runs` times before. -/
structure LookAlike (runs : Nat) (first second : Parser (Scanner γ κ) σ) : Prop where
  looksLike : first.LooksLike second
  stream : first.stream = second.stream.reused runs

theorem lookAlike_conduct (scanner : Scanner γ κ) (runs : Nat) (grammar : Grammar σ ε μ)
    (fuel : Nat) (operations : List (Operation σ)) (state : σ) :
    Agree (LookAlike runs)
      (Parser.ofStream (scanner.reused runs) state >>= fun parser =>
        parser.conduct grammar fuel operations)
      (Parser.ofStream scanner state >>= fun parser => parser.conduct grammar fuel operations) := by
  have hstreams (_ : Nat) : scanner.reused runs = scanner.reused runs := rfl
  have hagree := Parser.agree_conduct_ofStream (@Scanner.keeps_reused γ ι κ _ runs) hstreams grammar
    fuel operations state 0
  exact hagree.imp fun _ _ hbeside => ⟨hbeside.looksLike, hbeside.streams⟩

/-- **A reset leaves nothing behind.**  However a scanner has been used, if its program keeps
nothing between tokens, then after a reset it shows and returns the same, call by call, as one that
has just been opened on the input.  Parsers that begin on the two, or are attached to them, have the
same results, whatever they are asked to do. -/
theorem reset_isolates [Cursor.Mode γ ι] {program : Program κ} (hstateless : program.Stateless)
    (budget : Nat) (filename : String) (first input : ι) {history : List (Call ι)}
    {replies : List (Reply × Sight)} {used : Scanner γ κ}
    (hused : (Scanner.ofCursor (Cursor.Mode.opened first : γ) program budget filename).calls
      history = .ok (replies, used)) :
    let fresh : Scanner γ κ := .ofCursor (Cursor.Mode.opened input) program budget filename
    (used.reset input).sight = fresh.sight ∧
    ∀ later : List (Call ι),
      (used.reset input).calls later =
        (fresh.calls later).map (fun (replies, after) => (replies, after.reused used.runs)) ∧
      ∀ (answers answers' : List (Reply × Sight)) (after after' : Scanner γ κ),
        (used.reset input).calls later = .ok (answers, after) →
        fresh.calls later = .ok (answers', after') →
        ∀ {σ ε μ : Type} (grammar : Grammar σ ε μ) (fuel : Nat) (operations : List (Operation σ)),
          (∀ state, Agree (LookAlike used.runs)
            (Parser.ofStream after state >>= fun parser => parser.conduct grammar fuel operations)
            (Parser.ofStream after' state >>= fun parser =>
              parser.conduct grammar fuel operations)) ∧
          ∀ bound bound' : Parser (Scanner γ κ) σ, bound.state = bound'.state →
            Agree (LookAlike used.runs)
              (bound.attach after >>= fun parser => parser.conduct grammar fuel operations)
              (bound'.attach after' >>= fun parser => parser.conduct grammar fuel operations) := by
  intro fresh
  have hmade := (Scanner.invariant_madeWith program budget filename).calls ⟨rfl, rfl, rfl⟩ hused
  have hrested := Scanner.invariant_rested.calls ⟨hstateless, rfl⟩ hused
  have hreset : used.reset input = fresh.reused used.runs :=
    Scanner.reset_eq_reused hmade hrested input
  -- From here on the history matters only for the number of runs.
  rw [hreset]
  refine ⟨rfl, ?_⟩
  intro later
  refine ⟨fresh.calls_reused used.runs later, ?_⟩
  intro answers answers' after after' hafter hafter' σ ε μ grammar fuel operations
  have hsame : after = after'.reused used.runs := by
    rw [Scanner.calls_reused, hafter'] at hafter
    cases hafter
    rfl
  subst hsame
  refine ⟨lookAlike_conduct after' used.runs grammar fuel operations, ?_⟩
  intro bound bound' hstate
  unfold Parser.attach
  rw [hstate]
  exact lookAlike_conduct after' used.runs grammar fuel operations bound'.state

/-! ## A scanner that was cut off -/

namespace Resumed

def scanner (readings : List Reading) : Scanner (SourceCursor Script) (List Rule) :=
  .ofCursor (.ofSource ⟨readings⟩) (Rule.program Parse.Sums.rules) 10 "name"

/-- A number, and then a failed read. -/
def cutOff : List Reading :=
  [.ok (some ⟨'1', 1⟩), .error ⟨"gone"⟩]

/-- A sum. -/
def sum : List Reading :=
  [.ok (some ⟨'2', 1⟩), .ok (some ⟨'+', 1⟩), .ok (some ⟨'3', 1⟩)]

end Resumed

open Resumed in
theorem reset_isolates_cutOff :
    ∃ replies used, (scanner cutOff).calls [.next, .nextBeforeEnd] = .ok (replies, used) ∧
      used.failure?.isSome ∧ used.ended.isSome ∧ used.runs = 1 ∧
      (used.reset ⟨sum⟩).sight = (scanner sum).sight ∧
      (used.reset ⟨sum⟩).calls [.next, .nextBeforeEnd] =
        ((scanner sum).calls [.next, .nextBeforeEnd]).map (fun (replies, after) =>
          (replies, after.reused 1)) ∧
      Agree (LookAlike 1)
        (Parser.ofStream (used.reset ⟨sum⟩) 0 >>= fun parser =>
          parser.conduct Parse.Sums.grammar 20 [.perform (.expression 0)])
        (Parser.ofStream (scanner sum) 0 >>= fun parser =>
          parser.conduct Parse.Sums.grammar 20 [.perform (.expression 0)]) := by
  have hused : ∃ replies used,
      (scanner cutOff).calls [.next, .nextBeforeEnd] = .ok (replies, used) ∧
        used.failure?.isSome ∧ used.ended.isSome ∧ used.runs = 1 := ⟨_, _, rfl, rfl, rfl, rfl⟩
  obtain ⟨replies, used, hused, hfailure, hended, hruns⟩ := hused
  obtain ⟨hsight, hlater⟩ := @reset_isolates (SourceCursor Script) Script (List Rule) _ _ _
    (Rule.stateless_program Parse.Sums.rules) 10 "name" ⟨cutOff⟩ ⟨sum⟩ _ _ _ hused
  rw [hruns] at hlater
  have hparser := ((hlater []).2 _ _ _ _ rfl rfl Parse.Sums.grammar 20 [.perform (.expression 0)]).1
  exact ⟨replies, used, hused, hfailure, hended, hruns, hsight, (hlater _).1, hparser 0⟩

end Parsers

end FrontEnd.Scan
