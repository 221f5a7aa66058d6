import FrontEnd.Cursor.Source
import FrontEnd.Cursor.Text
import FrontEnd.Proofs.Pulls
import FrontEnd.Proofs.Scan.Invariants
import FrontEnd.Proofs.Scan.Simulation

/-!
# Histories of a scanner

A scanner is opened on an input, asked for tokens, singly or by an iteration that stops before the
end, and bound to further inputs.  `Scanner.calls` follows it through any such history and notes
what each call returns and what is seen of the scanner behind it.

What a single call for a token can do is said once, in `Scanner.Yields`: an ended scanner ends
again, a failed read ends it, or the program is run.  A property that survives these and a new
input holds throughout every history (`Scanner.Invariant.calls`).
-/

namespace FrontEnd

/-! ## Ways to walk an input -/

/-- A failed read leaves nothing to look at. -/
def Cursor.Silent {γ ι : Type} [Cursor γ ι] (cursor : γ) : Prop :=
  (Cursor.failure? cursor).isSome → Cursor.peek cursor = none

/-- Cursors that are opened on an input.  To bind one to an input is to open it anew, and none of
them shows anything behind a failed read. -/
class Cursor.Mode (γ : Type) (ι : outParam Type) [Cursor γ ι] where
  /-- The cursor at the beginning of an input. -/
  opened : ι → γ
  reset_eq : ∀ (cursor : γ) (input : ι), Cursor.reset cursor input = opened input
  silent_opened : ∀ input, Cursor.Silent (opened input)
  silent_advance : ∀ {cursor : γ}, Cursor.Silent cursor → Cursor.Silent (Cursor.advance cursor)
  silent_mark : ∀ {cursor : γ}, Cursor.Silent cursor → Cursor.Silent (Cursor.mark cursor)

instance : Cursor.Mode TextCursor String where
  opened := TextCursor.ofText
  reset_eq _ _ := rfl
  silent_opened _ := nofun
  silent_advance _ := nofun
  silent_mark _ := nofun

namespace SourceCursor

variable {ρ : Type} [CharSource ρ]

theorem reset_eq_ofSource (cursor : SourceCursor ρ) (source : ρ) :
    cursor.reset source = ofSource source := by
  simp only [reset, ofSource, fill]

theorem silent_fill (cursor : SourceCursor ρ) : Cursor.Silent cursor.fill := by
  intro hfailure
  show cursor.fill.lookahead.map Item.character = none
  change cursor.fill.failure?.isSome at hfailure
  unfold fill at hfailure ⊢
  -- Either the source has failed before and is not read again, or this reading decides.
  split
  · rfl
  · rename_i hnone
    rw [if_neg hnone] at hfailure
    cases hread : CharSource.read cursor.source with
    | mk reading rest =>
        cases reading with
        | error failure => rfl
        | ok item =>
            rw [hread] at hfailure
            exact absurd hfailure hnone

instance : Cursor.Mode (SourceCursor ρ) ρ where
  opened := ofSource
  reset_eq := reset_eq_ofSource
  silent_opened _ := silent_fill _
  silent_advance := by
    intro cursor hsilent
    show Cursor.Silent cursor.advance
    unfold advance
    split
    · exact hsilent
    · exact silent_fill _
  silent_mark hsilent := hsilent

end SourceCursor

variable {γ ι κ : Type} [Cursor γ ι]

theorem Tracker.invariant_silent [Cursor.Mode γ ι] :
    Tracker.Invariant fun tracker : Tracker γ => Cursor.Silent tracker.cursor where
  advance := by
    intro tracker hsilent
    unfold Tracker.advance
    split
    · exact hsilent
    · exact Cursor.Mode.silent_advance hsilent
  mark := Cursor.Mode.silent_mark

namespace Scan

/-! ## Calls -/

/-- What is asked of a scanner. -/
inductive Call (ι : Type)
  /-- The next token. -/
  | next
  /-- The next token before the end, as an iteration asks for it. -/
  | nextBeforeEnd
  /-- To be bound to another input. -/
  | reset (input : ι)

/-- What a call returns. -/
inductive Reply
  | token (token : Token)
  | item (token? : Option Token)
  | nothing
deriving DecidableEq

/-- What is seen of a scanner between two calls. -/
structure Sight where
  peek : Option Char
  isDone : Bool
  text : String
  failure? : Option ReadFailure
deriving DecidableEq

namespace Scanner

def sight (scanner : Scanner γ κ) : Sight :=
  ⟨scanner.tracker.peek, scanner.tracker.isDone, scanner.tracker.text, scanner.failure?⟩

/-- Answers a call. -/
def call (scanner : Scanner γ κ) : Call ι → Except Halt (Reply × Scanner γ κ)
  | .next => scanner.next.map fun (token, after) => (.token token, after)
  | .nextBeforeEnd =>
    (TokenStream.nextBeforeEnd? scanner).map fun (token?, after) => (.item token?, after)
  | .reset input => .ok (.nothing, scanner.reset input)

/-- Answers calls one after the other. -/
def calls (scanner : Scanner γ κ) :
    List (Call ι) → Except Halt (List (Reply × Sight) × Scanner γ κ)
  | [] => .ok ([], scanner)
  | call :: rest => do
    let (reply, after) ← scanner.call call
    let (replies, last) ← after.calls rest
    return ((reply, after.sight) :: replies, last)

/-- What a call for the next token can do. -/
inductive Yields (scanner : Scanner γ κ) : Token → Scanner γ κ → Prop
  | again {position : Position} (hended : scanner.ended = some position) :
      Yields scanner (.ending position) scanner
  | failed (hended : scanner.ended = none)
      (hfailed : (scanner.failure?.isSome && scanner.tracker.isDone) = true) :
      Yields scanner (.ending (scanner.tracker.here.inFile scanner.filename))
        { scanner with ended := some (scanner.tracker.here.inFile scanner.filename) }
  | found {kind : Kind} {control : κ} {tracker : Tracker γ} (hended : scanner.ended = none)
      (hrun : scanner.program.run scanner.budget scanner.control scanner.tracker =
        .ok (kind, control, tracker)) :
      Yields scanner ⟨kind, tracker.text, tracker.start.inFile scanner.filename⟩
        (scanner.behind kind control tracker)

theorem yields_of_next {scanner after : Scanner γ κ} {token : Token}
    (hnext : scanner.next = .ok (token, after)) : scanner.Yields token after := by
  cases hended : scanner.ended with
  | some position =>
      rw [next_ended hended] at hnext
      cases hnext
      exact .again hended
  | none =>
      by_cases hfailed : (scanner.failure?.isSome && scanner.tracker.isDone) = true
      · rw [next_failed hended hfailed] at hnext
        cases hnext
        exact .failed hended hfailed
      · rw [Bool.not_eq_true] at hfailed
        rw [next_running hended hfailed] at hnext
        obtain ⟨⟨kind, control, tracker⟩, hrun, hfound⟩ := exists_of_bind_eq_ok hnext
        cases hfound
        exact .found hended hrun

/-- A property of scanners that calls preserve. -/
structure Invariant (holds : Scanner γ κ → Prop) : Prop where
  yields : ∀ {scanner token after}, holds scanner → scanner.Yields token after → holds after
  reset : ∀ {scanner} input, holds scanner → holds (scanner.reset input)

namespace Invariant

variable {holds : Scanner γ κ → Prop} {scanner after : Scanner γ κ}

theorem call (hinvariant : Invariant holds) {call : Call ι} {reply : Reply}
    (hscanner : holds scanner) (hcall : scanner.call call = .ok (reply, after)) : holds after := by
  cases call with
  | next =>
      obtain ⟨⟨token, rest⟩, hnext, hreply⟩ := exists_of_map_eq_ok hcall
      cases hreply
      exact hinvariant.yields hscanner (yields_of_next hnext)
  | nextBeforeEnd =>
      obtain ⟨⟨token?, rest⟩, hask, hreply⟩ := exists_of_map_eq_ok hcall
      cases hreply
      unfold TokenStream.nextBeforeEnd? at hask
      split at hask
      · cases hask
      · rename_i token rest hnext
        cases hask
        exact hinvariant.yields hscanner (yields_of_next hnext)
  | reset input =>
      cases hcall
      exact hinvariant.reset input hscanner

/-- What calls preserve holds behind every history. -/
theorem calls (hinvariant : Invariant holds) {history : List (Call ι)}
    {replies : List (Reply × Sight)} (hscanner : holds scanner)
    (hcalls : scanner.calls history = .ok (replies, after)) : holds after := by
  induction history generalizing scanner replies with
  | nil =>
      cases hcalls
      exact hscanner
  | cons call history ih =>
      obtain ⟨⟨reply, middle⟩, hcall, hrest⟩ := exists_of_bind_eq_ok hcalls
      obtain ⟨⟨later, last⟩, hlater, hresult⟩ := exists_of_bind_eq_ok hrest
      cases hresult
      exact ih (hinvariant.call hscanner hcall) hlater

end Invariant

/-- What a scanner was made with besides its input. -/
structure MadeWith (program : Program κ) (budget : Nat) (filename : String)
    (scanner : Scanner γ κ) : Prop where
  program : scanner.program = program
  budget : scanner.budget = budget
  filename : scanner.filename = filename

theorem invariant_madeWith (program : Program κ) (budget : Nat) (filename : String) :
    Invariant (MadeWith program budget filename : Scanner γ κ → Prop) where
  yields := by
    intro scanner token after hmade hyields
    cases hyields with
    | again => exact hmade
    | failed => exact ⟨hmade.program, hmade.budget, hmade.filename⟩
    | found => exact ⟨hmade.program, hmade.budget, hmade.filename⟩
  reset _ hmade := ⟨hmade.program, hmade.budget, hmade.filename⟩

theorem invariant_silent [Cursor.Mode γ ι] :
    Invariant fun scanner : Scanner γ κ => Cursor.Silent scanner.tracker.cursor where
  yields := by
    intro scanner token after hsilent hyields
    cases hyields with
    | again => exact hsilent
    | failed => exact hsilent
    | found _ hrun =>
        exact Cursor.Mode.silent_mark (Program.run_invariant Tracker.invariant_silent hsilent hrun)
  reset := by
    intro scanner input _
    show Cursor.Silent (Cursor.reset scanner.tracker.cursor input)
    rw [Cursor.Mode.reset_eq]
    exact Cursor.Mode.silent_opened input

end Scanner

end Scan

end FrontEnd
