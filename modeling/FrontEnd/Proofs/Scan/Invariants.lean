import FrontEnd.Scan.Program

/-!
# What a scanning program cannot break

A scanning program changes its tracker by consuming characters and by marking, and in no other way.
So a property of trackers that these two preserve holds behind every run of every program.
-/

namespace FrontEnd

variable {γ ι : Type} [Cursor γ ι]

/-- A property of trackers that consuming a character and marking preserve. -/
structure Tracker.Invariant (holds : Tracker γ → Prop) : Prop where
  advance : ∀ {tracker}, holds tracker → holds tracker.advance
  mark : ∀ {tracker}, holds tracker → holds tracker.mark

namespace Tracker.Invariant

variable {holds : Tracker γ → Prop} {tracker : Tracker γ}

theorem takeIf (hinvariant : Invariant holds) (accept : Char → Bool) (htracker : holds tracker) :
    holds (tracker.takeIf accept).2 := by
  unfold Tracker.takeIf
  cases tracker.peek with
  | none => exact htracker
  | some character =>
      by_cases haccept : accept character
      · simp only [haccept, if_true]
        exact hinvariant.advance htracker
      · simp only [haccept]
        exact htracker

theorem takeWhile (hinvariant : Invariant holds) (accept : Char → Bool) (htracker : holds tracker) :
    holds (tracker.takeWhile accept).2 := by
  unfold Tracker.takeWhile
  generalize 0 = count
  fun_induction Tracker.takeWhileFrom accept count tracker with
  | case1 count tracker hpeek => exact htracker
  | case2 count tracker character hpeek haccept ih => exact ih (hinvariant.advance htracker)
  | case3 count tracker character hpeek haccept => exact htracker

end Tracker.Invariant

namespace Scan.Program

variable {κ : Type} {program : Program κ} {fuel : Nat} {control next : κ} {kind : Kind}
  {tracker after : Tracker γ}

theorem run_invariant {holds : Tracker γ → Prop} (hinvariant : Tracker.Invariant holds)
    (htracker : holds tracker)
    (hrun : program.run fuel control tracker = .ok (kind, next, after)) : holds after := by
  induction fuel generalizing control tracker with
  | zero => cases hrun
  | succ fuel ih =>
      unfold run at hrun
      cases hrequest : program.request control with
      | finish found following =>
          rw [hrequest] at hrun
          cases hrun
          exact htracker
      | peek resume => rw [hrequest] at hrun; exact ih htracker hrun
      | advance following =>
          rw [hrequest] at hrun
          exact ih (hinvariant.advance htracker) hrun
      | mark following =>
          rw [hrequest] at hrun
          exact ih (hinvariant.mark htracker) hrun
      | text resume => rw [hrequest] at hrun; exact ih htracker hrun
      | takeIf accept resume =>
          rw [hrequest] at hrun
          exact ih (hinvariant.takeIf accept htracker) hrun
      | takeWhile accept resume =>
          rw [hrequest] at hrun
          exact ih (hinvariant.takeWhile accept htracker) hrun
      | failure resume => rw [hrequest] at hrun; exact ih htracker hrun
      | halt cause => rw [hrequest] at hrun; cases hrun

/-- A run ends at a control point that returns a kind. -/
theorem finish_of_run (hrun : program.run fuel control tracker = .ok (kind, next, after)) :
    ∃ last, program.request last = .finish kind next := by
  induction fuel generalizing control tracker with
  | zero => cases hrun
  | succ fuel ih =>
      unfold run at hrun
      cases hrequest : program.request control with
      | finish found following =>
          rw [hrequest] at hrun
          cases hrun
          exact ⟨control, hrequest⟩
      | halt cause => rw [hrequest] at hrun; cases hrun
      | _ => rw [hrequest] at hrun; exact ih hrun

end Scan.Program

end FrontEnd
