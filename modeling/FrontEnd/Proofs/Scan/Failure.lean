import FrontEnd.Proofs.Pulls
import FrontEnd.Proofs.Scan.Spans
import FrontEnd.Proofs.Scan.Strategies

/-!
# A failed read is an early end

Of two sources that give the same items, one fails behind the last item and the other one ends
there.  A scanner over the first and a scanner over the second return the same tokens for ever, if
the scanning program never asks for a failed read and returns the end whenever it is started at the
end of the input.  Only the failure itself tells the scanners apart.

## Strategy

Both scanners run in step as long as an item is ahead.  When none is, they part: the first one
makes the token that ends its stream by itself, where its lookahead is, and the second one still
runs the program, which can only stay where its last mark is.  Since every token is followed by a
mark, these are the same place.
-/

namespace FrontEnd

/-- A view in which all that is ahead belongs to the given items. -/
theorem Cursor.View.within {γ ι : Type} [Cursor γ ι] {shows : γ → String → List Item → Prop}
    {failure? : Option ReadFailure} (hview : Cursor.View shows failure?) (items : List Item) :
    Cursor.View (fun cursor span ahead => shows cursor span ahead ∧ ahead <:+ items) failure? where
  peek hshows := hview.peek hshows.1
  width hshows := hview.width hshows.1
  lexeme hshows := hview.lexeme hshows.1
  failure hshows := hview.failure hshows.1
  advance hshows := ⟨hview.advance hshows.1, (List.suffix_cons _ _).trans hshows.2⟩
  mark hshows := ⟨hview.mark hshows.1, hshows.2⟩

namespace Scan

/-! ## Programs that cannot tell -/

section Programs

variable {κ : Type}

/-- The program never asks for a failed read. -/
def Program.IgnoresFailure (program : Program κ) : Prop :=
  ∀ control resume, program.request control ≠ .failure resume

/-- The control points at which a token is started. -/
def Program.Begins (program : Program κ) (control : κ) : Prop :=
  control = program.start ∨ ∃ last kind, program.request last = .finish kind control

/-- Whenever a token is started at the end of the input, the program returns the kind that ends
it. -/
def Program.EndsAtEnd (program : Program κ) (budget : Nat) (γ : Type) {ι : Type} [Cursor γ ι] :
    Prop :=
  ∀ control, program.Begins control → ∀ tracker : Tracker γ, tracker.isDone = true →
    tracker.text = "" →
    ∃ next after, program.run budget control tracker = .ok (.endOfInput, next, after)

end Programs

/-- At the end of the input, what was just marked stays as it is. -/
theorem Tracker.invariant_atEnd {γ ι : Type} [Cursor γ ι] {shows : γ → String → List Item → Prop}
    {failure? : Option ReadFailure} (hview : Cursor.View shows failure?) (place : Location) :
    Tracker.Invariant fun tracker : Tracker γ =>
      shows tracker.cursor "" [] ∧ tracker.start = place ∧ tracker.here = place where
  advance := by
    rintro tracker ⟨hshows, hstart, hhere⟩
    have hpeek : tracker.peek = none := hview.peek hshows
    unfold Tracker.advance
    rw [hpeek]
    exact ⟨hshows, hstart, hhere⟩
  mark := by
    rintro tracker ⟨hshows, hstart, hhere⟩
    exact ⟨hview.mark hshows, hhere, hhere⟩

theorem agree_take {α β : Type} [TokenStream α] [TokenStream β] {related : α → β → Prop}
    (hnext : ∀ {first second}, related first second →
      Agree related (TokenStream.next first) (TokenStream.next second))
    (count : Nat) {first : α} {second : β} (hrelated : related first second) :
    Agree related (TokenStream.take count first) (TokenStream.take count second) := by
  induction count generalizing first second with
  | zero => exact .ok [] hrelated
  | succ count ih =>
      refine (hnext hrelated).bind ?_
      intro token left right hbehind
      refine (ih hbehind).bind ?_
      intro tokens left right hfinal
      exact .ok (token :: tokens) hfinal

/-! ## The failing and the ending scanner -/

section Sources

variable {ρ ρ' κ : Type} [CharSource ρ] [CharSource ρ'] {items : List Item} {failure : ReadFailure}
  {program : Program κ} {budget : Nat}

/-- Both scanners stand in front of the same item or behind the last one.  The first one reports
the failure as soon as there is no item left, and the second one never. -/
structure Scanner.Differ (items : List Item) (failure : ReadFailure)
    (failing : Scanner (SourceCursor ρ) κ) (ending : Scanner (SourceCursor ρ') κ) : Prop where
  ahead : ∃ position ≤ items.length,
    failing.tracker.peek = items[position]?.map Item.character ∧
    ending.tracker.peek = items[position]?.map Item.character ∧
    failing.failure? = if position < items.length then none else some failure
  text : failing.tracker.text = ending.tracker.text
  ending : ending.failure? = none

/-- Both cursors have the same view, and what they have ahead belongs to the items. -/
private def Apart (items : List Item) (failure : ReadFailure) (failing : SourceCursor ρ)
    (ending : SourceCursor ρ') : Prop :=
  ∃ span ahead, (failing.Shows (some failure) span ahead ∧ ahead <:+ items) ∧
    ending.Shows none span ahead ∧ ahead <:+ items

private theorem similarity_apart :
    Cursor.Similarity (Apart items failure : SourceCursor ρ → SourceCursor ρ' → Prop) :=
  (SourceCursor.view.within items).similarity (SourceCursor.view.within items)

/-- The scanners run in step from mark to mark, or both have ended at the same place. -/
private inductive Tandem (items : List Item) (failure : ReadFailure) (program : Program κ)
    (budget : Nat) (failing : Scanner (SourceCursor ρ) κ) (ending : Scanner (SourceCursor ρ') κ) :
    Prop
  | running (hmirrors : Scanner.Mirrors (Apart items failure) failing ending)
      (hprogram : failing.program = program) (hbudget : failing.budget = budget)
      (hbegins : program.Begins failing.control) (htext : failing.tracker.text = "")
      (hmarked : failing.tracker.start = failing.tracker.here)
  | ended {position : Position} (hfailing : failing.ended = some position)
      (hending : ending.ended = some position)
      (hcursors : Apart items failure failing.tracker.cursor ending.tracker.cursor)

namespace Tandem

variable {failing : Scanner (SourceCursor ρ) κ} {ending : Scanner (SourceCursor ρ') κ}

/-- With nothing ahead, one scanner ends where it is, and the other one where its program, which
has no character to consume, leaves the mark. -/
private theorem next_atEnd (hends : program.EndsAtEnd budget (SourceCursor ρ'))
    (hmirrors : Scanner.Mirrors (Apart items failure) failing ending)
    (hprogram : failing.program = program) (hbudget : failing.budget = budget)
    (hbegins : program.Begins failing.control)
    (hmarked : failing.tracker.start = failing.tracker.here) (hended : failing.ended = none)
    (hfailing : failing.tracker.cursor.Shows (some failure) "" [])
    (hending : ending.tracker.cursor.Shows none "" []) :
    Agree (Tandem items failure program budget) failing.next ending.next := by
  have hfailed : (failing.failure?.isSome && failing.tracker.isDone) = true := by
    have hfailure : failing.failure? = some failure := SourceCursor.view.failure hfailing
    have hpeek : failing.tracker.peek = none := SourceCursor.view.peek hfailing
    simp [hfailure, Tracker.isDone, hpeek]
  have hrunning : (ending.failure?.isSome && ending.tracker.isDone) = false := by
    have hfailure : ending.failure? = none := SourceCursor.view.failure hending
    simp [hfailure]
  have hdone : ending.tracker.isDone = true := by
    have hpeek : ending.tracker.peek = none := SourceCursor.view.peek hending
    simp [Tracker.isDone, hpeek]
  have htext : ending.tracker.text = "" := SourceCursor.view.lexeme hending
  obtain ⟨control, after, hrun⟩ := hends failing.control hbegins ending.tracker hdone htext
  obtain ⟨hshows, hstart, -⟩ := Program.run_invariant
    (Tracker.invariant_atEnd SourceCursor.view failing.tracker.here)
    ⟨hending, hmirrors.tracker.start.symm.trans hmarked, hmirrors.tracker.here.symm⟩ hrun
  have hplace : after.start.inFile ending.filename =
      failing.tracker.here.inFile failing.filename := by
    rw [hstart, hmirrors.filename]
  have htoken : (⟨.endOfInput, after.text, after.start.inFile ending.filename⟩ : Token) =
      .ending (failing.tracker.here.inFile failing.filename) := by
    have hempty : after.text = "" := SourceCursor.view.lexeme hshows
    rw [hempty, hplace, Token.ending]
  rw [Scanner.next_failed hended hfailed, Scanner.next_running (hmirrors.ended ▸ hended) hrunning,
    ← hmirrors.program, ← hmirrors.control, ← hmirrors.budget, hprogram, hbudget, hrun]
  show Agree _ _ (.ok (_, ending.behind .endOfInput control after))
  rw [htoken]
  refine .ok _ (.ended rfl ?_ ⟨"", [], ⟨hfailing, List.nil_suffix⟩, ?_, List.nil_suffix⟩)
  · exact congrArg some hplace
  · exact SourceCursor.view.mark hshows

/-- With an item ahead, nothing tells the scanners apart. -/
private theorem next_inside (hignores : program.IgnoresFailure) {span : String} {item : Item}
    {ahead : List Item} (hmirrors : Scanner.Mirrors (Apart items failure) failing ending)
    (hprogram : failing.program = program) (hbudget : failing.budget = budget)
    (hended : failing.ended = none)
    (hfailing : failing.tracker.cursor.Shows (some failure) span (item :: ahead))
    (hending : ending.tracker.cursor.Shows none span (item :: ahead)) :
    Agree (Tandem items failure program budget) failing.next ending.next := by
  have hfirst : (failing.failure?.isSome && failing.tracker.isDone) = false := by
    have hfailure : failing.failure? = none := SourceCursor.view.failure hfailing
    simp [hfailure]
  have hsecond : (ending.failure?.isSome && ending.tracker.isDone) = false := by
    have hfailure : ending.failure? = none := SourceCursor.view.failure hending
    simp [hfailure]
  have hagree : Agree _ (program.run budget failing.control failing.tracker)
      (program.run budget failing.control ending.tracker) :=
    program.agree_run_of_similarity similarity_apart
      (fun hrequest => absurd hrequest (hignores _ _)) budget hmirrors.tracker
  rw [Scanner.next_running hended hfirst, Scanner.next_running (hmirrors.ended ▸ hended) hsecond,
    ← hmirrors.program, ← hmirrors.control, ← hmirrors.budget, hprogram, hbudget]
  generalize hrun : program.run budget failing.control failing.tracker = outcome at hagree ⊢
  generalize program.run budget failing.control ending.tracker = outcome' at hagree ⊢
  cases hagree with
  | error cause => exact .error cause
  | @ok kind left right hrelated =>
      obtain ⟨control, left⟩ := left
      obtain ⟨control', right⟩ := right
      obtain ⟨rfl, htracker⟩ := hrelated
      obtain ⟨last, hlast⟩ := Program.finish_of_run hrun
      have hmarked := similarity_apart.mark htracker.cursor
      have htext : left.mark.text = "" := by
        obtain ⟨span, ahead, hshows, -⟩ := htracker.cursor
        exact (SourceCursor.view.within items).lexeme ((SourceCursor.view.within items).mark hshows)
      have htoken : (⟨kind, left.text, left.start.inFile failing.filename⟩ : Token) =
          ⟨kind, right.text, right.start.inFile ending.filename⟩ := by
        rw [htracker.text similarity_apart, htracker.start, hmirrors.filename]
      show Agree _ (.ok (_, failing.behind kind control left))
        (.ok (_, ending.behind kind control right))
      rw [htoken]
      exact .ok _ (.running (hmirrors.behind similarity_apart htracker kind) hprogram hbudget
        (.inr ⟨last, kind, hlast⟩) htext rfl)

private theorem next (hignores : program.IgnoresFailure)
    (hends : program.EndsAtEnd budget (SourceCursor ρ'))
    (htandem : Tandem items failure program budget failing ending) :
    Agree (Tandem items failure program budget) failing.next ending.next := by
  cases htandem with
  | ended hfailing hending hcursors =>
      rw [Scanner.next_ended hfailing, Scanner.next_ended hending]
      exact .ok _ (.ended hfailing hending hcursors)
  | running hmirrors hprogram hbudget hbegins htext hmarked =>
      obtain ⟨span, ahead, ⟨hfailing, -⟩, hending, -⟩ := hmirrors.tracker.cursor
      have hspan : span = "" := (SourceCursor.view.lexeme hfailing).symm.trans htext
      subst hspan
      cases hended : failing.ended with
      | some position =>
          have hended' : ending.ended = some position := hmirrors.ended ▸ hended
          rw [Scanner.next_ended hended, Scanner.next_ended hended']
          exact .ok _ (.ended hended hended' hmirrors.tracker.cursor)
      | none =>
          cases ahead with
          | nil =>
              exact next_atEnd hends hmirrors hprogram hbudget hbegins hmarked hended hfailing hending
          | cons item ahead =>
              exact next_inside hignores hmirrors hprogram hbudget hended hfailing hending

private theorem cursors (htandem : Tandem items failure program budget failing ending) :
    Apart items failure failing.tracker.cursor ending.tracker.cursor := by
  cases htandem with
  | running hmirrors => exact hmirrors.tracker.cursor
  | ended _ _ hcursors => exact hcursors

end Tandem

private theorem Scanner.differ_of_apart {failing : Scanner (SourceCursor ρ) κ}
    {ending : Scanner (SourceCursor ρ') κ}
    (happart : Apart items failure failing.tracker.cursor ending.tracker.cursor) :
    Scanner.Differ items failure failing ending := by
  obtain ⟨span, ahead, ⟨hfailing, passed, rfl⟩, hending, -⟩ := happart
  have hhead : ahead.head? = (passed ++ ahead)[passed.length]? := by
    rw [List.getElem?_append_right (Nat.le_refl _), Nat.sub_self, List.head?_eq_getElem?]
  refine ⟨⟨passed.length, by simp, ?_, ?_, ?_⟩, ?_, ?_⟩
  · rw [← hhead]
    exact SourceCursor.view.peek hfailing
  · rw [← hhead]
    exact SourceCursor.view.peek hending
  · have hfailure : failing.failure? = (some failure).filter fun _ => ahead.isEmpty :=
      SourceCursor.view.failure hfailing
    rw [hfailure]
    cases ahead <;> simp
  · exact (SourceCursor.view.lexeme hfailing).trans (SourceCursor.view.lexeme hending).symm
  · exact SourceCursor.view.failure hending

/-- **A failed read cannot be told from an early end.**  The scanners return the same tokens, or are
abandoned for the same cause, on every call; what they differ in is the failure. -/
theorem Scanner.agree_failing_ending (hignores : program.IgnoresFailure)
    (hends : program.EndsAtEnd budget (SourceCursor ρ')) {failing : ρ} {ending : ρ'}
    (hfailing : CharSource.Gives failing items (some failure))
    (hending : CharSource.Gives ending items none) (filename : String) (count : Nat) :
    Agree (Scanner.Differ items failure)
      (TokenStream.take count (ofCursor (SourceCursor.ofSource failing) program budget filename))
      (TokenStream.take count (ofCursor (SourceCursor.ofSource ending) program budget filename)) := by
  have happart : Apart items failure (SourceCursor.ofSource failing) (SourceCursor.ofSource ending) :=
    ⟨"", items, ⟨SourceCursor.shows_ofSource hfailing, List.suffix_rfl⟩,
      SourceCursor.shows_ofSource hending, List.suffix_rfl⟩
  have htandem : Tandem items failure program budget
      (ofCursor (SourceCursor.ofSource failing) program budget filename)
      (ofCursor (SourceCursor.ofSource ending) program budget filename) :=
    .running ⟨⟨happart, rfl, rfl⟩, rfl, rfl, rfl, rfl, rfl, rfl⟩ rfl rfl (.inl rfl)
      (SourceCursor.shows_ofSource hfailing).lexeme rfl
  refine (agree_take (fun hrelated => hrelated.next hignores hends) count htandem).imp ?_
  intro left right hfinal
  exact differ_of_apart hfinal.cursors

end Sources

/-! ## Words before a failure -/

namespace Words

theorem ignoresFailure : program.IgnoresFailure := by
  intro control resume
  cases control <;> exact nofun

theorem endsAtEnd {ρ : Type} [CharSource ρ] : program.EndsAtEnd 20 (SourceCursor ρ) := by
  intro control hbegins tracker hdone _
  have hskip : control = .skip := by
    rcases hbegins with rfl | ⟨last, kind, hlast⟩
    · rfl
    · cases last <;> cases hlast <;> rfl
  have hpeek : tracker.peek = none := by simpa [Tracker.isDone] using hdone
  have hmark : tracker.mark.peek = none := hpeek
  refine ⟨.skip, tracker.mark, ?_⟩
  simp [hskip, Program.run, program, hpeek, hmark]

end Words

/-- A word and a blank, wider than they look. -/
def Words.wide : List Item :=
  [⟨'a', 3⟩, ⟨' ', 1⟩]

def Words.failing : Script :=
  ⟨wide.map (fun item => .ok (some item)) ++ [.error ⟨"gone"⟩]⟩

def Words.ending : Script :=
  ⟨wide.map (fun item => .ok (some item)) ++ []⟩

theorem Scanner.agree_failing_ending_words :
    (TokenStream.take 3
        (ofCursor (SourceCursor.ofSource Words.failing) Words.program 20 "name")).map Prod.fst =
      .ok [⟨⟨1⟩, "a", ⟨⟨0, 1, 1⟩, "name"⟩⟩, .ending ⟨⟨4, 1, 3⟩, "name"⟩,
        .ending ⟨⟨4, 1, 3⟩, "name"⟩] ∧
    Agree (Scanner.Differ Words.wide ⟨"gone"⟩)
      (TokenStream.take 3
        (ofCursor (SourceCursor.ofSource Words.failing) Words.program 20 "name"))
      (TokenStream.take 3
        (ofCursor (SourceCursor.ofSource Words.ending) Words.program 20 "name")) := by
  have hfailing : CharSource.Gives Words.failing Words.wide (some ⟨"gone"⟩) :=
    Script.gives_append Words.wide (.fail rfl)
  have hending : CharSource.Gives Words.ending Words.wide none :=
    Script.gives_append Words.wide (.finish rfl)
  exact ⟨rfl, agree_failing_ending Words.ignoresFailure Words.endsAtEnd hfailing hending "name" 3⟩

end Scan

end FrontEnd
