import Mathlib.Data.List.Induction
import Mathlib.Logic.Function.Iterate
import FrontEnd.Proofs.Cursor.Bounded
import FrontEnd.Proofs.Scan.Spans

/-!
# Longest runs

To take characters as long as a condition holds is to take the longest run of them: the characters
ahead that all satisfy the condition, up to the first that does not, or to the end of the input, or
to a failed read.  The tracker is then where as many single steps would have brought it, and the
same request finds nothing more to take.

## Strategy

What is ahead of a tracker is what its cursor shows, and `Cursor.View` says how that changes.  So
the loop is an induction over the items ahead (`Tracker.takeWhileFrom_eq_iterate`), and so are the
steps over a run (`Tracker.passes_iterate`).  The counters are followed apart from that, modulo
their size.  The trackers in question are those of `Tracker.Reached`: opened on an input, or bound
to it later, and then used in any way.
-/

namespace FrontEnd

/-! ## Places -/

/-- The column behind some items, the first of which stands in the given one. -/
def Item.columnBehind (column : Nat) (items : List Item) : Nat :=
  (if items.any Item.isNewline then 1 else column) +
    (items.reverse.takeWhile fun item => !item.isNewline).length

namespace Location

/-- The place behind some items that begin at a location. -/
def pastAll (location : Location) (items : List Item) : Location :=
  items.foldl (fun place item => place.past item.character item.width) location

/-- Passing the items leads from one place to another, by their widths, newlines and characters, as
long as the counters have room for it. -/
structure MovesBy (items : List Item) (here there : Location) : Prop where
  offset : here.offset.toNat + Item.totalWidth items < UInt64.size →
    there.offset.toNat = here.offset.toNat + Item.totalWidth items
  line : here.line.toNat + items.countP Item.isNewline < UInt32.size →
    there.line.toNat = here.line.toNat + items.countP Item.isNewline
  column : Item.columnBehind here.column.toNat items < UInt32.size →
    there.column.toNat = Item.columnBehind here.column.toNat items

variable (location : Location) (items : List Item)

theorem pastAll_append_singleton (item : Item) :
    location.pastAll (items ++ [item]) =
      (location.pastAll items).past item.character item.width :=
  List.foldl_append

theorem toNat_offset_pastAll :
    (location.pastAll items).offset.toNat =
      (location.offset.toNat + Item.totalWidth items) % UInt64.size := by
  induction items using List.reverseRecOn with
  | nil => exact (Nat.mod_eq_of_lt location.offset.toNat_lt).symm
  | append_singleton items item ih =>
      rw [pastAll_append_singleton, offset_past, UInt64.toNat_add, ih, UInt64.toNat_ofNat',
        Item.totalWidth_append, Item.totalWidth_singleton]
      simp only [UInt64.size]
      omega

theorem toNat_line_pastAll :
    (location.pastAll items).line.toNat =
      (location.line.toNat + items.countP Item.isNewline) % UInt32.size := by
  induction items using List.reverseRecOn with
  | nil => exact (Nat.mod_eq_of_lt location.line.toNat_lt).symm
  | append_singleton items item ih =>
      rw [pastAll_append_singleton, List.countP_append, List.countP_singleton, past]
      by_cases hnewline : item.character = '\n'
      · have hitem : item.isNewline = true := by simp [Item.isNewline, hnewline]
        rw [if_pos hnewline, if_pos hitem, UInt32.toNat_add, ih]
        simp only [UInt32.size, UInt32.reduceToNat]
        omega
      · have hitem : ¬item.isNewline = true := by simp [Item.isNewline, hnewline]
        rw [if_neg hnewline, if_neg hitem, Nat.add_zero]
        exact ih

theorem toNat_column_pastAll :
    (location.pastAll items).column.toNat =
      Item.columnBehind location.column.toNat items % UInt32.size := by
  induction items using List.reverseRecOn with
  | nil => exact (Nat.mod_eq_of_lt location.column.toNat_lt).symm
  | append_singleton items item ih =>
      rw [pastAll_append_singleton, past]
      by_cases hnewline : item.character = '\n'
      · have hitem : item.isNewline = true := by simp [Item.isNewline, hnewline]
        rw [if_pos hnewline]
        simp [Item.columnBehind, hitem, UInt32.size]
      · have hitem : item.isNewline = false := by simp [Item.isNewline, hnewline]
        have hbehind : Item.columnBehind location.column.toNat (items ++ [item]) =
            Item.columnBehind location.column.toNat items + 1 := by
          simp [Item.columnBehind, hitem, Nat.add_assoc]
        rw [if_neg hnewline, hbehind, UInt32.toNat_add, ih]
        simp only [UInt32.size, UInt32.reduceToNat]
        omega

theorem movesBy_pastAll : location.MovesBy items (location.pastAll items) where
  offset hroom := by rw [toNat_offset_pastAll, Nat.mod_eq_of_lt hroom]
  line hroom := by rw [toNat_line_pastAll, Nat.mod_eq_of_lt hroom]
  column hroom := by rw [toNat_column_pastAll, Nat.mod_eq_of_lt hroom]

end Location

/-! ## Runs -/

namespace Item

/-- The items `run` are the longest beginning of `ahead` of which all characters are accepted. -/
structure LongestRun (accept : Char → Bool) (ahead run : List Item) : Prop where
  beginning : run <+: ahead
  accepted : ∀ item ∈ run, accept item.character = true
  longest : ∀ other, other <+: ahead → (∀ item ∈ other, accept item.character = true) →
    other <+: run

/-- The items up to the first that is not accepted. -/
def runOf (accept : Char → Bool) (ahead : List Item) : List Item :=
  ahead.takeWhile fun item => accept item.character

variable {accept : Char → Bool} {item : Item} {ahead : List Item}

theorem runOf_cons_of_pos (haccept : accept item.character = true) :
    runOf accept (item :: ahead) = item :: runOf accept ahead :=
  List.takeWhile_cons_of_pos haccept

theorem runOf_cons_of_neg (haccept : ¬accept item.character = true) :
    runOf accept (item :: ahead) = [] :=
  List.takeWhile_cons_of_neg haccept

/-- Behind the run comes an item that is not accepted, if any. -/
theorem exists_eq_runOf_append (accept : Char → Bool) (ahead : List Item) :
    ∃ rest, ahead = runOf accept ahead ++ rest ∧
      ∀ item, rest.head? = some item → accept item.character = false := by
  refine ⟨_, List.takeWhile_append_dropWhile.symm, ?_⟩
  intro item hitem
  have hnot := List.head?_dropWhile_not (fun item => accept item.character) ahead
  rw [hitem] at hnot
  exact hnot

theorem longestRun_runOf (accept : Char → Bool) (ahead : List Item) :
    LongestRun accept ahead (runOf accept ahead) where
  beginning := List.takeWhile_prefix _
  accepted := by
    intro item hitem
    exact List.all_eq_true.mp List.all_takeWhile item hitem
  longest := by
    rintro other ⟨rest, rfl⟩ hother
    rw [runOf, List.takeWhile_append_of_pos hother]
    exact List.prefix_append _ _

end Item

namespace Tracker

variable {γ ι : Type} [Cursor γ ι] {shows : γ → String → List Item → Prop}
  {failure? : Option ReadFailure} {tracker after : Tracker γ}

/-- Passing the items `run` leads from one tracker to another, which has `rest` ahead. -/
structure Passes (shows : γ → String → List Item → Prop) (run rest : List Item)
    (tracker after : Tracker γ) : Prop where
  cursor : shows after.cursor after.text rest
  text : after.text = tracker.text ++ Item.text run
  start : after.start = tracker.start
  here : after.here = tracker.here.pastAll run

/-- Asked for the characters that `accept` holds for, the tracker takes the longest run of those
ahead of it, and comes to stand in front of `rest`. -/
structure TakesRun (shows : γ → String → List Item → Prop) (accept : Char → Bool)
    (run rest : List Item) (tracker after : Tracker γ) : Prop
    extends Passes shows run rest tracker after where
  ahead : shows tracker.cursor tracker.text (run ++ rest)
  longest : Item.LongestRun accept (run ++ rest) run
  takes : tracker.takeWhile accept = (run.length, after)
  iterate : after = Tracker.advance^[run.length] tracker
  place : tracker.here.MovesBy run after.here
  stops : ∀ character, after.peek = some character → accept character = false
  again : after.takeWhile accept = (0, after)

theorem shows_advance {item : Item} {ahead : List Item} (hview : Cursor.View shows failure?)
    (hshows : shows tracker.cursor tracker.text (item :: ahead)) :
    shows tracker.advance.cursor tracker.advance.text ahead ∧
      tracker.advance.text = tracker.text.push item.character := by
  have hadvance := hview.advance hshows
  have htext : tracker.advance.text = tracker.text.push item.character := by
    rw [advance_of_shows hview hshows]
    exact hview.lexeme hadvance
  refine ⟨?_, htext⟩
  rw [htext, advance_of_shows hview hshows]
  exact hadvance

/-- Single steps pass the items ahead one after the other. -/
theorem passes_iterate {run rest : List Item} (hview : Cursor.View shows failure?)
    (hshows : shows tracker.cursor tracker.text (run ++ rest)) :
    tracker.Passes shows run rest (Tracker.advance^[run.length] tracker) := by
  induction run generalizing tracker with
  | nil => exact ⟨hshows, (String.append_empty).symm, rfl, rfl⟩
  | cons item run ih =>
      obtain ⟨hbehind, htext⟩ := shows_advance hview hshows
      have hadvance := advance_of_shows hview hshows
      have hpasses := ih hbehind
      rw [List.length_cons, Function.iterate_succ_apply]
      refine ⟨hpasses.cursor, ?_, ?_, ?_⟩
      · rw [hpasses.text, htext, ← String.append_singleton, String.append_assoc]
        simp [Item.text, String.ofList_cons]
      · rw [hpasses.start, hadvance]
      · rw [hpasses.here, hadvance]
        rfl

/-- The loop makes a step for each item of the run. -/
theorem takeWhileFrom_eq_iterate (accept : Char → Bool) (count : Nat) {ahead : List Item}
    (hview : Cursor.View shows failure?) (hshows : shows tracker.cursor tracker.text ahead) :
    takeWhileFrom accept count tracker =
      (count + (Item.runOf accept ahead).length,
        Tracker.advance^[(Item.runOf accept ahead).length] tracker) := by
  induction ahead generalizing count tracker with
  | nil =>
      have hpeek : tracker.peek = none := hview.peek hshows
      rw [takeWhileFrom_eq, hpeek]
      rfl
  | cons item ahead ih =>
      have hpeek : tracker.peek = some item.character := hview.peek hshows
      rw [takeWhileFrom_eq, hpeek]
      by_cases haccept : accept item.character = true
      · rw [Item.runOf_cons_of_pos haccept, List.length_cons, Function.iterate_succ_apply]
        simp only [haccept, if_true]
        rw [ih (count + 1) (shows_advance hview hshows).1, Nat.add_assoc, Nat.add_comm 1]
      · rw [Item.runOf_cons_of_neg haccept]
        simp only [haccept]
        rfl

/-- In front of a character that is not accepted, or at the end, nothing is taken. -/
theorem takeWhile_eq_zero {accept : Char → Bool}
    (hstops : ∀ character, tracker.peek = some character → accept character = false) :
    tracker.takeWhile accept = (0, tracker) := by
  unfold takeWhile
  rw [takeWhileFrom_eq]
  cases hpeek : tracker.peek with
  | none => rfl
  | some character => simp [hstops character hpeek]

theorem takesRun (accept : Char → Bool) {ahead : List Item} (hview : Cursor.View shows failure?)
    (hshows : shows tracker.cursor tracker.text ahead) :
    ∃ run rest after, ahead = run ++ rest ∧ tracker.TakesRun shows accept run rest after := by
  obtain ⟨rest, hahead, hrest⟩ := Item.exists_eq_runOf_append accept ahead
  have hlongest := Item.longestRun_runOf accept ahead
  have hloop := takeWhileFrom_eq_iterate accept 0 hview hshows
  -- From here on the run is known by its properties alone.
  generalize Item.runOf accept ahead = run at hahead hlongest hloop
  subst hahead
  have hpasses := passes_iterate hview hshows
  have hstops : ∀ character, (Tracker.advance^[run.length] tracker).peek = some character →
      accept character = false := by
    intro character hpeek
    have hhead : rest.head?.map Item.character = some character :=
      (hview.peek hpasses.cursor).symm.trans hpeek
    obtain ⟨item, hitem, rfl⟩ := Option.map_eq_some_iff.mp hhead
    exact hrest item hitem
  refine ⟨run, rest, _, rfl, hpasses, hshows, hlongest, ?_, rfl, ?_, hstops,
    takeWhile_eq_zero hstops⟩
  · rw [Nat.zero_add] at hloop
    exact hloop
  · rw [hpasses.here]
    exact Location.movesBy_pastAll _ _

/-! ## Trackers in use -/

/-- The tracker was opened on an input or bound to it later, and has been used since then. -/
inductive Reached (opened : ι → γ) : ι → Tracker γ → Prop
  | opened (input : ι) : Reached opened input (.ofCursor (opened input))
  | advance {input : ι} {tracker : Tracker γ} (hreached : Reached opened input tracker) :
      Reached opened input tracker.advance
  | mark {input : ι} {tracker : Tracker γ} (hreached : Reached opened input tracker) :
      Reached opened input tracker.mark
  | takeIf {input : ι} {tracker : Tracker γ} (accept : Char → Bool)
      (hreached : Reached opened input tracker) : Reached opened input (tracker.takeIf accept).2
  | takeWhile {input : ι} {tracker : Tracker γ} (accept : Char → Bool)
      (hreached : Reached opened input tracker) : Reached opened input (tracker.takeWhile accept).2
  | reset {input : ι} {tracker : Tracker γ} (other : ι) (hreached : Reached opened input tracker) :
      Reached opened other (tracker.reset other)

end Tracker

/-- Cursors that are opened on an input, or bound to it, show its contents. -/
structure Cursor.ShowsContents {γ ι : Type} [Cursor γ ι] (opened : ι → γ) (contents : ι → Contents)
    (shows : ι → γ → String → List Item → Prop) : Prop where
  view : ∀ input, Cursor.View (shows input) (contents input).failure?
  opened : ∀ input, shows input (opened input) "" (contents input).items
  reset : ∀ cursor input, shows input (Cursor.reset cursor input) "" (contents input).items

namespace Tracker

variable {γ ι : Type} [Cursor γ ι] {shows : γ → String → List Item → Prop}
  {failure? : Option ReadFailure} {tracker : Tracker γ}

/-- Consuming and marking keep what is ahead a remainder of the items. -/
theorem invariant_remainder (hview : Cursor.View shows failure?) (items : List Item) :
    Tracker.Invariant fun tracker : Tracker γ =>
      ∃ passed ahead, items = passed ++ ahead ∧ shows tracker.cursor tracker.text ahead where
  advance := by
    rintro tracker ⟨passed, ahead, rfl, hshows⟩
    cases ahead with
    | nil =>
        rw [advance_of_none (hview.peek hshows)]
        exact ⟨passed, [], rfl, hshows⟩
    | cons item ahead =>
        refine ⟨passed ++ [item], ahead, ?_, (shows_advance hview hshows).1⟩
        rw [List.append_assoc, List.singleton_append]
  mark := by
    rintro tracker ⟨passed, ahead, rfl, hshows⟩
    have hmark := hview.mark hshows
    have htext : tracker.mark.text = "" := hview.lexeme hmark
    refine ⟨passed, ahead, rfl, ?_⟩
    rw [htext]
    exact hmark

/-- Having passed some of the items of its input, the tracker takes the longest run of what is
left. -/
def TakesLongest (shows : γ → String → List Item → Prop) (items : List Item)
    (accept : Char → Bool) (tracker : Tracker γ) : Prop :=
  ∃ passed run rest after, items = passed ++ (run ++ rest) ∧
    tracker.TakesRun shows accept run rest after

namespace Reached

variable {opened : ι → γ} {contents : ι → Contents} {showsOf : ι → γ → String → List Item → Prop}
  {input : ι}

theorem remainder (hcursors : Cursor.ShowsContents opened contents showsOf)
    (hreached : tracker.Reached opened input) :
    ∃ passed ahead, (contents input).items = passed ++ ahead ∧
      showsOf input tracker.cursor tracker.text ahead := by
  have hinvariant (input : ι) := invariant_remainder (hcursors.view input) (contents input).items
  -- A cursor that was just opened, or bound to the input, has all of it ahead.
  have hfresh {cursor : γ} {input : ι} (hshows : showsOf input cursor "" (contents input).items) :
      ∃ passed ahead, (contents input).items = passed ++ ahead ∧
        showsOf input cursor (ofCursor cursor).text ahead := by
    have htext : (ofCursor cursor).text = "" := (hcursors.view input).lexeme hshows
    refine ⟨[], _, rfl, ?_⟩
    rw [htext]
    exact hshows
  induction hreached with
  | opened input => exact hfresh (hcursors.opened input)
  | advance _ ih => exact (hinvariant _).advance ih
  | mark _ ih => exact (hinvariant _).mark ih
  | takeIf accept _ ih => exact (hinvariant _).takeIf accept ih
  | takeWhile accept _ ih => exact (hinvariant _).takeWhile accept ih
  | reset other _ _ => exact hfresh (hcursors.reset _ other)

theorem takesLongest (hcursors : Cursor.ShowsContents opened contents showsOf)
    (hreached : tracker.Reached opened input) (accept : Char → Bool) :
    tracker.TakesLongest (showsOf input) (contents input).items accept := by
  obtain ⟨passed, ahead, hitems, hshows⟩ := hreached.remainder hcursors
  obtain ⟨run, rest, after, rfl, htakes⟩ := takesRun accept (hcursors.view input) hshows
  exact ⟨passed, run, rest, after, hitems, htakes⟩

end Reached

end Tracker

/-! ## Cursors -/

theorem TextCursor.showsContents :
    Cursor.ShowsContents ofText (fun text => ⟨text.toList.map Item.ofChar, none⟩)
      fun _ => Shows where
  view _ := view
  opened := shows_ofText
  reset _ := shows_ofText

theorem SourceCursor.showsContents {ρ : Type} [CharSource ρ] :
    Cursor.ShowsContents (ofSource : ρ → SourceCursor ρ) CharSource.contents
      fun source => Shows (CharSource.contents source).failure? where
  view _ := view
  opened source := shows_ofSource (CharSource.gives_contents source)
  reset cursor source := shows_reset cursor (CharSource.gives_contents source)

theorem BoundedCursor.showsContents {σ : Type} [CharStream σ] :
    Cursor.ShowsContents (ofSource : Bounded σ → BoundedCursor σ) Bounded.contents
      fun source bounded => bounded.cursor.Shows source.contents.failure? where
  view _ := view
  opened source := SourceCursor.shows_ofSource source.gives
  reset bounded source := SourceCursor.shows_reset bounded.cursor source.gives

/-- **Taking while a condition holds takes the longest run.**  This is so for every tracker in use,
over a text, over a source of bytes or of characters, and over a stream that may go on behind its
first end or failure: it returns the number of items in the longest run ahead, appends their
characters to its text, stays with its mark and moves as so many single steps would.  It stops in
front of the end or of a character that is not accepted, where the same request takes nothing. -/
theorem Tracker.takeWhile_longest (accept : Char → Bool) :
    (∀ {text : String} {tracker : Tracker TextCursor}, tracker.Reached TextCursor.ofText text →
      tracker.TakesLongest TextCursor.Shows (text.toList.map Item.ofChar) accept) ∧
    (∀ {ρ : Type} [CharSource ρ] {source : ρ} {tracker : Tracker (SourceCursor ρ)},
      tracker.Reached SourceCursor.ofSource source →
      tracker.TakesLongest (SourceCursor.Shows (CharSource.contents source).failure?)
        (CharSource.contents source).items accept) ∧
    ∀ {σ : Type} [CharStream σ] {source : Bounded σ} {tracker : Tracker (BoundedCursor σ)},
      tracker.Reached BoundedCursor.ofSource source →
      tracker.TakesLongest
        (fun bounded => bounded.cursor.Shows source.contents.failure?)
        source.contents.items accept := by
  refine ⟨?_, ?_, ?_⟩
  · intro text tracker hreached
    exact hreached.takesLongest TextCursor.showsContents accept
  · intro ρ _ source tracker hreached
    exact hreached.takesLongest SourceCursor.showsContents accept
  · intro σ _ source tracker hreached
    exact hreached.takesLongest BoundedCursor.showsContents accept

/-! ## Blanks for ever -/

/-- Two blanks, an end, and then blanks for ever. -/
structure Endless where
  reads : Nat

namespace Endless

instance : CharStream Endless where
  read endless :=
    (if endless.reads = 2 then .ok none else .ok (some ⟨' ', 1⟩), ⟨endless.reads + 1⟩)

def source : Bounded Endless where
  stream := ⟨0⟩
  contents := ⟨[⟨' ', 1⟩, ⟨' ', 1⟩], none⟩
  gives := .item rfl (.item rfl (.finish rfl))

def tracker : Tracker (BoundedCursor Endless) :=
  .ofCursor (.ofSource source)

theorem takeWhile_tracker :
    tracker.takeWhile Scan.Words.isBlank = (2, tracker.advance.advance) := by
  rw [Tracker.takeWhile]
  calc Tracker.takeWhileFrom Scan.Words.isBlank 0 tracker
    _ = Tracker.takeWhileFrom Scan.Words.isBlank 1 tracker.advance := by
      rw [Tracker.takeWhileFrom_eq]
      rfl
    _ = Tracker.takeWhileFrom Scan.Words.isBlank 2 tracker.advance.advance := by
      rw [Tracker.takeWhileFrom_eq]
      rfl
    _ = (2, tracker.advance.advance) := by
      rw [Tracker.takeWhileFrom_eq]
      rfl

end Endless

open Scan in
theorem Tracker.takeWhile_longest_endless :
    (∃ tracker : Tracker TextCursor, tracker.Reached TextCursor.ofText "é \n" ∧
      tracker.TakesLongest TextCursor.Shows ("é \n".toList.map Item.ofChar) Words.isBlank) ∧
    (∃ tracker : Tracker (SourceCursor Decoder),
      tracker.Reached SourceCursor.ofSource Words.source ∧
      tracker.TakesLongest (SourceCursor.Shows (some ⟨"gone"⟩)) Words.items Words.isBlank) ∧
    Endless.tracker.Reached BoundedCursor.ofSource Endless.source ∧
      ∃ after, Endless.tracker.TakesRun (fun bounded => bounded.cursor.Shows none) Words.isBlank
        [⟨' ', 1⟩, ⟨' ', 1⟩] [] after := by
  obtain ⟨htexts, hsources, hstreams⟩ := takeWhile_longest Words.isBlank
  refine ⟨?_, ?_, .opened _, ?_⟩
  · have hreached : Tracker.Reached TextCursor.ofText "é \n" _ := .mark (.advance (.opened _))
    exact ⟨_, hreached, htexts hreached⟩
  · have hreached : Tracker.Reached SourceCursor.ofSource Words.source _ :=
      .reset _ (.takeWhile Words.isBlank (.opened (Decoder.ofText " a")))
    have hlongest := hsources hreached
    rw [Words.gives_source.contents_eq] at hlongest
    exact ⟨_, hreached, hlongest⟩
  · obtain ⟨passed, run, rest, after, hitems, htakes⟩ := hstreams (.opened Endless.source)
    change [⟨' ', 1⟩, ⟨' ', 1⟩] = passed ++ (run ++ rest) at hitems
    have hcount : run.length = 2 :=
      congrArg Prod.fst (htakes.takes.symm.trans Endless.takeWhile_tracker)
    have hlength : 2 = passed.length + (run.length + rest.length) := by
      simpa using congrArg List.length hitems
    obtain rfl : passed = [] := List.length_eq_zero_iff.mp (by omega)
    obtain rfl : rest = [] := List.length_eq_zero_iff.mp (by omega)
    obtain rfl : [⟨' ', 1⟩, ⟨' ', 1⟩] = run := by simpa using hitems
    exact ⟨after, htakes⟩

end FrontEnd
