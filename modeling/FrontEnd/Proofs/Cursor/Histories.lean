import FrontEnd.Cursor.Source
import FrontEnd.Proofs.Input.Contents

/-!
# Histories of a cursor

A cursor is advanced, marked and bound to other inputs, in any order; looking at it changes nothing.
A log is kept beside such a history: the input that the cursor was last bound to, the characters
that advancing has found since then, and those of them that came behind the last mark.

`SourceCursor.follow` carries out a history on a cursor over a stream.  Such a cursor has read its
stream once for the input and once for each character that it found, and not again behind an end or
a failure.  What it shows is what the last of these readings was (`SourceCursor.HasRead`).
-/

namespace FrontEnd

/-- What is done with a cursor. -/
inductive Cursor.Operation (ι : Type)
  | advance
  | mark
  | reset (input : ι)

/-- What is remembered of a history. -/
structure Cursor.Log (ι : Type) where
  /-- The input that the cursor was last bound to. -/
  input : ι
  /-- The characters that advancing has found since then. -/
  consumed : List Char
  /-- Those of them that came behind the last mark. -/
  span : List Char

namespace Cursor.Log

variable {ι : Type}

/-- The log of a cursor that was just bound to an input. -/
def opened (input : ι) : Log ι :=
  ⟨input, [], []⟩

/-- The log behind an operation on a cursor with the given lookahead. -/
def note (log : Log ι) (lookahead : Option Char) : Operation ι → Log ι
  | .advance =>
    match lookahead with
    | none => log
    | some character => ⟨log.input, log.consumed ++ [character], log.span ++ [character]⟩
  | .mark => { log with span := [] }
  | .reset input => .opened input

end Cursor.Log

/-! ## Readings -/

/-- The item that was read, if one was. -/
def Reading.item? : Reading → Option Item
  | .ok item => item
  | .error _ => none

/-- The failure, if the reading is one. -/
def Reading.failure? : Reading → Option ReadFailure
  | .ok _ => none
  | .error failure => some failure

theorem Reading.eq_of_item? {reading : Reading} {item : Item}
    (hitem : Reading.item? reading = some item) : reading = .ok (some item) := by
  cases reading with
  | ok item? => exact congrArg Except.ok hitem
  | error failure => cases hitem

namespace CharSource

variable {ρ : Type} [CharStream ρ]

/-- One more reading comes behind the others. -/
theorem readings_succ_eq_append (calls : Nat) (source : ρ) :
    readings (calls + 1) source =
      ((readings calls source).1 ++ [(CharStream.read (readings calls source).2).1],
        (CharStream.read (readings calls source).2).2) := by
  induction calls generalizing source with
  | zero => rfl
  | succ calls ih =>
      rw [readings_succ_of_read rfl, ih, readings_succ_of_read rfl]
      rfl

theorem reads_readings (calls : Nat) (counted : Counted ρ) :
    (readings calls counted).2.reads = counted.reads + calls := by
  induction calls generalizing counted with
  | zero => rfl
  | succ calls ih =>
      have hread : CharStream.read counted =
          ((CharStream.read counted.source).1,
            ⟨(CharStream.read counted.source).2, counted.reads + 1⟩) := rfl
      rw [readings_succ_of_read hread, ih]
      show counted.reads + 1 + calls = counted.reads + (calls + 1)
      omega

end CharSource

/-! ## Cursors over a stream -/

namespace SourceCursor

variable {ρ : Type} [CharStream ρ]

def operate (cursor : SourceCursor ρ) : Cursor.Operation ρ → SourceCursor ρ
  | .advance => cursor.advance
  | .mark => cursor.mark
  | .reset source => cursor.reset source

/-- Carries out operations one after the other, and keeps the log. -/
def follow (cursor : SourceCursor ρ) (log : Cursor.Log ρ) :
    List (Cursor.Operation ρ) → SourceCursor ρ × Cursor.Log ρ
  | [] => (cursor, log)
  | operation :: history =>
    follow (cursor.operate operation)
      (log.note (cursor.lookahead.map Item.character) operation) history

/-- Since the cursor was bound to its input, it has read the items `passed`, which it consumed, and
then made the reading `last`, which it shows. -/
structure HasRead (log : Cursor.Log ρ) (passed : List Item) (last : Reading)
    (cursor : SourceCursor ρ) : Prop where
  consumed : log.consumed = passed.map Item.character
  readings : CharSource.readings (passed.length + 1) log.input =
    (passed.map (fun item => .ok (some item)) ++ [last], cursor.source)
  lookahead : cursor.lookahead = Reading.item? last
  failure : cursor.failure? = Reading.failure? last
  lexeme : cursor.lexeme = String.ofList log.span

variable {log : Cursor.Log ρ} {passed : List Item} {last : Reading} {cursor : SourceCursor ρ}

theorem fill_eq (hfailure : cursor.failure? = none) :
    cursor.fill =
      ⟨(CharStream.read cursor.source).2, Reading.item? (CharStream.read cursor.source).1,
        cursor.lexeme, Reading.failure? (CharStream.read cursor.source).1⟩ := by
  unfold fill
  rw [hfailure, if_neg (by simp)]
  cases hread : CharStream.read cursor.source with
  | mk reading source =>
      cases reading with
      | ok item => rfl
      | error failure => rfl

theorem advance_of_none (hnone : cursor.lookahead = none) : cursor.advance = cursor := by
  unfold advance
  rw [hnone]

theorem advance_of_some {item : Item} (hitem : cursor.lookahead = some item)
    (hfailure : cursor.failure? = none) :
    cursor.advance =
      ⟨(CharStream.read cursor.source).2, Reading.item? (CharStream.read cursor.source).1,
        cursor.lexeme.push item.character,
        Reading.failure? (CharStream.read cursor.source).1⟩ := by
  unfold advance
  rw [hitem]
  exact fill_eq hfailure

theorem hasRead_ofSource (source : ρ) :
    (ofSource source).HasRead (.opened source) [] (CharStream.read source).1 := by
  unfold ofSource
  rw [fill_eq rfl]
  exact ⟨rfl, rfl, rfl, rfl, rfl⟩

theorem hasRead_reset (cursor : SourceCursor ρ) (source : ρ) :
    (cursor.reset source).HasRead (.opened source) [] (CharStream.read source).1 := by
  unfold reset
  rw [fill_eq rfl]
  exact ⟨rfl, rfl, rfl, rfl, rfl⟩

namespace HasRead

theorem mark (hread : cursor.HasRead log passed last) :
    cursor.mark.HasRead { log with span := [] } passed last :=
  ⟨hread.consumed, hread.readings, hread.lookahead, hread.failure, rfl⟩

/-- Behind an item the next reading is made, on the stream that the item left. -/
theorem advance {item : Item} (hread : cursor.HasRead log passed (.ok (some item))) :
    cursor.advance.HasRead
      ⟨log.input, log.consumed ++ [item.character], log.span ++ [item.character]⟩
      (passed ++ [item]) (CharStream.read cursor.source).1 := by
  have hsource : (CharSource.readings (passed.length + 1) log.input).2 = cursor.source := by
    rw [hread.readings]
  rw [advance_of_some hread.lookahead hread.failure]
  refine ⟨?_, ?_, rfl, rfl, ?_⟩
  · rw [hread.consumed, List.map_append]
    rfl
  · rw [List.length_append, List.length_singleton, CharSource.readings_succ_eq_append, hsource,
      hread.readings, List.map_append]
    rfl
  · show cursor.lexeme.push item.character = String.ofList (log.span ++ [item.character])
    rw [hread.lexeme, String.ofList_append, ← String.append_singleton, String.singleton_eq_ofList]

/-- Every operation leaves the cursor with what it has read, and with one reading to show. -/
theorem operate (hread : cursor.HasRead log passed last) (operation : Cursor.Operation ρ) :
    ∃ passed' last',
      (cursor.operate operation).HasRead
        (log.note (cursor.lookahead.map Item.character) operation) passed' last' := by
  cases operation with
  | advance =>
      cases hlookahead : cursor.lookahead with
      | none =>
          refine ⟨passed, last, ?_⟩
          show cursor.advance.HasRead log passed last
          rw [advance_of_none hlookahead]
          exact hread
      | some item =>
          have hitem : Reading.item? last = some item := by rw [← hread.lookahead, hlookahead]
          obtain rfl := Reading.eq_of_item? hitem
          exact ⟨_, _, hread.advance⟩
  | mark => exact ⟨passed, last, hread.mark⟩
  | reset source => exact ⟨[], _, hasRead_reset cursor source⟩

theorem follow (history : List (Cursor.Operation ρ)) (hread : cursor.HasRead log passed last) :
    ∃ passed' last',
      (cursor.follow log history).1.HasRead (cursor.follow log history).2 passed' last' := by
  induction history generalizing cursor log passed last with
  | nil => exact ⟨passed, last, hread⟩
  | cons operation history ih =>
      obtain ⟨passed', last', hread'⟩ := hread.operate operation
      exact ih hread'

/-- The stream was read once for the input and once for each character that was found. -/
theorem reads_eq {log : Cursor.Log (Counted ρ)} {cursor : SourceCursor (Counted ρ)}
    (hread : cursor.HasRead log passed last) :
    cursor.source.reads = log.input.reads + (1 + log.consumed.length) := by
  have hreads := CharSource.reads_readings (passed.length + 1) log.input
  rw [hread.readings] at hreads
  rw [hread.consumed, List.length_map, Nat.add_comm 1]
  exact hreads

theorem failure_isSome_iff (hread : cursor.HasRead log passed last) :
    cursor.failure?.isSome ↔ ∃ failure, last = .error failure := by
  rw [hread.failure]
  cases last with
  | ok item? => simp [Reading.failure?]
  | error failure => simp [Reading.failure?]

end HasRead

/-- At an end or a failure the stream is left alone until the cursor is bound to another one. -/
theorem source_follow_of_none (hnone : cursor.lookahead = none)
    {later : List (Cursor.Operation ρ)} (hstays : ∀ source, .reset source ∉ later) :
    (cursor.follow log later).1.source = cursor.source := by
  induction later generalizing cursor log with
  | nil => rfl
  | cons operation later ih =>
      have hlater : ∀ source, .reset source ∉ later :=
        fun source hmem => hstays source (List.mem_cons_of_mem _ hmem)
      cases operation with
      | advance =>
          have hsame : cursor.operate .advance = cursor := advance_of_none hnone
          rw [follow, hsame]
          exact ih hnone hlater
      | mark =>
          show (follow cursor.mark _ later).1.source = cursor.mark.source
          exact ih hnone hlater
      | reset source => exact absurd List.mem_cons_self (hstays source)

/-- **A cursor reads its stream once.**  Behind every history, the stream that the cursor was last
bound to has been read once, and once more for each character that advancing found.  The cursor
shows the last of these readings, be it an item, an end or a failure, and has gathered the
characters found behind the last mark.  Behind an end or a failure the stream is not read again,
whatever it would deliver, until the cursor is bound to another one. -/
theorem reads_once (source : Counted ρ) (history : List (Cursor.Operation (Counted ρ)))
    {cursor : SourceCursor (Counted ρ)} {log : Cursor.Log (Counted ρ)}
    (hfollow : (ofSource source).follow (.opened source) history = (cursor, log)) :
    ∃ passed last, cursor.HasRead log passed last ∧
      cursor.source.reads = log.input.reads + (1 + log.consumed.length) ∧
      (cursor.failure?.isSome ↔ ∃ failure, last = .error failure) ∧
      (cursor.failure?.isSome → cursor.lookahead = none) ∧
      (Reading.item? last = none → ∀ later, (∀ other, .reset other ∉ later) →
        (cursor.follow log later).1.source = cursor.source) := by
  obtain ⟨passed, last, hread⟩ := (hasRead_ofSource source).follow history
  rw [hfollow] at hread
  refine ⟨passed, last, hread, hread.reads_eq, hread.failure_isSome_iff, ?_, ?_⟩
  · intro hfailure
    obtain ⟨failure, rfl⟩ := hread.failure_isSome_iff.mp hfailure
    exact hread.lookahead
  · intro hitem later hstays
    exact source_follow_of_none (hread.lookahead.trans hitem) hstays

/-- Two wide characters, a pause, and more. -/
def pausing : Counted Script :=
  ⟨⟨[.ok (some ⟨'a', 3⟩), .ok (some ⟨'b', 2⟩), .ok none, .ok (some ⟨'c', 1⟩)]⟩, 0⟩

theorem reads_once_pausing :
    ∃ cursor log,
      (ofSource pausing).follow (.opened pausing) [.advance, .mark, .advance] = (cursor, log) ∧
      log.consumed = ['a', 'b'] ∧ cursor.lexeme = "b" ∧ cursor.source.reads = 3 ∧
      (cursor.follow log [.advance, .mark, .advance]).1.source = cursor.source := by
  refine ⟨_, _, rfl, rfl, rfl, ?_⟩
  obtain ⟨passed, last, hread, hreads, -, -, hlater⟩ :=
    reads_once pausing [.advance, .mark, .advance] rfl
  exact ⟨hreads, hlater hread.lookahead.symm _ (by simp)⟩

end SourceCursor

end FrontEnd
