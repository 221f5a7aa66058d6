import FrontEnd.Cursor.Source
import FrontEnd.Cursor.Text
import FrontEnd.Proofs.Input.Decoding
import FrontEnd.Proofs.Text.Boundary

/-!
# What a cursor stands on

However a cursor keeps its place, what can be seen of it are the text consumed since the last mark
and the items ahead.  `Cursor.View` says that a representation by these two is faithful: what the
cursor shows is read off them, advancing moves the first item over to the text, and a mark drops
the text.  A failure behind the last item is seen as soon as nothing is ahead, and not before.

Both kinds of cursors have such a view.  A cursor over a text shows the characters behind its
offset, and the slice from its mark up to there.  A cursor over a source shows its lookahead and
what the source still gives, and the characters that it has gathered.
-/

namespace FrontEnd

/-- A cursor that stands behind the text `span`, with the items `ahead` in front of it and then the
failure, if there is one, behaves as this says. -/
structure Cursor.View {γ ι : Type} [Cursor γ ι] (shows : γ → String → List Item → Prop)
    (failure? : Option ReadFailure) : Prop where
  peek : ∀ {cursor span ahead}, shows cursor span ahead →
    Cursor.peek cursor = ahead.head?.map Item.character
  width : ∀ {cursor span ahead}, shows cursor span ahead →
    Cursor.width cursor = (ahead.head?.map Item.width).getD 0
  lexeme : ∀ {cursor span ahead}, shows cursor span ahead → Cursor.lexeme cursor = span
  failure : ∀ {cursor span ahead}, shows cursor span ahead →
    Cursor.failure? cursor = failure?.filter fun _ => ahead.isEmpty
  advance : ∀ {cursor span item ahead}, shows cursor span (item :: ahead) →
    shows (Cursor.advance cursor) (span.push item.character) ahead
  mark : ∀ {cursor span ahead}, shows cursor span ahead → shows (Cursor.mark cursor) "" ahead

/-! ## Texts -/

namespace TextCursor

/-- The text consists of what lies before the mark, the span and the characters ahead, and the
cursor's offsets are the seams. -/
structure Splits (cursor : TextCursor) (front span : String) (back : List Char) : Prop where
  source : cursor.source = front ++ span ++ String.ofList back
  spanStart : cursor.spanStart = front.utf8ByteSize
  offset : cursor.offset = (front ++ span).utf8ByteSize
  lookahead : cursor.lookahead = back.head?

/-- The cursor stands behind `span` and in front of the items `ahead`. -/
def Shows (cursor : TextCursor) (span : String) (ahead : List Item) : Prop :=
  ∃ front back, cursor.Splits front span back ∧ ahead = back.map Item.ofChar

namespace Splits

variable {cursor : TextCursor} {front span : String} {back : List Char}

theorem lexeme (hsplits : cursor.Splits front span back) : cursor.lexeme = span := by
  rw [TextCursor.lexeme, hsplits.source, hsplits.spanStart, hsplits.offset, Slice.between?_append,
    Option.getD_some]

theorem advance {character : Char} (hsplits : cursor.Splits front span (character :: back)) :
    cursor.advance.Splits front (span.push character) back := by
  have hsource : cursor.source = front ++ span.push character ++ String.ofList back := by
    rw [hsplits.source, String.ofList_cons, ← String.append_singleton]
    simp only [String.append_assoc]
  have hoffset : cursor.offset + character.utf8Size =
      (front ++ span.push character).utf8ByteSize := by
    rw [hsplits.offset]
    simp only [String.utf8ByteSize_append, String.utf8ByteSize_push, Nat.add_assoc]
  have hadvance : cursor.advance =
      { cursor with
        offset := cursor.offset + character.utf8Size
        lookahead := Slice.charAt? cursor.source (cursor.offset + character.utf8Size) } := by
    rw [TextCursor.advance, hsplits.lookahead]
    rfl
  rw [hadvance]
  -- The new offset is a seam again, and the character there is the first one that is left.
  refine ⟨hsource, hsplits.spanStart, hoffset, ?_⟩
  rw [hsource, hoffset]
  exact Slice.charAt?_append (front ++ span.push character) back

theorem mark (hsplits : cursor.Splits front span back) :
    cursor.mark.Splits (front ++ span) "" back where
  source := by rw [String.append_empty]; exact hsplits.source
  spanStart := hsplits.offset
  offset := by rw [String.append_empty]; exact hsplits.offset
  lookahead := hsplits.lookahead

end Splits

theorem splits_ofText (text : String) : (ofText text).Splits "" "" text.toList := by
  refine ⟨?_, rfl, rfl, ?_⟩
  · simp [ofText]
  · have hfirst := Slice.charAt?_append "" text.toList
    simpa [ofText] using hfirst

theorem shows_ofText (text : String) : (ofText text).Shows "" (text.toList.map Item.ofChar) :=
  ⟨"", text.toList, splits_ofText text, rfl⟩

theorem view : Cursor.View Shows none where
  peek := by
    rintro cursor span ahead ⟨front, back, hsplits, rfl⟩
    show cursor.lookahead = _
    rw [hsplits.lookahead, List.head?_map, Option.map_map]
    exact (Option.map_id_apply).symm
  width := by
    rintro cursor span ahead ⟨front, back, hsplits, rfl⟩
    show (cursor.lookahead.map Char.utf8Size).getD 0 = _
    rw [hsplits.lookahead, List.head?_map, Option.map_map]
    rfl
  lexeme := by
    rintro cursor span ahead ⟨front, back, hsplits, rfl⟩
    exact hsplits.lexeme
  failure := fun _ => rfl
  advance := by
    rintro cursor span item ahead ⟨front, back, hsplits, hahead⟩
    cases back with
    | nil => cases hahead
    | cons character back =>
        obtain ⟨rfl, rfl⟩ := List.cons.inj hahead
        exact ⟨front, back, hsplits.advance, rfl⟩
  mark := by
    rintro cursor span ahead ⟨front, back, hsplits, hahead⟩
    exact ⟨front ++ span, back, hsplits.mark, hahead⟩

end TextCursor

/-! ## Sources -/

namespace SourceCursor

section Stream

variable {ρ : Type} [CharStream ρ]

/-- What lies behind the lookahead, as long as there is a lookahead. -/
def Follows (failure? : Option ReadFailure) (source : ρ) : List Item → Prop
  | [] => True
  | _ :: items => CharSource.Gives source items failure?

/-- The cursor has gathered `span` and stands in front of the items `ahead`, and of the failure
behind them if there is one. -/
structure Shows (failure? : Option ReadFailure) (cursor : SourceCursor ρ) (span : String)
    (ahead : List Item) : Prop where
  lexeme : cursor.lexeme = span
  failure : cursor.failure? = failure?.filter fun _ => ahead.isEmpty
  lookahead : cursor.lookahead = ahead.head?
  source : Follows failure? cursor.source ahead

variable {failure? : Option ReadFailure}

theorem shows_fill {cursor : SourceCursor ρ} {items : List Item} (hfailure : cursor.failure? = none)
    (hgives : CharSource.Gives cursor.source items failure?) :
    cursor.fill.Shows failure? cursor.lexeme items := by
  have hnone : (failure?.filter fun _ => false) = none := by cases failure? <;> rfl
  unfold fill
  rw [hfailure, if_neg (by simp)]
  cases hgives with
  | finish hread =>
      rw [hread]
      exact ⟨rfl, rfl, rfl, trivial⟩
  | fail hread =>
      rw [hread]
      exact ⟨rfl, rfl, rfl, trivial⟩
  | item hread hrest =>
      rw [hread]
      exact ⟨rfl, hnone.symm, rfl, hrest⟩

theorem shows_ofSource {source : ρ} {items : List Item}
    (hgives : CharSource.Gives source items failure?) :
    (ofSource source).Shows failure? "" items :=
  shows_fill rfl hgives

theorem shows_reset {source : ρ} {items : List Item} (cursor : SourceCursor ρ)
    (hgives : CharSource.Gives source items failure?) :
    (cursor.reset source).Shows failure? "" items :=
  shows_fill rfl hgives

namespace Shows

variable {cursor : SourceCursor ρ} {span : String} {ahead : List Item}

theorem peek (hshows : cursor.Shows failure? span ahead) :
    cursor.lookahead.map Item.character = ahead.head?.map Item.character := by
  rw [hshows.lookahead]

theorem width (hshows : cursor.Shows failure? span ahead) :
    (cursor.lookahead.map Item.width).getD 0 = (ahead.head?.map Item.width).getD 0 := by
  rw [hshows.lookahead]

theorem advance {item : Item} (hshows : cursor.Shows failure? span (item :: ahead)) :
    cursor.advance.Shows failure? (span.push item.character) ahead := by
  have hfailure : cursor.failure? = none := by
    rw [hshows.failure]
    cases failure? <;> rfl
  rw [SourceCursor.advance, hshows.lookahead, ← hshows.lexeme]
  exact shows_fill hfailure hshows.source

theorem mark (hshows : cursor.Shows failure? span ahead) : cursor.mark.Shows failure? "" ahead :=
  ⟨rfl, hshows.failure, hshows.lookahead, hshows.source⟩

end Shows

end Stream

theorem view {ρ : Type} [CharSource ρ] {failure? : Option ReadFailure} :
    Cursor.View (Shows failure? : SourceCursor ρ → String → List Item → Prop) failure? where
  peek := Shows.peek
  width := Shows.width
  lexeme hshows := hshows.lexeme
  failure hshows := hshows.failure
  advance := Shows.advance
  mark := Shows.mark

end SourceCursor

end FrontEnd
