import FrontEnd.Proofs.Cursor.View
import FrontEnd.Proofs.Scan.Invariants
import FrontEnd.Proofs.Scan.Simulation

/-!
# Spans and positions

A source is a list of items, and every token of a scanner covers a stretch of them: its text are
the characters of the stretch, and its position is counted from the items in front of the stretch.
The stretches of successive tokens lie one behind the other, so tokens never overlap.  Over a text
in memory the text of a token is the slice of the source that begins at its offset.

## Strategy

A tracker splits the items in three: those before the last mark, those consumed since, and those
ahead.  Consuming a character moves the first item ahead over to the consumed ones, and a mark moves
the consumed ones to the front, so the split survives every scanning program
(`Program.run_invariant`).  A scanner marks behind each token, hence each token starts where nothing
is consumed yet.
-/

namespace FrontEnd

/-! ## Places -/

/-- Whether the item opens a new line. -/
def Item.isNewline (item : Item) : Bool :=
  item.character == '\n'

/-- The width of all these items together. -/
def Item.totalWidth : List Item → Nat
  | [] => 0
  | item :: items => item.width + totalWidth items

@[simp] theorem Item.totalWidth_singleton (item : Item) : totalWidth [item] = item.width :=
  rfl

@[simp] theorem Item.totalWidth_append (front back : List Item) :
    totalWidth (front ++ back) = totalWidth front + totalWidth back := by
  induction front with
  | nil => rw [List.nil_append, totalWidth, Nat.zero_add]
  | cons item front ih => rw [List.cons_append, totalWidth, totalWidth, ih, Nat.add_assoc]

/-- Few enough items for a line and a column of 32 bits, and few enough bytes for an offset of
64. -/
structure Fits (items : List Item) : Prop where
  count : items.length < UInt32.size - 1
  width : Item.totalWidth items < UInt64.size

/-- The place that is reached when exactly these items have been passed. -/
structure Location.IsBehind (location : Location) (items : List Item) : Prop where
  offset : location.offset.toNat = Item.totalWidth items
  line : location.line.toNat = 1 + items.countP Item.isNewline
  column : location.column.toNat = 1 + (items.reverse.takeWhile fun item => !item.isNewline).length

theorem Fits.of_append {front back : List Item} (hfits : Fits (front ++ back)) : Fits front := by
  obtain ⟨hcount, hwidth⟩ := hfits
  rw [List.length_append] at hcount
  rw [Item.totalWidth_append] at hwidth
  exact ⟨by omega, by omega⟩

namespace Location

theorem isBehind_first : first.IsBehind [] :=
  ⟨rfl, rfl, rfl⟩

theorem offset_past (location : Location) (character : Char) (width : Nat) :
    (location.past character width).offset = location.offset + UInt64.ofNat width := by
  unfold past
  split <;> rfl

theorem IsBehind.past {location : Location} {items : List Item} {item : Item}
    (hfits : Fits (items ++ [item])) (hbehind : location.IsBehind items) :
    (location.past item.character item.width).IsBehind (items ++ [item]) := by
  obtain ⟨hcount, hwidth⟩ := hfits
  simp only [List.length_append, List.length_singleton, UInt32.size] at hcount
  simp only [Item.totalWidth_append, Item.totalWidth_singleton, UInt64.size] at hwidth
  have hlines : items.countP Item.isNewline ≤ items.length := List.countP_le_length
  have hcolumns : (items.reverse.takeWhile fun item => !item.isNewline).length ≤ items.length := by
    have hle : (items.reverse.takeWhile fun item => !item.isNewline).length ≤ items.reverse.length :=
      (List.takeWhile_sublist _).length_le
    rwa [List.length_reverse] at hle
  have hline := hbehind.line
  have hcolumn := hbehind.column
  have hoffset : (location.offset + UInt64.ofNat item.width).toNat =
      Item.totalWidth (items ++ [item]) := by
    rw [UInt64.toNat_add, UInt64.toNat_ofNat', hbehind.offset, Item.totalWidth_append,
      Item.totalWidth_singleton]
    omega
  unfold Location.past
  by_cases hnewline : item.character = '\n'
  · have hitem : item.isNewline = true := by simp [Item.isNewline, hnewline]
    rw [if_pos hnewline]
    refine ⟨hoffset, ?_, ?_⟩
    · rw [List.countP_append, List.countP_singleton, if_pos hitem, UInt32.toNat_add, hline]
      simp only [UInt32.reduceToNat]
      omega
    · simp [hitem]
  · have hitem : item.isNewline = false := by simp [Item.isNewline, hnewline]
    rw [if_neg hnewline]
    refine ⟨hoffset, ?_, ?_⟩
    · rw [List.countP_append, List.countP_singleton, if_neg (by simp [hitem])]
      exact hline
    · simp only [List.reverse_append, List.reverse_singleton, List.singleton_append,
        List.takeWhile_cons, hitem, Bool.not_false, if_true, List.length_cons]
      rw [UInt32.toNat_add, hcolumn]
      simp only [UInt32.reduceToNat]
      omega

end Location

/-! ## Spans -/

/-- The characters of some items. -/
def Item.text (items : List Item) : String :=
  String.ofList (items.map Item.character)

theorem Item.text_append_singleton (items : List Item) (item : Item) :
    text (items ++ [item]) = (text items).push item.character := by
  simp [text]

/-- The stretch from one index up to, and not including, another. -/
structure Span where
  first : Nat
  last : Nat
  ordered : first ≤ last

/-- The token's text and place are those of the items in the span. -/
structure Token.Covers (items : List Item) (token : Token) (span : Span) : Prop where
  within : span.last ≤ items.length
  text : token.text = Item.text ((items.take span.last).drop span.first)
  place : token.position.toLocation.IsBehind (items.take span.first)

/-- The tokens cover stretches of the items, one behind the other, and so their offsets and lines
never decrease. -/
structure Exact (items : List Item) (tokens : List Token) : Prop where
  spans : ∃ placed : List (Token × Span), placed.map Prod.fst = tokens ∧
    (∀ entry ∈ placed, entry.1.Covers items entry.2) ∧
    placed.Pairwise fun earlier later => earlier.2.last ≤ later.2.first
  offsets : tokens.Pairwise fun earlier later => earlier.position.offset ≤ later.position.offset
  lines : tokens.Pairwise fun earlier later => earlier.position.line ≤ later.position.line

theorem Location.IsBehind.le {items : List Item} {first second : Nat} {location location' : Location}
    (hle : first ≤ second) (hbehind : location.IsBehind (items.take first))
    (hbehind' : location'.IsBehind (items.take second)) :
    location.offset ≤ location'.offset ∧ location.line ≤ location'.line := by
  have htake : items.take second = items.take first ++ (items.drop first).take (second - first) := by
    rw [← List.take_add, Nat.add_sub_cancel' hle]
  rw [htake] at hbehind'
  constructor
  · rw [UInt64.le_iff_toNat_le, hbehind.offset, hbehind'.offset, Item.totalWidth_append]
    exact Nat.le_add_right _ _
  · rw [UInt32.le_iff_toNat_le, hbehind.line, hbehind'.line, List.countP_append, ← Nat.add_assoc]
    exact Nat.le_add_right _ _

theorem Exact.of_placed {items : List Item} {placed : List (Token × Span)}
    (hcovers : ∀ entry ∈ placed, entry.1.Covers items entry.2)
    (hordered : placed.Pairwise fun earlier later => earlier.2.last ≤ later.2.first) :
    Exact items (placed.map Prod.fst) := by
  have hplaces : placed.Pairwise fun earlier later =>
      earlier.1.position.offset ≤ later.1.position.offset ∧
        earlier.1.position.line ≤ later.1.position.line := by
    refine hordered.imp_of_mem ?_
    intro earlier later hearlier hlater hle
    exact (hcovers earlier hearlier).place.le (Nat.le_trans earlier.2.ordered hle)
      (hcovers later hlater).place
  refine ⟨⟨placed, rfl, hcovers, hordered⟩, ?_, ?_⟩
  · rw [List.pairwise_map]
    exact hplaces.imp And.left
  · rw [List.pairwise_map]
    exact hplaces.imp And.right

/-! ## Trackers -/

section Scanning

variable {γ ι : Type} [Cursor γ ι] {shows : γ → String → List Item → Prop}
  {failure? : Option ReadFailure} {items : List Item}

theorem Tracker.advance_of_none {tracker : Tracker γ} (hpeek : tracker.peek = none) :
    tracker.advance = tracker := by
  unfold Tracker.advance
  rw [hpeek]

/-- In front of an item a tracker moves its cursor behind it, and its place with it. -/
theorem Tracker.advance_of_shows {tracker : Tracker γ} {span : String} {item : Item}
    {ahead : List Item} (hview : Cursor.View shows failure?)
    (hshows : shows tracker.cursor span (item :: ahead)) :
    tracker.advance =
      ⟨Cursor.advance tracker.cursor, tracker.here.past item.character item.width,
        tracker.start⟩ := by
  have hpeek : tracker.peek = some item.character := hview.peek hshows
  have hwidth : Cursor.width tracker.cursor = item.width := hview.width hshows
  unfold Tracker.advance
  rw [hpeek, hwidth]

/-- The tracker has passed the items `before` up to its last mark and `inside` since then. -/
structure Tracker.Splits (shows : γ → String → List Item → Prop) (before inside ahead : List Item)
    (tracker : Tracker γ) : Prop where
  cursor : shows tracker.cursor (Item.text inside) ahead
  start : tracker.start.IsBehind before
  here : tracker.here.IsBehind (before ++ inside)

namespace Tracker.Splits

variable {before inside ahead : List Item} {tracker : Tracker γ}

theorem advance_nil (hview : Cursor.View shows failure?)
    (hsplits : tracker.Splits shows before inside []) : tracker.advance = tracker :=
  advance_of_none (hview.peek hsplits.cursor)

theorem advance_cons {item : Item} (hview : Cursor.View shows failure?)
    (hfits : Fits (before ++ inside ++ item :: ahead))
    (hsplits : tracker.Splits shows before inside (item :: ahead)) :
    tracker.advance.Splits shows before (inside ++ [item]) ahead := by
  have hpassed : Fits (before ++ inside ++ [item]) := by
    rw [List.append_cons] at hfits
    exact hfits.of_append
  rw [advance_of_shows hview hsplits.cursor]
  refine ⟨?_, hsplits.start, ?_⟩
  · rw [Item.text_append_singleton]
    exact hview.advance hsplits.cursor
  · rw [← List.append_assoc]
    exact hsplits.here.past hpassed

theorem mark (hview : Cursor.View shows failure?) (hsplits : tracker.Splits shows before inside ahead) :
    tracker.mark.Splits shows (before ++ inside) [] ahead where
  cursor := hview.mark hsplits.cursor
  start := hsplits.here
  here := by
    rw [List.append_nil]
    exact hsplits.here

end Tracker.Splits

/-- The tracker splits the items, and its last mark is not before the index `low`. -/
def Tracker.MarkedFrom (shows : γ → String → List Item → Prop) (items : List Item) (low : Nat)
    (tracker : Tracker γ) : Prop :=
  ∃ before inside ahead, before ++ inside ++ ahead = items ∧ low ≤ before.length ∧
    tracker.Splits shows before inside ahead

theorem Tracker.invariant_markedFrom (hview : Cursor.View shows failure?) (hfits : Fits items)
    (low : Nat) : Tracker.Invariant (Tracker.MarkedFrom shows items low) where
  advance := by
    rintro tracker ⟨before, inside, ahead, rfl, hlow, hsplits⟩
    cases ahead with
    | nil =>
        rw [hsplits.advance_nil hview]
        exact ⟨before, inside, [], rfl, hlow, hsplits⟩
    | cons item ahead =>
        refine ⟨before, inside ++ [item], ahead, ?_, hlow, hsplits.advance_cons hview hfits⟩
        simp
  mark := by
    rintro tracker ⟨before, inside, ahead, rfl, hlow, hsplits⟩
    refine ⟨before ++ inside, [], ahead, ?_, ?_, hsplits.mark hview⟩
    · rw [List.append_nil]
    · rw [List.length_append]
      exact Nat.le_add_right_of_le hlow

/-- The text and the mark of a tracker make a token that covers what was consumed since. -/
theorem Tracker.Splits.covers {before inside ahead : List Item} {tracker : Tracker γ}
    (hview : Cursor.View shows failure?) (hsplits : tracker.Splits shows before inside ahead)
    (kind : Kind) (filename : String) :
    Token.Covers (before ++ inside ++ ahead)
      ⟨kind, tracker.text, tracker.start.inFile filename⟩
      ⟨before.length, (before ++ inside).length, (List.sublist_append_left _ _).length_le⟩ where
  within := by simp
  text := by
    rw [List.take_left, List.drop_left]
    exact hview.lexeme hsplits.cursor
  place := by
    rw [List.append_assoc, List.take_left]
    exact hsplits.start

namespace Scan

variable {κ : Type}

/-! ## Scanners -/

/-- The scanner has not ended, and its next token starts at the index `low` or behind it. -/
structure Scanner.RestsAt (shows : γ → String → List Item → Prop) (items : List Item) (low : Nat)
    (scanner : Scanner γ κ) : Prop where
  ended : scanner.ended = none
  marked : ∃ before ahead, before ++ ahead = items ∧ before.length = low ∧
    scanner.tracker.Splits shows before [] ahead

namespace Scanner.RestsAt

variable {low : Nat} {scanner after : Scanner γ κ} {token : Token}

/-- A token behind a failed read covers nothing; any other one covers what its run consumed since
the last mark, and the scanner rests behind it. -/
theorem next (hview : Cursor.View shows failure?) (hfits : Fits items)
    (hrests : scanner.RestsAt shows items low) (hnext : scanner.next = .ok (token, after)) :
    ∃ span : Span, low ≤ span.first ∧ token.Covers items span ∧
      (token.isEnd = false → after.RestsAt shows items span.last) := by
  obtain ⟨hended, before, ahead, rfl, rfl, hsplits⟩ := hrests
  by_cases hfailed : (scanner.failure?.isSome && scanner.tracker.isDone) = true
  · rw [next_failed hended hfailed] at hnext
    cases hnext
    have hplace := hsplits.here
    rw [List.append_nil] at hplace
    refine ⟨⟨before.length, before.length, Nat.le_refl _⟩, Nat.le_refl _, ?_, by nofun⟩
    refine ⟨by simp, ?_, ?_⟩
    · simp [Token.ending, Item.text]
    · rw [List.take_left]
      exact hplace
  · rw [Bool.not_eq_true] at hfailed
    rw [next_running hended hfailed] at hnext
    cases hrun : scanner.program.run scanner.budget scanner.control scanner.tracker with
    | error cause => rw [hrun] at hnext; cases hnext
    | ok found =>
        obtain ⟨kind, control, tracker⟩ := found
        rw [hrun] at hnext
        cases hnext
        -- The program may mark again, so the token starts at the old mark or behind it.
        have hmarked : scanner.tracker.MarkedFrom shows (before ++ ahead) before.length :=
          ⟨before, [], ahead, by rw [List.append_nil], Nat.le_refl _, hsplits⟩
        obtain ⟨before', inside, ahead', hitems, hlow, hfound⟩ :=
          Program.run_invariant (Tracker.invariant_markedFrom hview hfits before.length) hmarked hrun
        rw [← hitems]
        refine ⟨_, hlow, hfound.covers hview kind scanner.filename, ?_⟩
        intro hkind
        refine ⟨?_, before' ++ inside, ahead', rfl, rfl, hfound.mark hview⟩
        show (if kind.isEnd then some (tracker.start.inFile scanner.filename) else none) = none
        rw [if_neg]
        simpa [Token.isEnd] using hkind

theorem takeThroughEndFrom (hview : Cursor.View shows failure?) (hfits : Fits items) {limit : Nat}
    {taken tokens : List Token} (hrests : scanner.RestsAt shows items low)
    (hpulled : TokenStream.takeThroughEndFrom limit taken scanner = .ok (tokens, after)) :
    ∃ placed : List (Token × Span), tokens = taken.reverse ++ placed.map Prod.fst ∧
      (∀ entry ∈ placed, entry.1.Covers items entry.2 ∧ low ≤ entry.2.first) ∧
      placed.Pairwise fun earlier later => earlier.2.last ≤ later.2.first := by
  induction limit generalizing taken low scanner with
  | zero =>
      cases hpulled
      exact ⟨[], by simp, by simp, .nil⟩
  | succ limit ih =>
      unfold TokenStream.takeThroughEndFrom at hpulled
      cases hnext : scanner.next with
      | error cause => simp [TokenStream.next, hnext] at hpulled
      | ok pulled =>
          obtain ⟨token, behind⟩ := pulled
          obtain ⟨span, hlow, hcovers, hbehind⟩ := hrests.next hview hfits hnext
          simp only [TokenStream.next, hnext] at hpulled
          by_cases hend : token.isEnd = true
          · rw [if_pos hend] at hpulled
            cases hpulled
            refine ⟨[(token, span)], by simp, ?_, List.pairwise_singleton _ _⟩
            intro entry hentry
            rw [List.mem_singleton.mp hentry]
            exact ⟨hcovers, hlow⟩
          · rw [if_neg hend] at hpulled
            rw [Bool.not_eq_true] at hend
            obtain ⟨placed, htokens, hplaced, hordered⟩ := ih (hbehind hend) hpulled
            refine ⟨(token, span) :: placed, ?_, ?_, ?_⟩
            · rw [htokens]
              simp
            · intro entry hentry
              rcases List.mem_cons.mp hentry with rfl | hentry
              · exact ⟨hcovers, hlow⟩
              · obtain ⟨hentry, hlast⟩ := hplaced entry hentry
                have hordered := span.ordered
                exact ⟨hentry, by omega⟩
            · refine List.pairwise_cons.mpr ⟨?_, hordered⟩
              intro entry hentry
              exact (hplaced entry hentry).2

theorem exact (hview : Cursor.View shows failure?) (hfits : Fits items) {limit : Nat}
    {tokens : List Token} (hrests : scanner.RestsAt shows items low)
    (hpulled : TokenStream.takeThroughEnd scanner limit = .ok (tokens, after)) :
    Exact items tokens := by
  obtain ⟨placed, htokens, hplaced, hordered⟩ := hrests.takeThroughEndFrom hview hfits hpulled
  rw [htokens]
  exact .of_placed (fun entry hentry => (hplaced entry hentry).1) hordered

end Scanner.RestsAt

theorem Scanner.restsAt_ofCursor {cursor : γ} (hshows : shows cursor "" items)
    (program : Program κ) (budget : Nat) (filename : String) :
    (ofCursor cursor program budget filename).RestsAt shows items 0 :=
  ⟨rfl, [], items, rfl, rfl, ⟨hshows, Location.isBehind_first, Location.isBehind_first⟩⟩

end Scan

end Scanning

/-! ## Texts -/

theorem Item.totalWidth_ofChar (characters : List Char) :
    Item.totalWidth (characters.map Item.ofChar) = (String.ofList characters).utf8ByteSize := by
  induction characters with
  | nil => rfl
  | cons character characters ih =>
      rw [String.ofList_cons, String.utf8ByteSize_append, String.utf8ByteSize_singleton, ← ih]
      rfl

private theorem text_ofChar (characters : List Char) :
    Item.text (characters.map Item.ofChar) = String.ofList characters := by
  unfold Item.text
  rw [List.map_map]
  exact congrArg String.ofList (List.map_id characters)

/-- Over a text, what a token covers is the slice from its offset on. -/
theorem Token.Covers.between? {text : String} {token : Token} {span : Span}
    (hcovers : token.Covers (text.toList.map Item.ofChar) span) :
    Slice.between? text token.position.offset.toNat
      (token.position.offset.toNat + token.text.utf8ByteSize) = some token.text := by
  let front := String.ofList (text.toList.take span.first)
  let back := String.ofList (text.toList.drop span.last)
  have hoffset : token.position.offset.toNat = front.utf8ByteSize := by
    rw [hcovers.place.offset, ← List.map_take, Item.totalWidth_ofChar]
  have hmiddle : token.text = String.ofList ((text.toList.take span.last).drop span.first) := by
    rw [hcovers.text, ← List.map_take, ← List.map_drop, text_ofChar]
  have hsource : text = front ++ token.text ++ back := by
    have hfront : (text.toList.take span.last).take span.first = text.toList.take span.first := by
      rw [List.take_take, Nat.min_eq_left span.ordered]
    rw [hmiddle, ← String.ofList_append, ← String.ofList_append, ← hfront, List.take_append_drop,
      List.take_append_drop, String.ofList_toList]
  rw [hoffset, ← String.utf8ByteSize_append]
  conv => lhs; rw [hsource]
  exact Slice.between?_append front token.text back

namespace Scan

/-- **Spans and positions are exact.**  Up to and including the first end, the tokens of a scanner
cover the items of its source one stretch behind the other, and over a text their own texts are
slices of it. -/
theorem Scanner.exact_takeThroughEnd {κ : Type} (program : Program κ) (budget limit : Nat)
    (filename : String) :
    (∀ {ρ : Type} [CharSource ρ] (source : ρ) {tokens : List Token}
        {after : Scanner (SourceCursor ρ) κ},
      Fits (CharSource.contents source).items →
      TokenStream.takeThroughEnd
        (ofCursor (SourceCursor.ofSource source) program budget filename) limit =
          .ok (tokens, after) →
      Exact (CharSource.contents source).items tokens) ∧
    ∀ (text : String) {tokens : List Token} {after : Scanner TextCursor κ},
      Fits (text.toList.map Item.ofChar) →
      TokenStream.takeThroughEnd (ofCursor (TextCursor.ofText text) program budget filename) limit =
        .ok (tokens, after) →
      Exact (text.toList.map Item.ofChar) tokens ∧
        ∀ token ∈ tokens, Slice.between? text token.position.offset.toNat
          (token.position.offset.toNat + token.text.utf8ByteSize) = some token.text := by
  constructor
  · intro ρ _ source tokens after hfits hpulled
    have hshows := SourceCursor.shows_ofSource (CharSource.gives_contents source)
    have hrests := restsAt_ofCursor hshows program budget filename
    exact hrests.exact SourceCursor.view hfits hpulled
  · intro text tokens after hfits hpulled
    have hrests := restsAt_ofCursor (TextCursor.shows_ofText text) program budget filename
    have hexact := hrests.exact TextCursor.view hfits hpulled
    refine ⟨hexact, ?_⟩
    obtain ⟨placed, rfl, hcovers, -⟩ := hexact.spans
    intro token htoken
    obtain ⟨entry, hentry, rfl⟩ := List.mem_map.mp htoken
    exact (hcovers entry hentry).between?

/-! ## Words -/

namespace Words

inductive Point
  | skip
  | drop
  | mark
  | begin
  | take
  | look
  | found
  | stop

def isBlank (character : Char) : Bool :=
  character == ' ' || character == '\n'

/-- Blanks are skipped, and what lies between them are the tokens. -/
def program : Program Point where
  start := .skip
  request
    | .skip => .peek fun next => if next.any isBlank then .drop else .mark
    | .drop => .advance .skip
    | .mark => .mark .begin
    | .begin => .peek fun next => if next.isSome then .take else .stop
    | .take => .advance .look
    | .look => .peek fun next => if next.all isBlank then .found else .take
    | .found => .finish ⟨1⟩ .skip
    | .stop => .finish .endOfInput .skip

/-- Two lines, the second with a malformed byte, and then a failed read. -/
def source : Decoder :=
  ⟨[.data [0x61, 0x0A, 0xFF], .interruption, .data [0x62], .failure "gone"]⟩

def items : List Item :=
  [⟨'a', 1⟩, ⟨'\n', 1⟩, ⟨Utf8.replacement, 1⟩, ⟨'b', 1⟩]

def tokens : List Token :=
  [⟨⟨1⟩, "a", ⟨⟨0, 1, 1⟩, "name"⟩⟩, ⟨⟨1⟩, "\uFFFDb", ⟨⟨2, 2, 1⟩, "name"⟩⟩,
    .ending ⟨⟨4, 2, 3⟩, "name"⟩]

theorem gives_source : CharSource.Gives source items (some ⟨"gone"⟩) :=
  .item rfl (.item rfl (.item rfl (.item rfl (.fail rfl))))

end Words

theorem Scanner.exact_takeThroughEnd_words :
    Fits (CharSource.contents Words.source).items ∧
      ∃ after, TokenStream.takeThroughEnd
          (ofCursor (SourceCursor.ofSource Words.source) Words.program 20 "name") 10 =
            .ok (Words.tokens, after) ∧
        Exact (CharSource.contents Words.source).items Words.tokens := by
  have hfits : Fits (CharSource.contents Words.source).items := by
    rw [Words.gives_source.contents_eq]
    exact ⟨by decide, by decide⟩
  exact ⟨hfits, _, rfl, (exact_takeThroughEnd Words.program 20 10 "name").1 Words.source hfits rfl⟩

end Scan

end FrontEnd
