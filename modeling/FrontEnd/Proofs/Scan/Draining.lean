import FrontEnd.Proofs.Input.Exactness
import FrontEnd.Proofs.Scan.Ending
import FrontEnd.Proofs.Scan.Spans

/-!
# Draining an input

A run of a scanning program consumes some characters up to its last mark, and some more behind it,
which are the text of its token.  A program that consumes a character in every run, unless it stands
at the end of the input and returns the kind that ends it, comes to that end: there are no more
tokens than characters.  The characters consumed on the way, up to each token's mark and behind it,
are the input, so none of them is skipped or seen twice.

## Strategy

`Tracker.Walks` keeps the characters that lead from one tracker to another.  Over a cursor with a
view these are the characters of the first items ahead (`Tracker.Walks.passed`), whatever the
program.  So every call of a scanner cuts off a front of what is ahead (`Scanner.RunsWell.cuts`),
and the number of items left is the measure of the induction over the calls
(`Scanner.WellBehaved.drainage`).
-/

namespace FrontEnd

theorem Item.Partition.totalWidth_eq {items : List Item} {bytes : List UInt8}
    (hpartition : Item.Partition items bytes) : Item.totalWidth items = bytes.length := by
  induction hpartition with
  | nil => rfl
  | cons hitem _ ih => rw [Item.totalWidth, hitem.width, ih, List.length_append]

/-- A stream that comes to its end is pulled up to there, if it may be. -/
theorem TokenStream.ReachesEnd.takeThroughEndFrom {τ : Type} [TokenStream τ] {stream rest : τ}
    {before : List Token} {last : Token} (hreaches : ReachesEnd stream before last rest)
    {limit : Nat} (hlimit : before.length < limit) (taken : List Token) :
    takeThroughEndFrom limit taken stream = .ok (taken.reverse ++ before ++ [last], rest) := by
  induction hreaches generalizing limit taken with
  | @ends stream rest last hnext hlast =>
      obtain ⟨limit, rfl⟩ := Nat.exists_eq_succ_of_ne_zero (Nat.ne_of_gt hlimit)
      simp [TokenStream.takeThroughEndFrom, hnext, hlast]
  | @token stream middle rest token last before hnext htoken _ ih =>
      obtain ⟨limit, rfl⟩ := Nat.exists_eq_succ_of_ne_zero (Nat.ne_of_gt (Nat.zero_lt_of_lt hlimit))
      have hrest := ih (Nat.lt_of_succ_lt_succ hlimit) (token :: taken)
      simpa [TokenStream.takeThroughEndFrom, hnext, htoken] using hrest

/-! ## Trackers -/

variable {γ ι : Type} [Cursor γ ι]

/-- Consuming `trivia` up to the last mark, and `inside` behind it, leads from `tracker` to
another one. -/
inductive Tracker.Walks (tracker : Tracker γ) : List Char → List Char → Tracker γ → Prop
  | start : Walks tracker [] [] tracker
  | advance {trivia inside : List Char} {after : Tracker γ} {character : Char}
      (hwalks : Walks tracker trivia inside after) (hpeek : after.peek = some character) :
      Walks tracker trivia (inside ++ [character]) after.advance
  | mark {trivia inside : List Char} {after : Tracker γ}
      (hwalks : Walks tracker trivia inside after) : Walks tracker (trivia ++ inside) [] after.mark

variable {shows : γ → String → List Item → Prop} {failure? : Option ReadFailure}

/-- The tracker has passed the items `before` up to its last mark and `inside` since then, and its
offsets are their widths. -/
structure Tracker.Passed (shows : γ → String → List Item → Prop) (before inside ahead : List Item)
    (tracker : Tracker γ) : Prop where
  cursor : shows tracker.cursor (Item.text inside) ahead
  start : tracker.start.offset = UInt64.ofNat (Item.totalWidth before)
  here : tracker.here.offset = UInt64.ofNat (Item.totalWidth (before ++ inside))

namespace Tracker.Passed

variable {before inside ahead : List Item} {tracker : Tracker γ}

theorem advance {item : Item} (hview : Cursor.View shows failure?)
    (hpassed : tracker.Passed shows before inside (item :: ahead)) :
    tracker.advance.Passed shows before (inside ++ [item]) ahead := by
  rw [advance_of_shows hview hpassed.cursor]
  refine ⟨?_, hpassed.start, ?_⟩
  · rw [Item.text_append_singleton]
    exact hview.advance hpassed.cursor
  · calc (tracker.here.past item.character item.width).offset
      _ = tracker.here.offset + UInt64.ofNat item.width := Location.offset_past _ _ _
      _ = UInt64.ofNat (Item.totalWidth (before ++ inside) + item.width) := by
        rw [hpassed.here, UInt64.ofNat_add]
      _ = UInt64.ofNat (Item.totalWidth (before ++ (inside ++ [item]))) := by
        rw [← List.append_assoc, Item.totalWidth_append (before ++ inside),
          Item.totalWidth_singleton]

theorem mark (hview : Cursor.View shows failure?)
    (hpassed : tracker.Passed shows before inside ahead) :
    tracker.mark.Passed shows (before ++ inside) [] ahead where
  cursor := hview.mark hpassed.cursor
  start := hpassed.here
  here := by
    rw [List.append_nil]
    exact hpassed.here

end Tracker.Passed

/-- The characters of a walk are those of the first items ahead. -/
theorem Tracker.Walks.passed {tracker after : Tracker γ} {trivia inside : List Char}
    {before ahead : List Item} (hview : Cursor.View shows failure?)
    (hwalks : tracker.Walks trivia inside after)
    (hpassed : tracker.Passed shows before [] ahead) :
    ∃ skipped taken rest, ahead = skipped ++ taken ++ rest ∧
      trivia = skipped.map Item.character ∧ inside = taken.map Item.character ∧
      after.Passed shows (before ++ skipped) taken rest := by
  induction hwalks with
  | start => exact ⟨[], [], ahead, rfl, rfl, rfl, by rwa [List.append_nil]⟩
  | @advance trivia inside after character hwalks hpeek ih =>
      obtain ⟨skipped, taken, rest, rfl, rfl, rfl, hafter⟩ := ih
      have hlook : after.peek = rest.head?.map Item.character := hview.peek hafter.cursor
      cases rest with
      | nil =>
          rw [hpeek] at hlook
          cases hlook
      | cons item rest =>
          rw [hpeek] at hlook
          obtain rfl : character = item.character := Option.some.inj hlook
          refine ⟨skipped, taken ++ [item], rest, ?_, rfl, ?_, hafter.advance hview⟩
          · simp
          · rw [List.map_append, List.map_singleton]
  | mark hwalks ih =>
      obtain ⟨skipped, taken, rest, rfl, rfl, rfl, hafter⟩ := ih
      refine ⟨skipped ++ taken, [], rest, ?_, ?_, rfl, ?_⟩
      · rw [List.append_nil]
      · rw [List.map_append]
      · rw [← List.append_assoc]
        exact hafter.mark hview

namespace Scan

variable {κ : Type}

/-! ## Calls -/

/-- A token together with the characters that were consumed up to its mark. -/
structure Entry where
  trivia : List Char
  token : Token

/-- All characters that were consumed for the token. -/
def Entry.characters (entry : Entry) : List Char :=
  entry.trivia ++ entry.token.text.toList

namespace Scanner

/-- The next call runs the program, which consumes what the entry says, and returns its token. -/
structure Scans (scanner : Scanner γ κ) (entry : Entry) (after : Scanner γ κ) : Prop where
  next : scanner.next = .ok (entry.token, after)
  walks : ∃ kind control tracker,
    scanner.program.run scanner.budget scanner.control scanner.tracker =
      .ok (kind, control, tracker) ∧
    scanner.tracker.Walks entry.trivia entry.token.text.toList tracker

/-- One call after the other makes these entries. -/
inductive ScansTo : Scanner γ κ → List Entry → Scanner γ κ → Prop
  | nil {scanner : Scanner γ κ} : ScansTo scanner [] scanner
  | cons {scanner middle after : Scanner γ κ} {entry : Entry} {entries : List Entry}
      (hscans : scanner.Scans entry middle) (hrest : ScansTo middle entries after) :
      ScansTo scanner (entry :: entries) after

/-- The next run of the program returns.  It returns the kind that ends the input exactly if nothing
is left to read behind it and nothing has been consumed since its last mark, and otherwise it has
consumed a character. -/
def RunsWell (scanner : Scanner γ κ) : Prop :=
  ∃ kind control after trivia inside,
    scanner.program.run scanner.budget scanner.control scanner.tracker =
      .ok (kind, control, after) ∧
    scanner.tracker.Walks trivia inside after ∧
    (kind.isEnd = true ↔ after.isDone = true ∧ inside = []) ∧
    (kind.isEnd = false → trivia ++ inside ≠ [])

/-- Every run that the scanner comes to make is such a run. -/
def WellBehaved (first : Scanner γ κ) : Prop :=
  ∀ (count : Nat) (tokens : List Token) (scanner : Scanner γ κ),
    TokenStream.take count first = .ok (tokens, scanner) → scanner.ended = none → scanner.RunsWell

theorem WellBehaved.behind {scanner after : Scanner γ κ} {token : Token}
    (hwell : scanner.WellBehaved) (hnext : scanner.next = .ok (token, after)) :
    after.WellBehaved := by
  intro count tokens last htake hended
  refine hwell (count + 1) (token :: tokens) last ?_ hended
  rw [TokenStream.take_succ_of_next hnext, htake]
  rfl

/-- The call passes the items `skipped` and makes a token of the items `taken`. -/
structure Cuts (shows : γ → String → List Item → Prop) (before skipped taken rest : List Item)
    (scanner : Scanner γ κ) (token : Token) (after : Scanner γ κ) : Prop where
  scans : scanner.Scans ⟨skipped.map Item.character, token⟩ after
  text : token.text = Item.text taken
  offset : token.position.offset = UInt64.ofNat (Item.totalWidth (before ++ skipped))
  isEnd : token.isEnd = true ↔ taken = [] ∧ rest = []
  progress : token.isEnd = false → skipped ++ taken ≠ []
  ended : token.isEnd = false → after.ended = none
  tracker : after.tracker.Passed shows (before ++ (skipped ++ taken)) [] rest

variable {scanner after rest : Scanner γ κ}

/-- A call without a failed read runs the program, and what this consumes is cut off from the items
ahead. -/
theorem RunsWell.cuts {before ahead : List Item} (hview : Cursor.View shows none)
    (hruns : scanner.RunsWell) (hended : scanner.ended = none)
    (hpassed : scanner.tracker.Passed shows before [] ahead) :
    ∃ skipped taken rest token after, ahead = skipped ++ taken ++ rest ∧
      scanner.Cuts shows before skipped taken rest token after := by
  obtain ⟨kind, control, tracker, trivia, inside, hrun, hwalks, hend, hprogress⟩ := hruns
  obtain ⟨skipped, taken, rest, rfl, rfl, rfl, htracker⟩ := hwalks.passed hview hpassed
  have htext : tracker.text = Item.text taken := hview.lexeme htracker.cursor
  have hfailure : scanner.failure? = none := hview.failure hpassed.cursor
  have hnext : scanner.next =
      .ok (⟨kind, tracker.text, tracker.start.inFile scanner.filename⟩,
        scanner.behind kind control tracker) := by
    rw [next_running hended (by simp [hfailure]), hrun]
    rfl
  have hdone : tracker.isDone = true ↔ rest = [] := by
    have hpeek : tracker.peek = rest.head?.map Item.character := hview.peek htracker.cursor
    rw [Tracker.isDone, hpeek]
    simp
  refine ⟨skipped, taken, rest, _, _, rfl, ⟨hnext, kind, control, tracker, hrun, ?_⟩, htext,
    htracker.start, ?_, ?_, ?_, ?_⟩
  · rw [htext, Item.text, String.toList_ofList]
    exact hwalks
  · show kind.isEnd = true ↔ _
    rw [hend, hdone, List.map_eq_nil_iff, and_comm]
  · intro hkind
    have hsome := hprogress hkind
    rwa [← List.map_append, Ne, List.map_eq_nil_iff] at hsome
  · intro hkind
    show (if kind.isEnd then some (tracker.start.inFile scanner.filename) else none) = none
    rw [if_neg]
    simpa [Token.isEnd] using hkind
  · rw [← List.append_assoc]
    exact htracker.mark hview

/-- Unless it ends the input, a call leaves fewer items ahead. -/
theorem Cuts.length_lt {before skipped taken left : List Item} {token : Token}
    (hcuts : scanner.Cuts shows before skipped taken left token after)
    (htoken : token.isEnd = false) : left.length < (skipped ++ taken ++ left).length := by
  have hconsumed : 0 < (skipped ++ taken).length :=
    List.length_pos_iff.mpr (hcuts.progress htoken)
  rw [List.length_append]
  omega

/-! ## All calls -/

/-- The calls make `entries`, none of which ends the input, and then `last`, which does.  There are
no more entries than characters, and all characters are consumed for one entry after the other. -/
structure Drainage (scanner : Scanner γ κ) (characters : List Char) (size : Nat)
    (entries : List Entry) (last : Entry) (rest : Scanner γ κ) : Prop where
  scans : scanner.ScansTo (entries ++ [last]) rest
  reaches : TokenStream.ReachesEnd scanner (entries.map Entry.token) last.token rest
  count : entries.length ≤ characters.length
  characters : (entries ++ [last]).flatMap Entry.characters = characters
  text : last.token.text = ""
  offset : last.token.position.offset = UInt64.ofNat size

namespace Drainage

variable {before skipped taken left : List Item} {token : Token}

theorem ends (hcuts : scanner.Cuts shows before skipped taken left token after)
    (hend : token.isEnd = true) :
    scanner.Drainage ((skipped ++ taken ++ left).map Item.character)
      (Item.totalWidth (before ++ (skipped ++ taken ++ left))) []
      ⟨skipped.map Item.character, token⟩ after := by
  obtain ⟨rfl, rfl⟩ := hcuts.isEnd.mp hend
  have htext : token.text = "" := hcuts.text
  refine ⟨.cons hcuts.scans .nil, .ends hcuts.scans.next hend, Nat.zero_le _, ?_, htext, ?_⟩
  · simp [Entry.characters, htext]
  · rw [List.append_nil, List.append_nil]
    exact hcuts.offset

theorem goesOn {entries : List Entry} {last : Entry}
    (hcuts : scanner.Cuts shows before skipped taken left token after)
    (htoken : token.isEnd = false)
    (hrest : after.Drainage (left.map Item.character)
      (Item.totalWidth (before ++ (skipped ++ taken) ++ left)) entries last rest) :
    scanner.Drainage ((skipped ++ taken ++ left).map Item.character)
      (Item.totalWidth (before ++ (skipped ++ taken ++ left)))
      (⟨skipped.map Item.character, token⟩ :: entries) last rest := by
  refine ⟨.cons hcuts.scans hrest.scans, .token hcuts.scans.next htoken hrest.reaches, ?_, ?_,
    hrest.text, ?_⟩
  · rw [List.length_map, List.length_cons]
    calc entries.length + 1
      _ ≤ left.length + 1 := by simpa using hrest.count
      _ ≤ (skipped ++ taken ++ left).length := hcuts.length_lt htoken
  · rw [List.cons_append, List.flatMap_cons, hrest.characters, Entry.characters, hcuts.text,
      Item.text, String.toList_ofList, List.map_append, List.map_append]
  · rw [hrest.offset, List.append_assoc]

end Drainage

theorem WellBehaved.drainage {before ahead : List Item} (hview : Cursor.View shows none)
    (hwell : scanner.WellBehaved) (hended : scanner.ended = none)
    (hpassed : scanner.tracker.Passed shows before [] ahead) :
    ∃ entries last rest, scanner.Drainage (ahead.map Item.character)
      (Item.totalWidth (before ++ ahead)) entries last rest := by
  -- The items ahead are the measure: a call that does not end the input leaves fewer of them.
  induction hlength : ahead.length using Nat.strongRecOn generalizing scanner before ahead with
  | _ length ih =>
      have hruns := hwell 0 [] scanner rfl hended
      obtain ⟨skipped, taken, left, token, after, rfl, hcuts⟩ := hruns.cuts hview hended hpassed
      cases htoken : token.isEnd with
      | true => exact ⟨[], _, after, .ends hcuts htoken⟩
      | false =>
          have hless : left.length < length := by
            rw [← hlength]
            exact hcuts.length_lt htoken
          obtain ⟨entries, last, rest, hrest⟩ :=
            ih left.length hless (hwell.behind hcuts.scans.next) (hcuts.ended htoken)
              hcuts.tracker rfl
          exact ⟨_, last, rest, hrest.goesOn hcuts htoken⟩

/-- Asked once more often than there are characters, the scanner has made all its tokens, and the
one that ends the input. -/
def Drains (scanner : Scanner γ κ) (characters : List Char) (size : Nat) : Prop :=
  ∃ entries last rest, scanner.Drainage characters size entries last rest ∧
    TokenStream.takeThroughEnd scanner (characters.length + 1) =
      .ok (entries.map Entry.token ++ [last.token], rest)

theorem WellBehaved.drains {cursor : γ} {items : List Item} {program : Program κ} {budget : Nat}
    {filename : String} (hview : Cursor.View shows none) (hshows : shows cursor "" items)
    (hwell : (ofCursor cursor program budget filename).WellBehaved) :
    (ofCursor cursor program budget filename).Drains (items.map Item.character)
      (Item.totalWidth items) := by
  have hpassed : (Tracker.ofCursor cursor).Passed shows [] [] items := ⟨hshows, rfl, rfl⟩
  obtain ⟨entries, last, rest, hdrainage⟩ := hwell.drainage hview rfl hpassed
  refine ⟨entries, last, rest, hdrainage, ?_⟩
  have hcount := hdrainage.count
  exact hdrainage.reaches.takeThroughEndFrom (by rw [List.length_map]; omega) []

/-- **Well-behaved programs drain their input.**  Let every run that a scanner comes to make return
the kind that ends the input exactly if it stops at the end of the input with nothing consumed since
its last mark, and consume a character otherwise.  Over a text, over the bytes of a reader and over
any other source that does not fail, the scanner then makes no more tokens than there are characters
before it ends, at the offset behind all of them.  What it consumes up to the mark of each token and
behind it is the input, character by character. -/
theorem drains_of_wellBehaved (program : Program κ) (budget : Nat) (filename : String) :
    (∀ text : String,
      (ofCursor (TextCursor.ofText text) program budget filename).WellBehaved →
      (ofCursor (TextCursor.ofText text) program budget filename).Drains text.toList
        text.utf8ByteSize) ∧
    (∀ {reader : Reader} {bytes : List UInt8}, reader.Delivers bytes →
      (ofCursor (SourceCursor.ofSource (⟨reader⟩ : Decoder)) program budget filename).WellBehaved →
      (ofCursor (SourceCursor.ofSource (⟨reader⟩ : Decoder)) program budget filename).Drains
        ((CharSource.contents (⟨reader⟩ : Decoder)).items.map Item.character) bytes.length) ∧
    ∀ {ρ : Type} [CharSource ρ] (source : ρ), (CharSource.contents source).failure? = none →
      (ofCursor (SourceCursor.ofSource source) program budget filename).WellBehaved →
      (ofCursor (SourceCursor.ofSource source) program budget filename).Drains
        ((CharSource.contents source).items.map Item.character)
        (Item.totalWidth (CharSource.contents source).items) := by
  have hsource : ∀ {ρ : Type} [CharSource ρ] (source : ρ),
      (CharSource.contents source).failure? = none →
      (ofCursor (SourceCursor.ofSource source) program budget filename).WellBehaved →
      (ofCursor (SourceCursor.ofSource source) program budget filename).Drains
        ((CharSource.contents source).items.map Item.character)
        (Item.totalWidth (CharSource.contents source).items) := by
    intro ρ _ source hfailure hwell
    have hgives := CharSource.gives_contents source
    rw [hfailure] at hgives
    exact hwell.drains SourceCursor.view (SourceCursor.shows_ofSource hgives)
  refine ⟨?_, ?_, hsource⟩
  · intro text hwell
    have hdrains := hwell.drains TextCursor.view (TextCursor.shows_ofText text)
    rw [Item.totalWidth_ofChar, String.ofList_toList, List.map_map] at hdrains
    have hcharacters : text.toList.map (Item.character ∘ Item.ofChar) = text.toList :=
      List.map_id text.toList
    rwa [hcharacters] at hdrains
  · intro reader bytes hdelivers hwell
    have hcontents := Decoder.contents_eq hdelivers
    have hdrains := hsource (⟨reader⟩ : Decoder) (by rw [hcontents]) hwell
    have hsize :
        Item.totalWidth (CharSource.contents (⟨reader⟩ : Decoder)).items = bytes.length := by
      rw [hcontents]
      exact (Item.partition_sequences bytes).totalWidth_eq
    rwa [hsize] at hdrains

/-! ## Words between blanks -/

theorem wellBehaved_of_ended {position : Position} (hended : scanner.ended = some position) :
    scanner.WellBehaved := by
  intro count tokens last htake hrunning
  have hendedAt : TokenStream.EndedAt position scanner := next_ended hended
  rw [hendedAt.take] at htake
  cases htake
  rw [hended] at hrunning
  cases hrunning

theorem RunsWell.wellBehaved {token : Token} (hruns : scanner.RunsWell)
    (hnext : scanner.next = .ok (token, after)) (hafter : after.WellBehaved) :
    scanner.WellBehaved := by
  intro count tokens last htake hrunning
  cases count with
  | zero =>
      cases htake
      exact hruns
  | succ count =>
      rw [TokenStream.take_succ_of_next hnext] at htake
      obtain ⟨⟨later, behind⟩, hlater, hresult⟩ := exists_of_map_eq_ok htake
      cases hresult
      exact hafter count later last hlater hrunning

end Scanner

namespace Blanks

/-- A blank, an accented letter that comes in two parts, and a blank. -/
def reader : Reader :=
  [.data [0x20, 0xC3], .interruption, .data [0xA9, 0x20]]

def scanner : Scanner (SourceCursor Decoder) Words.Point :=
  .ofCursor (.ofSource ⟨reader⟩) Words.program 20 "name"

theorem delivers : reader.Delivers [0x20, 0xC3, 0xA9, 0x20] :=
  .data _ (.interruption (.data _ .nothing))

theorem contents_reader :
    CharSource.contents (⟨reader⟩ : Decoder) = ⟨[⟨' ', 1⟩, ⟨'é', 2⟩, ⟨' ', 1⟩], none⟩ :=
  CharSource.Gives.contents_eq (.item rfl (.item rfl (.item rfl (.finish rfl))))

theorem wellBehaved : scanner.WellBehaved := by
  have hword : scanner.RunsWell :=
    ⟨⟨1⟩, .skip, _, [' '], ['é'], rfl, .advance (.mark (.advance .start rfl)) rfl, by decide,
      by decide⟩
  refine hword.wellBehaved rfl
    (Scanner.RunsWell.wellBehaved ?_ rfl (Scanner.wellBehaved_of_ended rfl))
  exact ⟨.endOfInput, .skip, _, [' '], [], rfl, .mark (.advance .start rfl), by decide, by decide⟩

end Blanks

theorem Scanner.drains_of_wellBehaved_blanks :
    Blanks.reader.Delivers [0x20, 0xC3, 0xA9, 0x20] ∧ Blanks.scanner.WellBehaved ∧
      Blanks.scanner.Drains [' ', 'é', ' '] 4 := by
  have hdrains :=
    (drains_of_wellBehaved Words.program 20 "name").2.1 Blanks.delivers Blanks.wellBehaved
  rw [Blanks.contents_reader] at hdrains
  exact ⟨Blanks.delivers, Blanks.wellBehaved, hdrains⟩

end Scan

end FrontEnd
