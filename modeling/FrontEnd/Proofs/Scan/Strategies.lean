import FrontEnd.Proofs.Cursor.View
import FrontEnd.Proofs.Scan.Simulation

/-!
# Texts in memory and texts that are read

A text can be scanned where it lies, or while its bytes come in through a reader.  This module
shows that no scanning program can tell the two apart: a scanner over the text and a scanner over a
reader that delivers the text return the same tokens, in any history of tokens and of bindings to
other texts, and show the same between any two calls.

The two cursors keep their places in quite different ways, so the relation between them is that
both have the same view.
-/

namespace FrontEnd

namespace Cursor.View

variable {γ δ ι υ : Type} [Cursor γ ι] [Cursor δ υ] {shows : γ → String → List Item → Prop}
  {shows' : δ → String → List Item → Prop} {failure? failure?' : Option ReadFailure}

/-- Cursors with the same view show the same, apart from what comes behind the last item. -/
theorem similarity (hfirst : Cursor.View shows failure?) (hsecond : Cursor.View shows' failure?') :
    Cursor.Similarity fun first second =>
      ∃ span ahead, shows first span ahead ∧ shows' second span ahead where
  peek := by
    rintro first second ⟨span, ahead, hone, hother⟩
    rw [hfirst.peek hone, hsecond.peek hother]
  width := by
    rintro first second ⟨span, ahead, hone, hother⟩
    rw [hfirst.width hone, hsecond.width hother]
  lexeme := by
    rintro first second ⟨span, ahead, hone, hother⟩
    rw [hfirst.lexeme hone, hsecond.lexeme hother]
  advance := by
    rintro first second ⟨span, ahead, hone, hother⟩ hpeek
    rw [hfirst.peek hone] at hpeek
    cases ahead with
    | nil => cases hpeek
    | cons item ahead =>
        exact ⟨span.push item.character, ahead, hfirst.advance hone, hsecond.advance hother⟩
  mark := by
    rintro first second ⟨span, ahead, hone, hother⟩
    exact ⟨"", ahead, hfirst.mark hone, hsecond.mark hother⟩

theorem bisimulation (hfirst : Cursor.View shows failure?) (hsecond : Cursor.View shows' failure?) :
    Cursor.Bisimulation fun first second =>
      ∃ span ahead, shows first span ahead ∧ shows' second span ahead where
  toSimilarity := hfirst.similarity hsecond
  failure := by
    rintro first second ⟨span, ahead, hone, hother⟩
    rw [hfirst.failure hone, hsecond.failure hother]

end Cursor.View

namespace Scan

/-- A text, and a reader that delivers its bytes in any stretches, interrupted at will. -/
structure Twin where
  text : String
  reader : Reader
  delivers : reader.Delivers (Utf8.bytes text)

/-- The characters of the text, as they are decoded. -/
def Twin.decoder (input : Twin) : Decoder :=
  ⟨input.reader⟩

private def SameView (first : TextCursor) (second : SourceCursor Decoder) : Prop :=
  ∃ span ahead, first.Shows span ahead ∧ second.Shows none span ahead

private theorem bisimulation_sameView : Cursor.Bisimulation SameView :=
  TextCursor.view.bisimulation SourceCursor.view

private theorem Twin.gives (input : Twin) :
    CharSource.Gives input.decoder (input.text.toList.map Item.ofChar) none :=
  Decoder.gives_of_delivers input.delivers

private theorem Twin.sameView (input : Twin) :
    SameView (TextCursor.ofText input.text) (SourceCursor.ofSource input.decoder) :=
  ⟨"", _, TextCursor.shows_ofText input.text, SourceCursor.shows_ofSource input.gives⟩

private theorem Twin.sameView_reset (input : Twin) (first : TextCursor)
    (second : SourceCursor Decoder) :
    SameView (Cursor.reset first input.text) (Cursor.reset second input.decoder) :=
  ⟨"", _, TextCursor.shows_ofText input.text, SourceCursor.shows_reset second input.gives⟩

/-- What is seen of two scanners between two calls is the same, and neither reports a failed
read. -/
structure Scanner.Alike {γ δ ι υ κ : Type} [Cursor γ ι] [Cursor δ υ] (first : Scanner γ κ)
    (second : Scanner δ κ) : Prop where
  peek : first.tracker.peek = second.tracker.peek
  isDone : first.tracker.isDone = second.tracker.isDone
  text : first.tracker.text = second.tracker.text
  failure_first : first.failure? = none
  failure_second : second.failure? = none

/-- **Both strategies scan alike.**  In the course of any history, a scanner over a text and a
scanner over a reader that delivers the text return the same tokens, or are abandoned for the same
cause. -/
theorem agree_text_decoder {κ : Type} (program : Program κ) (budget : Nat) (filename : String)
    (input : Twin) (history : List (Command Twin)) :
    Agree Scanner.Alike
      ((Scanner.ofCursor (TextCursor.ofText input.text) program budget filename).play
        (history.map (.map Twin.text)))
      ((Scanner.ofCursor (SourceCursor.ofSource input.decoder) program budget filename).play
        (history.map (.map Twin.decoder))) := by
  have hmirrors : Scanner.Mirrors SameView
      (Scanner.ofCursor (TextCursor.ofText input.text) program budget filename)
      (Scanner.ofCursor (SourceCursor.ofSource input.decoder) program budget filename) :=
    ⟨⟨input.sameView, rfl, rfl⟩, rfl, rfl, rfl, rfl, rfl, rfl⟩
  refine (Scanner.agree_play bisimulation_sameView Twin.sameView_reset history hmirrors).imp ?_
  intro first second hfinal
  obtain ⟨span, ahead, hfirst, hsecond⟩ := hfinal.tracker.cursor
  exact
    { peek := hfinal.tracker.peek bisimulation_sameView
      isDone := hfinal.tracker.isDone bisimulation_sameView
      text := hfinal.tracker.text bisimulation_sameView
      failure_first := TextCursor.view.failure hfirst
      failure_second := SourceCursor.view.failure hsecond }

/-! ## Single characters -/

namespace Characters

inductive Point
  | look
  | take
  | found
  | stop

/-- Every character is a token. -/
def program : Program Point where
  start := .look
  request
    | .look => .peek fun next => if next.isSome then .take else .stop
    | .take => .advance .found
    | .found => .finish ⟨1⟩ .look
    | .stop => .finish .endOfInput .look

/-- Two characters, of which the second is cut in two. -/
def input : Twin where
  text := "aé"
  reader := [.data [0x61, 0xC3], .interruption, .data [0xA9]]
  delivers := .data [0x61, 0xC3] (.interruption (.data [0xA9] .nothing))

/-- The second character alone, in stretches of one byte and none. -/
def other : Twin where
  text := "é"
  reader := [.data [0xC3], .data [], .data [0xA9]]
  delivers := .data [0xC3] (.data [] (.data [0xA9] .nothing))

def history : List (Command Twin) :=
  [.next, .reset other, .next, .next]

def tokens : List Token :=
  [⟨⟨1⟩, "a", ⟨⟨0, 1, 1⟩, "name"⟩⟩, ⟨⟨1⟩, "é", ⟨⟨0, 1, 1⟩, "name"⟩⟩, .ending ⟨⟨2, 1, 2⟩, "name"⟩]

end Characters

theorem agree_text_decoder_characters :
    ((Scanner.ofCursor (TextCursor.ofText "aé") Characters.program 5 "name").play
        (Characters.history.map (.map Twin.text))).map Prod.fst = .ok Characters.tokens ∧
      Agree Scanner.Alike
        ((Scanner.ofCursor (TextCursor.ofText "aé") Characters.program 5 "name").play
          (Characters.history.map (.map Twin.text)))
        ((Scanner.ofCursor (SourceCursor.ofSource Characters.input.decoder) Characters.program 5
          "name").play (Characters.history.map (.map Twin.decoder))) :=
  ⟨rfl, agree_text_decoder Characters.program 5 "name" Characters.input Characters.history⟩

end Scan

end FrontEnd
