import FrontEnd.Input.Script
import FrontEnd.Proofs.Scan.Calls
import FrontEnd.Recording
import FrontEnd.Scan.Rules

/-!
# Ends are final

A stream that has given the token that ends it gives empty tokens of that kind from then on, all at
the same position, and does not change any more.  This holds of scanners and of recordings, in
whichever way the end came about.

The tokens before the end can also be asked for one by one.  The answers are then the tokens before
the end and nothing from there on, however often one asks (`TokenStream.ReachesEnd.ask`).
-/

namespace FrontEnd

/-- The token, unless it ends a stream. -/
def Token.beforeEnd? (token : Token) : Option Token :=
  if token.isEnd then none else some token

namespace TokenStream

variable {τ : Type} [TokenStream τ] {stream rest : τ} {before : List Token} {last : Token}
  {position : Position}

/-! ## Streams at their end -/

/-- Every pull ends the stream at `position`, and leaves it as it is. -/
def EndedAt (position : Position) (stream : τ) : Prop :=
  next stream = .ok (.ending position, stream)

/-- A stream that was ended by a token is at its end there. -/
def EndsForGood (τ : Type) [TokenStream τ] : Prop :=
  ∀ {stream rest : τ} {token : Token}, next stream = .ok (token, rest) → token.isEnd = true →
    EndedAt token.position rest

theorem EndedAt.take (hended : EndedAt position stream) (count : Nat) :
    take count stream = .ok (List.replicate count (.ending position), stream) := by
  induction count with
  | zero => rfl
  | succ count ih =>
      rw [take_succ_of_next hended, ih]
      rfl

theorem nextBeforeEnd?_eq (stream : τ) :
    nextBeforeEnd? stream = (next stream).map fun (token, rest) => (token.beforeEnd?, rest) := by
  unfold nextBeforeEnd?
  cases next stream <;> rfl

/-! ## The tokens before the end -/

/-- The stream gives the tokens `before`, none of which ends it, and then `last`, which does. -/
inductive ReachesEnd : τ → List Token → Token → τ → Prop
  | ends {stream rest : τ} {last : Token} (hnext : next stream = .ok (last, rest))
      (hlast : last.isEnd = true) : ReachesEnd stream [] last rest
  | token {stream middle rest : τ} {token last : Token} {before : List Token}
      (hnext : next stream = .ok (token, middle)) (htoken : token.isEnd = false)
      (hrest : ReachesEnd middle before last rest) : ReachesEnd stream (token :: before) last rest

/-- What has been pulled up to the end, or without an end. -/
theorem reachesEnd_or_of_takeThroughEndFrom {limit : Nat} {taken pulled : List Token}
    (htake : takeThroughEndFrom limit taken stream = .ok (pulled, rest)) :
    (∃ before last, pulled = taken.reverse ++ before ++ [last] ∧
        ReachesEnd stream before last rest) ∨
      ∃ others, pulled = taken.reverse ++ others ∧ ∀ token ∈ others, token.isEnd = false := by
  induction limit generalizing taken stream with
  | zero =>
      cases htake
      exact .inr ⟨[], by simp, nofun⟩
  | succ limit ih =>
      unfold takeThroughEndFrom at htake
      split at htake
      · cases htake
      · rename_i token middle hnext
        by_cases htoken : token.isEnd = true
        · rw [if_pos htoken] at htake
          cases htake
          exact .inl ⟨[], token, by simp, .ends hnext htoken⟩
        · rw [if_neg htoken] at htake
          rw [Bool.not_eq_true] at htoken
          obtain ⟨before, last, rfl, hreaches⟩ | ⟨others, rfl, hothers⟩ := ih htake
          · exact .inl ⟨token :: before, last, by simp, .token hnext htoken hreaches⟩
          · refine .inr ⟨token :: others, by simp, ?_⟩
            exact List.forall_mem_cons.mpr ⟨htoken, hothers⟩

theorem reachesEnd_of_takeThroughEnd {limit : Nat}
    (htake : takeThroughEnd stream limit = .ok (before ++ [last], rest))
    (hlast : last.isEnd = true) : ReachesEnd stream before last rest := by
  obtain ⟨before', last', hpulled, hreaches⟩ | ⟨others, hpulled, hothers⟩ :=
    reachesEnd_or_of_takeThroughEndFrom htake
  · obtain ⟨rfl, hsame⟩ := List.append_inj' hpulled rfl
    cases hsame
    exact hreaches
  · have hmem : last ∈ others := by
      rw [List.reverse_nil, List.nil_append] at hpulled
      rw [← hpulled]
      simp
    rw [hothers last hmem] at hlast
    cases hlast

/-- Asks `count` times for the next token before the end. -/
def ask : (count : Nat) → τ → Except Halt (List (Option Token) × τ)
  | 0, stream => .ok ([], stream)
  | count + 1, stream => do
    let (token?, stream) ← nextBeforeEnd? stream
    let (tokens, stream) ← ask count stream
    return (token? :: tokens, stream)

theorem ask_succ_of_next {token : Token} (hnext : next stream = .ok (token, rest)) (count : Nat) :
    ask (count + 1) stream =
      (ask count rest).map fun (tokens, after) => (token.beforeEnd? :: tokens, after) := by
  show (nextBeforeEnd? stream >>= _) = _
  rw [nextBeforeEnd?_eq, hnext]
  show (ask count rest >>= _) = _
  cases ask count rest <;> rfl

theorem EndedAt.ask (hended : EndedAt position stream) (count : Nat) :
    ask count stream = .ok (List.replicate count none, stream) := by
  induction count with
  | zero => rfl
  | succ count ih =>
      rw [ask_succ_of_next hended, ih]
      rfl

namespace ReachesEnd

theorem endedAt (hgood : EndsForGood τ) (hreaches : ReachesEnd stream before last rest) :
    EndedAt last.position rest := by
  induction hreaches with
  | ends hnext hlast => exact hgood hnext hlast
  | token _ _ _ ih => exact ih

/-- The answers are the tokens before the end, and none from there on. -/
theorem ask (hgood : EndsForGood τ) (hreaches : ReachesEnd stream before last rest) (count : Nat) :
    (ask count stream).map Prod.fst = .ok ((List.range count).map fun index => before[index]?) := by
  induction hreaches generalizing count with
  | @ends stream rest last hnext hlast =>
      cases count with
      | zero => rfl
      | succ count =>
          have hnone : last.beforeEnd? = none := if_pos hlast
          rw [ask_succ_of_next hnext, (hgood hnext hlast).ask, hnone]
          simp [Except.map, List.map_const', List.replicate_succ]
  | @token stream middle rest token last before hnext htoken _ ih =>
      cases count with
      | zero => rfl
      | succ count =>
          have hsome : token.beforeEnd? = some token := by simp [Token.beforeEnd?, htoken]
          obtain ⟨⟨answers, behind⟩, hask, hanswers⟩ := exists_of_map_eq_ok (ih count)
          rw [ask_succ_of_next hnext, hask, hsome, List.range_succ_eq_map]
          simp only [Except.map, List.map_cons, List.map_map, Function.comp_def,
            Nat.succ_eq_add_one, List.getElem?_cons_zero, List.getElem?_cons_succ]
          rw [← hanswers]

theorem takeBeforeEndFrom (hreaches : ReachesEnd stream before last rest) {limit : Nat}
    (hlimit : before.length < limit) (taken : List Token) :
    takeBeforeEndFrom limit taken stream = .ok (taken.reverse ++ before, rest) := by
  induction hreaches generalizing limit taken with
  | @ends stream rest last hnext hlast =>
      obtain ⟨limit, rfl⟩ := Nat.exists_eq_succ_of_ne_zero (Nat.ne_of_gt hlimit)
      simp [TokenStream.takeBeforeEndFrom, nextBeforeEnd?, hnext, hlast]
  | @token stream middle rest token last before hnext htoken _ ih =>
      obtain ⟨limit, rfl⟩ := Nat.exists_eq_succ_of_ne_zero (Nat.ne_of_gt (Nat.zero_lt_of_lt hlimit))
      have hrest := ih (Nat.lt_of_succ_lt_succ hlimit) (token :: taken)
      simpa [TokenStream.takeBeforeEndFrom, nextBeforeEnd?, hnext, htoken] using hrest

end ReachesEnd

theorem EndedAt.takeBeforeEnd (hended : EndedAt position stream) (limit : Nat) :
    takeBeforeEnd stream limit = .ok ([], stream) := by
  cases limit with
  | zero => rfl
  | succ limit =>
      have hreaches : ReachesEnd stream [] (.ending position) stream := .ends hended rfl
      exact hreaches.takeBeforeEndFrom (Nat.succ_pos limit) []

end TokenStream

/-! ## Recordings and scanners -/

namespace Recording

theorem next_cons_end {token : Token} (htoken : token.isEnd = true) (rest : List Token)
    (ending : Position) :
    next ⟨token :: rest, ending⟩ = (.ending token.position, ⟨[], token.position⟩) :=
  if_pos htoken

theorem next_cons {token : Token} (htoken : token.isEnd = false) (rest : List Token)
    (ending : Position) : next ⟨token :: rest, ending⟩ = (token, ⟨rest, ending⟩) := by
  simp [next, htoken]

theorem endsForGood : TokenStream.EndsForGood Recording := by
  intro recording rest token hnext hend
  replace hnext := Except.ok.inj hnext
  obtain ⟨pending, ending⟩ := recording
  cases pending with
  | nil =>
      cases hnext
      rfl
  | cons front pending =>
      cases hfront : front.isEnd with
      | true =>
          rw [next_cons_end hfront] at hnext
          cases hnext
          rfl
      | false =>
          rw [next_cons hfront] at hnext
          cases hnext
          rw [hfront] at hend
          cases hend

end Recording

namespace Scan.Scanner

variable {γ ι κ : Type} [Cursor γ ι] {scanner after : Scanner γ κ} {token : Token}

/-- A scanner has ended once it has returned a token that ends it, and as long as it has not, it has
not. -/
theorem Yields.ended_eq (hyields : scanner.Yields token after) :
    after.ended = if token.isEnd then some token.position else none := by
  cases hyields with
  | again hended => exact hended
  | failed => rfl
  | found => rfl

theorem endsForGood : TokenStream.EndsForGood (Scanner γ κ) := by
  intro scanner after token hnext hend
  have hended := (yields_of_next hnext).ended_eq
  rw [if_pos hend] at hended
  exact next_ended hended

/-- Behind a failed read the scanner ends without running its program. -/
theorem next_of_failure (hsilent : Cursor.Silent scanner.tracker.cursor)
    (hfailure : scanner.failure?.isSome) :
    scanner.next =
      .ok (.ending (scanner.ended.getD (scanner.tracker.here.inFile scanner.filename)),
        { scanner with
          ended := some (scanner.ended.getD (scanner.tracker.here.inFile scanner.filename)) }) := by
  cases hended : scanner.ended with
  | some position =>
      rw [next_ended hended]
      show Except.ok (Token.ending position, scanner) =
        .ok (.ending position, { scanner with ended := some position })
      rw [← hended]
  | none =>
      -- Nothing is seen behind a failed read, so the test for the end of the input holds as well.
      have hpeek : scanner.tracker.peek = none := hsilent hfailure
      have hfailed : (scanner.failure?.isSome && scanner.tracker.isDone) = true := by
        simp [hfailure, Tracker.isDone, hpeek]
      exact next_failed hended hfailed

end Scan.Scanner

namespace Scan

variable {γ ι κ : Type} [Cursor γ ι] [Cursor.Mode γ ι]

open TokenStream in
/-- **An end is final.**  Behind a token that ends a scanner or a recording, every pull gives an
empty one at the same position and changes nothing.  A scanner with a failed read behind it ends
without running its program: where it has ended before, or else where its lookahead is.  An
iteration gives the tokens before the end, and nothing from there on. -/
theorem end_is_final (program : Program κ) (budget : Nat) (filename : String) (input : ι) :
    (∀ (scanner rest : Scanner γ κ) (token : Token), scanner.next = .ok (token, rest) →
      rest.ended = (if token.isEnd then some token.position else none) ∧
      (token.isEnd = true → ∀ count,
        take count rest = .ok (List.replicate count (.ending token.position), rest))) ∧
    (∀ (recording rest : Recording) (token : Token), recording.next = (token, rest) →
      token.isEnd = true → ∀ count,
        take count rest = .ok (List.replicate count (.ending token.position), rest)) ∧
    (∀ (history : List (Call ι)) (replies : List (Reply × Sight)) (scanner : Scanner γ κ),
      (Scanner.ofCursor (Cursor.Mode.opened input : γ) program budget filename).calls history =
        .ok (replies, scanner) → scanner.failure?.isSome →
      scanner.next =
        .ok (.ending (scanner.ended.getD (scanner.tracker.here.inFile filename)),
          { scanner with
            ended := some (scanner.ended.getD (scanner.tracker.here.inFile filename)) })) ∧
    ∀ (scanner rest : Scanner γ κ) (before : List Token) (last : Token) (limit : Nat),
      takeThroughEnd scanner limit = .ok (before ++ [last], rest) → last.isEnd = true →
      (∀ count, (ask count scanner).map Prod.fst =
        .ok ((List.range count).map fun index => before[index]?)) ∧
      (∀ count, ask count rest = .ok (List.replicate count none, rest)) ∧
      (∀ count, before.length < count → takeBeforeEnd scanner count = .ok (before, rest)) ∧
      ∀ count, takeBeforeEnd rest count = .ok ([], rest) := by
  refine ⟨?_, ?_, ?_, ?_⟩
  · intro scanner rest token hnext
    refine ⟨(Scanner.yields_of_next hnext).ended_eq, ?_⟩
    intro hend count
    exact EndedAt.take (Scanner.endsForGood hnext hend) count
  · intro recording rest token hnext hend count
    exact EndedAt.take (Recording.endsForGood (congrArg Except.ok hnext) hend) count
  · intro history replies scanner hcalls hfailure
    have hsilent := Scanner.invariant_silent.calls (Cursor.Mode.silent_opened input) hcalls
    have hmade := (Scanner.invariant_madeWith program budget filename).calls ⟨rfl, rfl, rfl⟩ hcalls
    rw [← hmade.filename]
    exact Scanner.next_of_failure hsilent hfailure
  · intro scanner rest before last limit htake hlast
    have hreaches := reachesEnd_of_takeThroughEnd htake hlast
    have hended := hreaches.endedAt Scanner.endsForGood
    refine ⟨hreaches.ask Scanner.endsForGood, hended.ask, ?_, hended.takeBeforeEnd⟩
    intro count hcount
    exact hreaches.takeBeforeEndFrom hcount []

/-! ## A source that is cut off -/

namespace CutOff

/-- One character, and then a failed read. -/
def source : Script :=
  ⟨[.ok (some ⟨'a', 1⟩), .error ⟨"gone"⟩]⟩

def scanner (rules : List Rule) : Scanner (SourceCursor Script) (List Rule) :=
  .ofCursor (.ofSource source) (Rule.program rules) 10 "name"

/-- Every character is a token. -/
def letters : List Rule :=
  [.branch .atEnd [.result .endOfInput] [.advance, .result ⟨1⟩]]

/-- The first character ends the input. -/
def hasty : List Rule :=
  [.advance, .result .endOfInput]

def letter : Token :=
  ⟨⟨1⟩, "a", ⟨⟨0, 1, 1⟩, "name"⟩⟩

/-- The place behind the character. -/
def place : Position :=
  ⟨⟨1, 1, 2⟩, "name"⟩

/-- The scanner behind the letter. -/
def inside : Scanner (SourceCursor Script) (List Rule) where
  tracker := ⟨⟨⟨[]⟩, none, "", some ⟨"gone"⟩⟩, place.toLocation, place.toLocation⟩
  program := Rule.program letters
  control := letters
  budget := 10
  filename := "name"
  ended := none
  runs := 1

/-- The scanner behind its end. -/
def behind : Scanner (SourceCursor Script) (List Rule) :=
  { inside with ended := some place }

end CutOff

open TokenStream in
theorem end_is_final_cutOff :
    (CutOff.scanner CutOff.letters).calls [.next] =
        .ok ([(.token CutOff.letter, ⟨none, true, "", some ⟨"gone"⟩⟩)], CutOff.inside) ∧
      CutOff.inside.next = .ok (.ending CutOff.place, CutOff.behind) ∧
      (∀ count, take count CutOff.behind =
        .ok (List.replicate count (.ending CutOff.place), CutOff.behind)) ∧
      (∀ count, take count (⟨[], CutOff.place⟩ : Recording) =
        .ok (List.replicate count (.ending CutOff.place), ⟨[], CutOff.place⟩)) ∧
      ∀ count, (ask count (CutOff.scanner CutOff.letters)).map Prod.fst =
        .ok ((List.range count).map fun index => [CutOff.letter][index]?) := by
  have hcalls : (CutOff.scanner CutOff.letters).calls [.next] =
      .ok ([(.token CutOff.letter, ⟨none, true, "", some ⟨"gone"⟩⟩)], CutOff.inside) := rfl
  have htake : takeThroughEnd (CutOff.scanner CutOff.letters) 5 =
      .ok ([CutOff.letter] ++ [.ending CutOff.place], CutOff.behind) := rfl
  obtain ⟨hscanner, hrecording, hfailure, hask⟩ :=
    @end_is_final (SourceCursor Script) _ _ _ _ (Rule.program CutOff.letters) 10 "name"
      CutOff.source
  have hnext : CutOff.inside.next = .ok (.ending CutOff.place, CutOff.behind) :=
    hfailure [.next] _ CutOff.inside hcalls rfl
  exact ⟨hcalls, hnext, (hscanner _ _ _ hnext).2 rfl,
    hrecording (.ofTokens [⟨.endOfInput, "a", CutOff.place⟩, CutOff.letter]) _ _ rfl rfl,
    (hask _ _ _ _ 5 htake rfl).1⟩

/-- A scanner that has ended before the place of its lookahead keeps to its end, also behind a
failed read. -/
theorem not_ending_at_lookahead :
    ¬ ∀ (replies : List (Reply × Sight)) (scanner : Scanner (SourceCursor Script) (List Rule)),
      (CutOff.scanner CutOff.hasty).calls [.next] = .ok (replies, scanner) →
      scanner.failure?.isSome →
      scanner.next.map Prod.fst =
        .ok (.ending (scanner.tracker.here.inFile scanner.filename)) := by
  intro hclaim
  have hplace := hclaim _ _ rfl rfl
  have hended : (Token.ending ⟨⟨0, 1, 1⟩, "name"⟩) = .ending CutOff.place :=
    Except.ok.inj hplace
  exact absurd hended (by decide)

end Scan

end FrontEnd
