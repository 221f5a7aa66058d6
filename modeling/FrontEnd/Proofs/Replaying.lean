import FrontEnd.Proofs.Scan.Ending

/-!
# Recordings and what was recorded

A recording of any tokens gives those before the first one that ends an input, and then ends for
ever where that one stands, or where the last one stands if there is none.  Since a scanner ends for
ever at its end, the recording of all that a scanner returns up to its end gives the same tokens as
the scanner itself; only a text of the very end is not recorded.
-/

namespace FrontEnd

/-! ## The tokens of a stream that ends -/

namespace TokenStream

variable {τ : Type} [TokenStream τ] {stream rest : τ} {before : List Token} {last : Token}

/-- The first `count` tokens of those `given` and the ends at `position` behind them. -/
def endingWith (given : List Token) (position : Position) (count : Nat) : List Token :=
  (List.range count).map fun index => given[index]?.getD (.ending position)

theorem endingWith_cons (token : Token) (given : List Token) (position : Position) (count : Nat) :
    endingWith (token :: given) position (count + 1) =
      token :: endingWith given position count := by
  simp [endingWith, List.range_succ_eq_map, Function.comp_def]

theorem endingWith_nil (position : Position) (count : Nat) :
    endingWith [] position count = List.replicate count (.ending position) := by
  simp [endingWith, List.map_const']

/-- An end without a text is one of the ends behind it. -/
theorem endingWith_append_ending (given : List Token) (position : Position) (count : Nat) :
    endingWith (given ++ [.ending position]) position count = endingWith given position count := by
  induction given generalizing count with
  | nil =>
      cases count with
      | zero => rfl
      | succ count =>
          rw [List.nil_append, endingWith_cons, endingWith_nil, endingWith_nil,
            List.replicate_succ]
  | cons token given ih =>
      cases count with
      | zero => rfl
      | succ count => rw [List.cons_append, endingWith_cons, endingWith_cons, ih]

/-- All that a stream gives which ends for good: the tokens up to the end, and then ends. -/
theorem ReachesEnd.tokens_eq (hgood : EndsForGood τ) (hreaches : ReachesEnd stream before last rest)
    (count : Nat) :
    tokens count stream = .ok (endingWith (before ++ [last]) last.position count) := by
  induction hreaches generalizing count with
  | @ends stream rest last hnext hlast =>
      cases count with
      | zero => rfl
      | succ count =>
          rw [tokens_succ_of_next hnext, tokens, (hgood hnext hlast).take, List.nil_append,
            endingWith_cons, endingWith_nil]
          rfl
  | @token stream middle rest token last before hnext htoken _ ih =>
      cases count with
      | zero => rfl
      | succ count =>
          rw [tokens_succ_of_next hnext, ih count, List.cons_append, endingWith_cons]
          rfl

end TokenStream

/-! ## Recordings -/

namespace Recording

/-- The recorded tokens before the first one that ends an input. -/
def before (recording : Recording) : List Token :=
  recording.pending.takeWhile fun token => !token.isEnd

/-- Where the recording ends. -/
def endPosition (recording : Recording) : Position :=
  ((recording.pending.find? Token.isEnd).map Token.position).getD recording.ending

section Front

variable {token : Token} (pending : List Token) (ending : Position)

theorem before_cons_end (htoken : token.isEnd = true) : before ⟨token :: pending, ending⟩ = [] := by
  simp [before, htoken]

theorem before_cons (htoken : token.isEnd = false) :
    before ⟨token :: pending, ending⟩ = token :: before ⟨pending, ending⟩ := by
  simp [before, htoken]

theorem endPosition_cons_end (htoken : token.isEnd = true) :
    endPosition ⟨token :: pending, ending⟩ = token.position := by
  simp [endPosition, htoken]

theorem endPosition_cons (htoken : token.isEnd = false) :
    endPosition ⟨token :: pending, ending⟩ = endPosition ⟨pending, ending⟩ := by
  simp [endPosition, htoken]

end Front

theorem reachesEnd (recording : Recording) :
    TokenStream.ReachesEnd recording recording.before (.ending recording.endPosition)
      ⟨[], recording.endPosition⟩ := by
  obtain ⟨pending, ending⟩ := recording
  induction pending with
  | nil => exact .ends rfl rfl
  | cons token pending ih =>
      cases htoken : token.isEnd with
      | true =>
          rw [before_cons_end pending ending htoken, endPosition_cons_end pending ending htoken]
          exact .ends (congrArg Except.ok (next_cons_end htoken pending ending)) rfl
      | false =>
          rw [before_cons pending ending htoken, endPosition_cons pending ending htoken]
          exact .token (congrArg Except.ok (next_cons htoken pending ending)) htoken ih

theorem tokens_eq (recording : Recording) (count : Nat) :
    TokenStream.tokens count recording =
      .ok (TokenStream.endingWith recording.before recording.endPosition count) := by
  rw [recording.reachesEnd.tokens_eq endsForGood]
  exact congrArg Except.ok (TokenStream.endingWith_append_ending _ _ count)

/-- Until the end has been given, every pull takes one token off, and then none is left. -/
theorem remaining_of_take {recording behind : Recording} {count : Nat} {pulled : List Token}
    (htake : TokenStream.take count recording = .ok (pulled, behind)) :
    behind.remaining =
      if count ≤ recording.before.length then recording.remaining - count else 0 := by
  induction count generalizing recording pulled with
  | zero =>
      cases htake
      simp
  | succ count ih =>
      obtain ⟨pending, ending⟩ := recording
      cases pending with
      | nil =>
          have hended : TokenStream.EndedAt ending (⟨[], ending⟩ : Recording) := rfl
          rw [hended.take] at htake
          cases htake
          simp [remaining]
      | cons token pending =>
          cases htoken : token.isEnd with
          | true =>
              -- The end is given in place of all that is recorded behind it.
              have hended : TokenStream.EndedAt token.position (⟨[], token.position⟩ : Recording) :=
                rfl
              have hnext : TokenStream.next (⟨token :: pending, ending⟩ : Recording) =
                  .ok (.ending token.position, ⟨[], token.position⟩) :=
                congrArg Except.ok (next_cons_end htoken pending ending)
              rw [TokenStream.take_succ_of_next hnext, hended.take] at htake
              cases htake
              rw [before_cons_end pending ending htoken]
              simp [remaining]
          | false =>
              have hnext : TokenStream.next (⟨token :: pending, ending⟩ : Recording) =
                  .ok (token, ⟨pending, ending⟩) :=
                congrArg Except.ok (next_cons htoken pending ending)
              rw [TokenStream.take_succ_of_next hnext] at htake
              obtain ⟨⟨later, last⟩, hlater, hresult⟩ := exists_of_map_eq_ok htake
              cases hresult
              rw [ih hlater, before_cons pending ending htoken]
              simp [remaining]

/-- What a stream gives up to its end is recorded whole. -/
theorem before_append_last {τ : Type} [TokenStream τ] {stream rest : τ} {given : List Token}
    {last : Token} (hreaches : TokenStream.ReachesEnd stream given last rest) (ending : Position) :
    before ⟨given ++ [last], ending⟩ = given ∧
      endPosition ⟨given ++ [last], ending⟩ = last.position := by
  induction hreaches with
  | ends _ hlast => exact ⟨before_cons_end [] ending hlast, endPosition_cons_end [] ending hlast⟩
  | token _ htoken _ ih =>
      rw [List.cons_append, before_cons _ ending htoken, endPosition_cons _ ending htoken, ih.1,
        ih.2]
      exact ⟨rfl, rfl⟩

theorem endPosition_ofTokens (tokens : List Token) :
    (ofTokens tokens).endPosition =
      (((tokens.find? Token.isEnd).or tokens.getLast?).map Token.position).getD .unknown := by
  unfold endPosition ofTokens
  cases tokens.find? Token.isEnd <;> rfl

open TokenStream in
/-- **A recording gives again what it was made of.**  The recording of all that a scanner returned
up to its end agrees with the scanner on every call, except that its first end has no text.  Of any
tokens whatever, a recording gives those before the first end, and then ends: where that end stands,
or the last token if none is an end. -/
theorem replays {γ ι κ : Type} [Cursor γ ι] :
    (∀ (scanner rest : Scan.Scanner γ κ) (before : List Token) (last : Token) (limit : Nat),
      takeThroughEnd scanner limit = .ok (before ++ [last], rest) → last.isEnd = true →
      ∀ count,
        tokens count scanner = .ok (endingWith (before ++ [last]) last.position count) ∧
        tokens count (ofTokens (before ++ [last])) =
          .ok (endingWith before last.position count)) ∧
    ∀ (recorded : List Token) (count : Nat), ∃ behind : Recording,
      take count (ofTokens recorded) =
        .ok (endingWith (recorded.takeWhile (!·.isEnd))
          ((((recorded.find? Token.isEnd).or recorded.getLast?).map Token.position).getD .unknown)
          count, behind) ∧
      behind.remaining =
        if count ≤ (recorded.takeWhile (!·.isEnd)).length then recorded.length - count else 0 := by
  refine ⟨?_, ?_⟩
  · intro scanner rest before last limit htake hlast count
    have hreaches := reachesEnd_of_takeThroughEnd htake hlast
    have hrecorded : (ofTokens (before ++ [last])).before = before ∧
        (ofTokens (before ++ [last])).endPosition = last.position :=
      before_append_last hreaches _
    refine ⟨hreaches.tokens_eq Scan.Scanner.endsForGood count, ?_⟩
    rw [tokens_eq, hrecorded.1, hrecorded.2]
  · intro recorded count
    obtain ⟨⟨given, behind⟩, htake, hgiven⟩ :=
      exists_of_map_eq_ok (tokens_eq (ofTokens recorded) count)
    rw [endPosition_ofTokens] at hgiven
    subst hgiven
    exact ⟨behind, htake, remaining_of_take htake⟩

/-! ## An end with a text -/

namespace Stopped

open Scan (Rule Scanner)

/-- Every character is a token, and a full stop ends the input. -/
def rules : List Rule :=
  [.branch (.takesChar '.') [.result .endOfInput] [.advance, .result ⟨1⟩]]

def scanner : Scanner (SourceCursor Script) (List Rule) :=
  .ofCursor (.ofSource ⟨[.ok (some ⟨'a', 1⟩), .ok (some ⟨'.', 1⟩), .ok (some ⟨'b', 1⟩)]⟩)
    (Rule.program rules) 10 "name"

def letter : Token :=
  ⟨⟨1⟩, "a", ⟨⟨0, 1, 1⟩, "name"⟩⟩

def place : Position :=
  ⟨⟨1, 1, 2⟩, "name"⟩

/-- The full stop. -/
def stop : Token :=
  ⟨.endOfInput, ".", place⟩

end Stopped

open Stopped TokenStream in
theorem replays_stopped :
    tokens 4 scanner = .ok [letter, stop, .ending place, .ending place] ∧
      tokens 4 (ofTokens [letter, stop]) =
        .ok [letter, .ending place, .ending place, .ending place] ∧
      ∃ behind : Recording,
        take 2 (ofTokens [letter, stop, letter]) = .ok ([letter, .ending place], behind) ∧
          behind.remaining = 0 := by
  have htake : ∃ rest, takeThroughEnd scanner 5 = .ok ([letter] ++ [stop], rest) := ⟨_, rfl⟩
  obtain ⟨rest, htake⟩ := htake
  obtain ⟨hscan, hrecording⟩ := @replays (SourceCursor Script) Script (List Scan.Rule) _
  obtain ⟨hscanner, hreplay⟩ := hscan scanner rest [letter] stop 5 htake rfl 4
  exact ⟨hscanner, hreplay, hrecording [letter, stop, letter] 2⟩

end Recording

end FrontEnd
