import FrontEnd.TokenStream

/-!
# Pulling tokens

`TokenStream.take` pulls a number of tokens from a stream, ends of the input included, and gives
the stream behind them.  The stream may be any, one that counts its pulls as well, so the stream
behind `count` tokens is the stream after exactly `count` pulls.
-/

namespace FrontEnd

theorem exists_of_map_eq_ok {α β : Type} {outcome : Except Halt α} {change : α → β} {result : β}
    (hmap : outcome.map change = .ok result) :
    ∃ value, outcome = .ok value ∧ change value = result := by
  cases outcome with
  | error cause => cases hmap
  | ok value => exact ⟨value, rfl, Except.ok.inj hmap⟩

theorem exists_of_bind_eq_ok {α β : Type} {outcome : Except Halt α} {goOn : α → Except Halt β}
    {result : β} (hbind : outcome >>= goOn = .ok result) :
    ∃ value, outcome = .ok value ∧ goOn value = .ok result := by
  cases outcome with
  | error cause => cases hbind
  | ok value => exact ⟨value, rfl, hbind⟩

theorem eq_of_map_cons_eq {α : Type} {head : α} {outcome outcome' : Except Halt (List α)}
    (hmap : outcome.map (head :: ·) = outcome'.map (head :: ·)) : outcome = outcome' := by
  cases outcome <;> cases outcome' <;> cases hmap <;> rfl

namespace TokenStream

variable {τ : Type} [TokenStream τ]

/-- The next `count` tokens, and the stream behind them. -/
def take : (count : Nat) → τ → Except Halt (List Token × τ)
  | 0, stream => .ok ([], stream)
  | count + 1, stream => do
    let (token, stream) ← next stream
    let (tokens, stream) ← take count stream
    return (token :: tokens, stream)

theorem take_succ_of_next {stream rest : τ} {token : Token}
    (hnext : next stream = .ok (token, rest)) (count : Nat) :
    take (count + 1) stream =
      (take count rest).map fun (tokens, after) => (token :: tokens, after) := by
  show (next stream >>= _) = _
  rw [hnext]
  show (take count rest >>= _) = _
  cases take count rest <;> rfl

/-- The tokens that the next `count` pulls give. -/
def tokens (count : Nat) (stream : τ) : Except Halt (List Token) :=
  (take count stream).map Prod.fst

theorem tokens_succ_of_next {stream rest : τ} {token : Token}
    (hnext : next stream = .ok (token, rest)) (count : Nat) :
    tokens (count + 1) stream = (tokens count rest).map (token :: ·) := by
  rw [tokens, take_succ_of_next hnext, tokens]
  cases take count rest <;> rfl

theorem tokens_succ_of_error {stream : τ} {cause : Halt} (hnext : next stream = .error cause)
    (count : Nat) : tokens (count + 1) stream = .error cause := by
  show Except.map Prod.fst (next stream >>= _) = _
  rw [hnext]
  rfl

theorem next_of_tokens_succ {stream : τ} {count : Nat} {given : List Token}
    (htokens : tokens (count + 1) stream = .ok given) :
    ∃ token rest later, next stream = .ok (token, rest) ∧ tokens count rest = .ok later ∧
      given = token :: later := by
  cases hnext : next stream with
  | error cause => rw [tokens_succ_of_error hnext] at htokens; cases htokens
  | ok pulled =>
      rw [tokens_succ_of_next hnext] at htokens
      obtain ⟨later, hlater, rfl⟩ := exists_of_map_eq_ok htokens
      exact ⟨pulled.1, pulled.2, later, rfl, hlater, rfl⟩

end TokenStream

end FrontEnd
