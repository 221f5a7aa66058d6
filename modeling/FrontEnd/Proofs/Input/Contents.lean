import FrontEnd.Input.Script

/-!
# What a source has to give

Up to its first end or failure a source gives a list of items, and nothing behind that is ever
asked for.  `CharSource.Gives` says so of a list of items and of the failure that comes behind
them, if one does.  `CharSource.contents` finds the two by reading on, and every source gives its
contents.  `CharSource.readings` reads a number of times, ends and failures or not.
-/

namespace FrontEnd

/-- A character as wide as its encoding. -/
def Item.ofChar (character : Char) : Item :=
  ⟨character, character.utf8Size⟩

/-- The items that a source gives, and the failure behind them unless it comes to an end. -/
structure Contents where
  items : List Item
  failure? : Option ReadFailure

namespace CharSource

/-- The source gives exactly these items, and then fails or comes to an end. -/
inductive Gives {ρ : Type} [CharStream ρ] : ρ → List Item → Option ReadFailure → Prop
  | finish {source rest : ρ} (hread : CharSource.read source = (.ok none, rest)) :
    Gives source [] none
  | fail {source rest : ρ} {failure : ReadFailure}
    (hread : CharSource.read source = (.error failure, rest)) : Gives source [] (some failure)
  | item {source rest : ρ} {item : Item} {items : List Item} {failure? : Option ReadFailure}
    (hread : CharSource.read source = (.ok (some item), rest)) (hrest : Gives rest items failure?) :
    Gives source (item :: items) failure?

variable {ρ : Type} [CharSource ρ]

/-- Reads a source up to its first end or failure. -/
def contents (source : ρ) : Contents :=
  match hread : (CharSource.read source).1 with
  | .ok none => ⟨[], none⟩
  | .error failure => ⟨[], some failure⟩
  | .ok (some item) =>
    have := CharSource.remaining_read_lt source item hread
    let following := contents (CharSource.read source).2
    ⟨item :: following.items, following.failure?⟩
termination_by CharSource.remaining source

theorem gives_contents (source : ρ) :
    Gives source (contents source).items (contents source).failure? := by
  fun_induction contents source with
  | case1 source hread => exact .finish (Prod.ext hread rfl)
  | case2 source failure hread => exact .fail (Prod.ext hread rfl)
  | case3 source item hread _ following ih => exact .item (Prod.ext hread rfl) ih

/-- A source gives one list of items only. -/
theorem Gives.unique {source : ρ} {items items' : List Item} {failure? failure?' : Option ReadFailure}
    (hgives : Gives source items failure?) (hgives' : Gives source items' failure?') :
    items = items' ∧ failure? = failure?' := by
  induction hgives generalizing items' with
  | finish hread => cases hgives' <;> simp_all
  | fail hread => cases hgives' <;> simp_all
  | item hread hrest ih =>
      cases hgives' with
      | finish hread' => simp_all
      | fail hread' => simp_all
      | item hread' hrest' =>
          rw [hread] at hread'
          cases hread'
          obtain ⟨rfl, rfl⟩ := ih hrest'
          exact ⟨rfl, rfl⟩

theorem Gives.contents_eq {source : ρ} {items : List Item} {failure? : Option ReadFailure}
    (hgives : Gives source items failure?) : contents source = ⟨items, failure?⟩ := by
  obtain ⟨hitems, hfailure⟩ := (gives_contents source).unique hgives
  rw [← hitems, ← hfailure]

section Stream

variable {σ : Type} [CharStream σ]

/-- What the next `calls` reads yield, and the source behind them. -/
def readings : (calls : Nat) → σ → List Reading × σ
  | 0, source => ([], source)
  | calls + 1, source =>
    let (reading, source) := CharStream.read source
    let (later, source) := readings calls source
    (reading :: later, source)

theorem readings_succ_of_read {source rest : σ} {reading : Reading}
    (hread : CharStream.read source = (reading, rest)) (calls : Nat) :
    readings (calls + 1) source =
      (reading :: (readings calls rest).1, (readings calls rest).2) := by
  rw [readings, hread]

end Stream

end CharSource

/-- A script that begins with some items gives these first. -/
theorem Script.gives_append (items : List Item) {readings : List Reading}
    {failure? : Option ReadFailure} (hrest : CharSource.Gives (⟨readings⟩ : Script) [] failure?) :
    CharSource.Gives (⟨items.map (fun item => .ok (some item)) ++ readings⟩ : Script) items
      failure? := by
  induction items with
  | nil => exact hrest
  | cons item items ih => exact .item rfl ih

end FrontEnd
