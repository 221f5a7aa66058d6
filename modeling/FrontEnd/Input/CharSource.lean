/-!
# Character sources

Characters are read once, front to back, one decoded character at a time.  A read may find the end
of the input or fail, and more may well be delivered afterwards.  A stream of characters can go on
for ever; a source has finitely many characters to give, which is why loops over it end.
-/

namespace FrontEnd

/-- A failed read, with what the device said about it. -/
structure ReadFailure where
  message : String
deriving DecidableEq, Inhabited

/-- The wording of a failed read. -/
def ReadFailure.text (failure : ReadFailure) : String :=
  "read failed: " ++ failure.message

/-- A decoded character together with the number of bytes that it took in its source. -/
structure Item where
  character : Char
  width : Nat
deriving DecidableEq, Inhabited

/-- What one read yields: an item, the end of the input for this read, or a failure. -/
abbrev Reading := Except ReadFailure (Option Item)

/-- A one-pass stream of characters. -/
class CharStream (ρ : Type) where
  read : ρ → Reading × ρ

/-- A stream with finitely many items to give.  `remaining` bounds those that are left. -/
class CharSource (ρ : Type) extends CharStream ρ where
  remaining : ρ → Nat
  remaining_read_le : ∀ source, remaining (read source).2 ≤ remaining source
  remaining_read_lt : ∀ source item,
    (read source).1 = .ok (some item) → remaining (read source).2 < remaining source

namespace CharSource

export CharStream (read)

end CharSource

/-- A stream that counts the reads made on it. -/
structure Counted (ρ : Type) where
  source : ρ
  reads : Nat

instance {ρ : Type} [CharStream ρ] : CharStream (Counted ρ) where
  read counted :=
    let (reading, source) := CharStream.read counted.source
    (reading, ⟨source, counted.reads + 1⟩)

instance {ρ : Type} [CharSource ρ] : CharSource (Counted ρ) where
  remaining counted := CharSource.remaining counted.source
  remaining_read_le counted := CharSource.remaining_read_le counted.source
  remaining_read_lt counted := CharSource.remaining_read_lt counted.source

end FrontEnd
