import FrontEnd.Input.Reader
import FrontEnd.Text.Utf8

/-!
# Incremental UTF-8 decoding

A decoder turns a byte reader into a character source and never takes a byte beyond the character
that it returns.  Malformed input is not a failure: a byte that can begin no sequence is a
replacement character of width one, and a sequence that breaks off, or encodes no character, is a
replacement character as wide as the bytes taken for it.
-/

namespace FrontEnd

/-- A source of characters that decodes the bytes of a reader. -/
structure Decoder where
  reader : Reader

namespace Decoder

/-- Takes the `missing` continuation bytes of a sequence of which the bytes `taken` are read, the
last one in front.  A failure leaves these bytes taken. -/
def readSequence : (missing : Nat) → (taken : List UInt8) → Reader → Except ReadFailure Item × Reader
  | 0, taken, reader =>
    (.ok ⟨(Utf8.charOfBytes? taken.reverse).getD Utf8.replacement, taken.length⟩, reader)
  | missing + 1, taken, reader =>
    match Reader.peekByte reader with
    | (.error failure, reader) => (.error failure, reader)
    | (.ok none, reader) => (.ok ⟨Utf8.replacement, taken.length⟩, reader)
    | (.ok (some byte), reader) =>
      if Utf8.isContinuation byte then
        readSequence missing (byte :: taken) (Reader.dropByte reader)
      else
        (.ok ⟨Utf8.replacement, taken.length⟩, reader)

/-- The next character of a reader. -/
def readItem (reader : Reader) : Reading × Reader :=
  match Reader.peekByte reader with
  | (.error failure, reader) => (.error failure, reader)
  | (.ok none, reader) => (.ok none, reader)
  | (.ok (some lead), reader) =>
    match Utf8.sequenceLength lead with
    | 0 => (.ok (some ⟨Utf8.replacement, 1⟩), Reader.dropByte reader)
    | missing + 1 =>
      let (item, reader) := readSequence missing [lead] (Reader.dropByte reader)
      (item.map some, reader)

/-- A sequence never puts data back. -/
theorem length_bytes_readSequence (missing : Nat) (taken : List UInt8) (reader : Reader) :
    (Reader.bytes (readSequence missing taken reader).2).length ≤ (Reader.bytes reader).length := by
  induction missing generalizing taken reader with
  | zero => simp [readSequence]
  | succ missing ih =>
      have hpeek := Reader.bytes_peekByte reader
      have hfront := @Reader.bytes_eq_of_peekByte reader
      rw [readSequence]
      generalize Reader.peekByte reader = answer at hpeek hfront
      obtain ⟨front, rest⟩ := answer
      match front with
      | .error failure => simp_all
      | .ok none => simp_all
      | .ok (some byte) =>
          have hbytes := congrArg List.length (@hfront byte rfl)
          simp only [List.length_cons] at hbytes hpeek ⊢
          split
          · have := ih (byte :: taken) (Reader.dropByte rest)
            omega
          · simp [hpeek]

/-- Every character takes at least one byte, and no read puts data back. -/
theorem length_bytes_readItem (reader : Reader) :
    (Reader.bytes (readItem reader).2).length ≤ (Reader.bytes reader).length ∧
      ∀ item, (readItem reader).1 = .ok (some item) →
        (Reader.bytes (readItem reader).2).length < (Reader.bytes reader).length := by
  have hpeek := Reader.bytes_peekByte reader
  have hfront := @Reader.bytes_eq_of_peekByte reader
  rw [readItem]
  generalize Reader.peekByte reader = answer at hpeek hfront
  obtain ⟨front, rest⟩ := answer
  match front with
  | .error failure => simp_all
  | .ok none => simp_all
  | .ok (some lead) =>
      have hbytes := congrArg List.length (@hfront lead rfl)
      simp only [List.length_cons] at hbytes ⊢
      cases Utf8.sequenceLength lead with
      | zero => exact ⟨by dsimp only; omega, fun _ _ => by dsimp only; omega⟩
      | succ missing =>
          have := length_bytes_readSequence missing [lead] (Reader.dropByte rest)
          exact ⟨by dsimp only; omega, fun _ _ => by dsimp only; omega⟩

instance : CharSource Decoder where
  read decoder :=
    let (reading, reader) := readItem decoder.reader
    (reading, ⟨reader⟩)
  remaining decoder := (Reader.bytes decoder.reader).length
  remaining_read_le decoder := (length_bytes_readItem decoder.reader).1
  remaining_read_lt decoder := (length_bytes_readItem decoder.reader).2

/-- The decoder of a whole text, delivered at once. -/
def ofText (text : String) : Decoder :=
  ⟨[.data (Utf8.bytes text)]⟩

end Decoder

end FrontEnd
