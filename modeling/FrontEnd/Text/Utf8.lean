/-!
# UTF-8

How many bytes a lead byte calls for, which bytes go on with a sequence, and which character a
complete sequence encodes.  Overlong forms, surrogates and numbers above the last code point
encode no character.
-/

namespace FrontEnd.Utf8

/-- The character that stands for malformed input. -/
def replacement : Char := '\uFFFD'

/-- The number of bytes in the sequence that `lead` begins, or zero if it can begin none. -/
def sequenceLength (lead : UInt8) : Nat :=
  if lead ≤ 0x7F then 1
  else if 0xC2 ≤ lead ∧ lead ≤ 0xDF then 2
  else if 0xE0 ≤ lead ∧ lead ≤ 0xEF then 3
  else if 0xF0 ≤ lead ∧ lead ≤ 0xF4 then 4
  else 0

/-- Whether a byte can only stand behind a lead byte. -/
def isContinuation (byte : UInt8) : Bool :=
  decide (0x80 ≤ byte) && decide (byte ≤ 0xBF)

/-- The character that a complete sequence encodes, if it encodes one. -/
def charOfBytes? (bytes : List UInt8) : Option Char :=
  bytes.toByteArray.utf8DecodeChar? 0

/-- The bytes of a text, character by character. -/
def bytes (text : String) : List UInt8 :=
  text.toList.flatMap String.utf8EncodeChar

/-- Whether some bytes come before others: the first place where they differ decides, and where
they do not differ the shorter ones come first. -/
def bytesPrecede : List UInt8 → List UInt8 → Bool
  | first :: firsts, second :: seconds =>
    if first ≠ second then decide (first < second) else bytesPrecede firsts seconds
  | firsts, seconds => decide (firsts.length < seconds.length)

/-- Whether `a` comes before `b` in the order of their bytes. -/
def precedes (a b : String) : Bool :=
  decide (bytes a < bytes b)

end FrontEnd.Utf8
