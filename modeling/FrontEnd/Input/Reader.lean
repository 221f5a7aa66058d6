import FrontEnd.Input.CharSource

/-!
# Buffered byte readers

A byte reader is what it will deliver, in order: stretches of data, pauses, interruptions and
failures.  It is asked for the byte in front and told separately to take it.  A pause looks like
the end of the input to the one request that meets it; an interruption is never seen, because the
request is made again.
-/

namespace FrontEnd

/-- What a byte reader delivers. -/
inductive Delivery
  /-- Bytes, possibly none. -/
  | data (bytes : List UInt8)
  /-- The end of the input, for one request. -/
  | pause
  /-- A request that has to be repeated. -/
  | interruption
  /-- A request that fails. -/
  | failure (message : String)

/-- A byte reader, as the deliveries that it still has to make. -/
abbrev Reader := List Delivery

namespace Reader

/-- The byte in front, `none` at a pause or at the end, or the failure that comes first.  Used-up
data and interruptions are passed over; a pause or failure is over once it was reported. -/
def peekByte : Reader → Except ReadFailure (Option UInt8) × Reader
  | [] => (.ok none, [])
  | .data [] :: rest => peekByte rest
  | .data (byte :: bytes) :: rest => (.ok (some byte), .data (byte :: bytes) :: rest)
  | .pause :: rest => (.ok none, rest)
  | .interruption :: rest => peekByte rest
  | .failure message :: rest => (.error ⟨message⟩, rest)

/-- The reader without the byte in front. -/
def dropByte : Reader → Reader
  | .data (_ :: bytes) :: rest => .data bytes :: rest
  | reader => reader

/-- All data that a reader holds, whatever comes between. -/
def bytes : Reader → List UInt8
  | [] => []
  | .data delivered :: rest => delivered ++ bytes rest
  | .pause :: rest => bytes rest
  | .interruption :: rest => bytes rest
  | .failure _ :: rest => bytes rest

/-- Reads to the next end or failure: the data that came, and the failure that stopped it. -/
def drain : Reader → List UInt8 × Option ReadFailure
  | [] => ([], none)
  | .data delivered :: rest =>
    let (bytes, failure) := drain rest
    (delivered ++ bytes, failure)
  | .pause :: _ => ([], none)
  | .interruption :: rest => drain rest
  | .failure message :: _ => ([], some ⟨message⟩)

/-- Asking for the byte in front takes no data. -/
theorem bytes_peekByte (reader : Reader) : bytes (peekByte reader).2 = bytes reader := by
  fun_induction peekByte reader <;> simp_all [bytes]

/-- The byte in front is the first byte of the data. -/
theorem bytes_eq_of_peekByte {reader : Reader} {byte : UInt8}
    (hpeek : (peekByte reader).1 = .ok (some byte)) :
    bytes reader = byte :: bytes (dropByte (peekByte reader).2) := by
  fun_induction peekByte reader with
  | case1 => simp at hpeek
  | case2 rest ih => simpa [bytes] using ih hpeek
  | case3 front delivered rest =>
      simp only [Except.ok.injEq, Option.some.injEq] at hpeek
      simp [bytes, dropByte, hpeek]
  | case4 => simp at hpeek
  | case5 rest ih => simpa [bytes] using ih hpeek
  | case6 => simp at hpeek

end Reader

end FrontEnd
