import FrontEnd.Proofs.Input.Exactness

/-!
# The bytes that reading takes

A reader mixes data with pauses, interruptions and failures in any order, and each of these may come
in the middle of a character.  This module says which bytes a decoder takes from such a reader, call
by call: `Decoder.Removes` has a case for each way in which a call can end.

The order of what a reader delivers is kept throughout.  `Reader.Passes` follows a reader over bytes
and interruptions to what comes next, so a call that ends at a pause or a failure ends at the first
one that it met.
-/

namespace FrontEnd

/-! ## Passing over bytes -/

namespace Reader

/-- `Passes reader taken rest`: in front of `rest` the reader has the bytes `taken`, and nothing else
but interruptions and used-up data. -/
inductive Passes : Reader → List UInt8 → Reader → Prop
  | nothing (reader : Reader) : Passes reader [] reader
  | spent {following rest : Reader} {taken : List UInt8} (hrest : Passes following taken rest) :
      Passes (.data [] :: following) taken rest
  | interruption {following rest : Reader} {taken : List UInt8}
      (hrest : Passes following taken rest) : Passes (.interruption :: following) taken rest
  | byte {byte : UInt8} {stretch taken : List UInt8} {following rest : Reader}
      (hrest : Passes (.data stretch :: following) taken rest) :
      Passes (.data (byte :: stretch) :: following) (byte :: taken) rest

namespace Passes

variable {reader middle rest : Reader} {taken later : List UInt8}

theorem trans (hfirst : Passes reader taken middle) (hsecond : Passes middle later rest) :
    Passes reader (taken ++ later) rest := by
  induction hfirst with
  | nothing => exact hsecond
  | spent _ ih => exact .spent (ih hsecond)
  | interruption _ ih => exact .interruption (ih hsecond)
  | byte _ ih => exact .byte (ih hsecond)

/-- Of the data, the bytes taken are missing, and these are the first ones. -/
theorem bytes_eq (hpasses : Passes reader taken rest) :
    Reader.bytes reader = taken ++ Reader.bytes rest := by
  induction hpasses with
  | nothing => rfl
  | spent _ ih => exact ih
  | interruption _ ih => exact ih
  | byte _ ih => exact congrArg _ ih

end Passes

/-- What a request for the byte in front finds, and the reader that it leaves. -/
inductive Peeks (reader : Reader) : Except ReadFailure (Option UInt8) → Reader → Prop
  | byte {byte : UInt8} {stretch : List UInt8} {following : Reader}
      (hpasses : Passes reader [] (.data (byte :: stretch) :: following)) :
      Peeks reader (.ok (some byte)) (.data (byte :: stretch) :: following)
  | finish (hpasses : Passes reader [] []) : Peeks reader (.ok none) []
  | pause {rest : Reader} (hpasses : Passes reader [] (.pause :: rest)) :
      Peeks reader (.ok none) rest
  | failure {message : String} {rest : Reader}
      (hpasses : Passes reader [] (.failure message :: rest)) :
      Peeks reader (.error ⟨message⟩) rest

theorem Peeks.after {reader middle rest : Reader} {answer : Except ReadFailure (Option UInt8)}
    (hpasses : Passes reader [] middle) (hpeeks : Peeks middle answer rest) :
    Peeks reader answer rest := by
  cases hpeeks with
  | byte hlater => exact .byte (hpasses.trans hlater)
  | finish hlater => exact .finish (hpasses.trans hlater)
  | pause hlater => exact .pause (hpasses.trans hlater)
  | failure hlater => exact .failure (hpasses.trans hlater)

theorem peeks_peekByte (reader : Reader) : Peeks reader (peekByte reader).1 (peekByte reader).2 := by
  fun_induction peekByte reader with
  | case1 => exact .finish (.nothing _)
  | case2 following ih => exact ih.after (.spent (.nothing _))
  | case3 byte stretch following => exact .byte (.nothing _)
  | case4 following => exact .pause (.nothing _)
  | case5 following ih => exact ih.after (.interruption (.nothing _))
  | case6 message following => exact .failure (.nothing _)

end Reader

/-! ## One call -/

/-- The beginning of a sequence: nothing, or a lead byte and continuation bytes, fewer than the lead
byte calls for. -/
inductive Utf8.Begun : List UInt8 → Prop
  | nothing : Begun []
  | lead {lead : UInt8} {tail : List UInt8} (hlength : tail.length + 1 < sequenceLength lead)
      (htail : ∀ byte ∈ tail, isContinuation byte = true) : Begun (lead :: tail)

theorem Utf8.Begun.length_le {taken : List UInt8} (hbegun : Utf8.Begun taken) :
    taken.length ≤ 3 := by
  cases hbegun with
  | nothing => exact Nat.zero_le 3
  | @lead lead tail hlength htail =>
      have hle := Utf8.sequenceLength_le lead
      rw [List.length_cons]
      omega

namespace Decoder

/-- What comes of reading `missing` continuation bytes behind those `taken`, the last one in front:
`tail` are the bytes that are read. -/
inductive TakesTail (missing : Nat) (taken : List UInt8) (reader : Reader) :
    Except ReadFailure Item → List UInt8 → Reader → Prop
  | complete {tail : List UInt8} {rest : Reader} (hlength : tail.length = missing)
      (htail : ∀ byte ∈ tail, Utf8.isContinuation byte = true) (hpasses : reader.Passes tail rest) :
      TakesTail missing taken reader (.ok (.ofSequence (taken.reverse ++ tail))) tail rest
  | broken {tail : List UInt8} {rest : Reader} (hlength : tail.length < missing)
      (htail : ∀ byte ∈ tail, Utf8.isContinuation byte = true)
      (hpasses : reader.Passes tail rest ∨ reader.Passes tail (.pause :: rest)) :
      TakesTail missing taken reader (.ok ⟨Utf8.replacement, taken.length + tail.length⟩) tail rest
  | failed {tail : List UInt8} {message : String} {rest : Reader} (hlength : tail.length < missing)
      (htail : ∀ byte ∈ tail, Utf8.isContinuation byte = true)
      (hpasses : reader.Passes tail (.failure message :: rest)) :
      TakesTail missing taken reader (.error ⟨message⟩) tail rest

/-- A continuation byte in front of those that are read behind it. -/
theorem TakesTail.cons {missing : Nat} {taken tail : List UInt8} {byte : UInt8}
    {reader middle rest : Reader} {outcome : Except ReadFailure Item}
    (hbyte : Utf8.isContinuation byte = true) (hpasses : reader.Passes [byte] middle)
    (htakes : TakesTail missing (byte :: taken) middle outcome tail rest) :
    TakesTail (missing + 1) taken reader outcome (byte :: tail) rest := by
  cases htakes with
  | complete hlength htail hlater =>
      rw [List.reverse_cons, List.append_assoc]
      exact .complete (congrArg (· + 1) hlength) (List.forall_mem_cons.mpr ⟨hbyte, htail⟩)
        (hpasses.trans hlater)
  | broken hlength htail hlater =>
      rw [List.length_cons, Nat.add_right_comm, Nat.add_assoc]
      exact .broken (Nat.succ_lt_succ hlength) (List.forall_mem_cons.mpr ⟨hbyte, htail⟩)
        (hlater.imp hpasses.trans hpasses.trans)
  | failed hlength htail hlater =>
      exact .failed (Nat.succ_lt_succ hlength) (List.forall_mem_cons.mpr ⟨hbyte, htail⟩)
        (hpasses.trans hlater)

theorem takesTail_readSequence (missing : Nat) (taken : List UInt8) (reader : Reader) :
    ∃ tail, TakesTail missing taken reader (readSequence missing taken reader).1 tail
      (readSequence missing taken reader).2 := by
  induction missing generalizing taken reader with
  | zero =>
      have hnone : TakesTail 0 taken reader (.ok (.ofSequence (taken.reverse ++ []))) [] reader :=
        .complete rfl nofun (.nothing reader)
      refine ⟨[], ?_⟩
      simpa [readSequence, Item.ofSequence] using hnone
  | succ missing ih =>
      have hpeeks := reader.peeks_peekByte
      rw [readSequence]
      generalize Reader.peekByte reader = peeked at hpeeks
      obtain ⟨answer, middle⟩ := peeked
      have hpos : ([] : List UInt8).length < missing + 1 := Nat.succ_pos missing
      cases hpeeks with
      | @byte byte stretch following hpasses =>
          by_cases hbyte : Utf8.isContinuation byte = true
          · have hone : reader.Passes [byte] (.data stretch :: following) :=
              hpasses.trans (.byte (.nothing _))
            obtain ⟨tail, htail⟩ := ih (byte :: taken) (.data stretch :: following)
            refine ⟨byte :: tail, ?_⟩
            simp only [hbyte, if_true, Reader.dropByte]
            exact htail.cons hbyte hone
          · refine ⟨[], ?_⟩
            simp only [hbyte, if_false, Bool.false_eq_true]
            exact .broken hpos nofun (.inl hpasses)
      | finish hpasses => exact ⟨[], .broken hpos nofun (.inl hpasses)⟩
      | pause hpasses => exact ⟨[], .broken hpos nofun (.inr hpasses)⟩
      | failure hpasses => exact ⟨[], .failed hpos nofun hpasses⟩

/-- `Removes reader reading taken rest`: a call yields `reading` and takes the bytes `taken`, which
leaves `rest`. -/
inductive Removes (reader : Reader) : Reading → List UInt8 → Reader → Prop
  /-- A character is as wide as the bytes taken for it. -/
  | item {item : Item} {taken : List UInt8} {rest : Reader} (hitem : item.StandsFor taken)
      (hpasses : reader.Passes taken rest) : Removes reader (.ok (some item)) taken rest
  /-- The same of a sequence that a pause breaks off; the pause is over. -/
  | brokenOff {item : Item} {taken : List UInt8} {rest : Reader} (hitem : item.StandsFor taken)
      (hpasses : reader.Passes taken (.pause :: rest)) : Removes reader (.ok (some item)) taken rest
  | finish (hpasses : reader.Passes [] []) : Removes reader (.ok none) [] []
  | pause {rest : Reader} (hpasses : reader.Passes [] (.pause :: rest)) :
      Removes reader (.ok none) [] rest
  /-- A failure is the first that the call met, and the beginning of a sequence is lost to it. -/
  | failure {message : String} {taken : List UInt8} {rest : Reader} (hbegun : Utf8.Begun taken)
      (hfew : taken.length ≤ 3) (hpasses : reader.Passes taken (.failure message :: rest)) :
      Removes reader (.error ⟨message⟩) taken rest

theorem Removes.bytes_eq {reader rest : Reader} {reading : Reading} {taken : List UInt8}
    (hremoves : Removes reader reading taken rest) :
    Reader.bytes reader = taken ++ Reader.bytes rest := by
  cases hremoves with
  | item hitem hpasses => exact hpasses.bytes_eq
  | brokenOff hitem hpasses => exact hpasses.bytes_eq
  | finish hpasses => exact hpasses.bytes_eq
  | pause hpasses => exact hpasses.bytes_eq
  | failure hbegun hfew hpasses => exact hpasses.bytes_eq

/-- The bytes of a sequence are taken behind its lead byte. -/
theorem TakesTail.removes {lead : UInt8} {tail : List UInt8} {missing : Nat}
    {reader middle rest : Reader} {outcome : Except ReadFailure Item}
    (hlead : Utf8.sequenceLength lead = missing + 1) (hpasses : reader.Passes [lead] middle)
    (htakes : TakesTail missing [lead] middle outcome tail rest) :
    Removes reader (outcome.map some) (lead :: tail) rest := by
  cases htakes with
  | complete hlength htail hlater =>
      have hsequence : Utf8.IsSequence (lead :: tail) := .intro (by omega) htail
      exact .item (Item.standsFor_ofSequence hsequence) (hpasses.trans hlater)
  | broken hlength htail hlater =>
      have hsequence : Utf8.IsSequence (lead :: tail) := .intro (by omega) htail
      have hitem : Item.ofSequence (lead :: tail) =
          ⟨Utf8.replacement, [lead].length + tail.length⟩ := by
        rw [Item.ofSequence, hsequence.charOfBytes?_eq_none (by omega), List.length_singleton,
          Nat.add_comm]
        rfl
      rw [← hitem]
      have hstands := Item.standsFor_ofSequence hsequence
      rcases hlater with hlater | hlater
      · exact .item hstands (hpasses.trans hlater)
      · exact .brokenOff hstands (hpasses.trans hlater)
  | failed hlength htail hlater =>
      have hbegun : Utf8.Begun (lead :: tail) := .lead (by omega) htail
      exact .failure hbegun hbegun.length_le (hpasses.trans hlater)

theorem removes_readItem (reader : Reader) :
    ∃ taken, Removes reader (readItem reader).1 taken (readItem reader).2 := by
  have hpeeks := reader.peeks_peekByte
  rw [readItem]
  generalize Reader.peekByte reader = peeked at hpeeks
  obtain ⟨answer, middle⟩ := peeked
  cases hpeeks with
  | @byte lead stretch following hpasses =>
      have hone : reader.Passes [lead] (.data stretch :: following) :=
        hpasses.trans (.byte (.nothing _))
      cases hlead : Utf8.sequenceLength lead with
      | zero =>
          have hsequence : Utf8.IsSequence [lead] := .intro (Nat.zero_le _) (by simp)
          have hitem : Item.ofSequence [lead] = ⟨Utf8.replacement, 1⟩ := by
            rw [Item.ofSequence, hsequence.charOfBytes?_eq_none (by simp [hlead])]
            rfl
          refine ⟨[lead], ?_⟩
          simp only [hlead, Reader.dropByte]
          rw [← hitem]
          exact .item (Item.standsFor_ofSequence hsequence) hone
      | succ missing =>
          obtain ⟨tail, htail⟩ := takesTail_readSequence missing [lead] (.data stretch :: following)
          refine ⟨lead :: tail, ?_⟩
          simp only [hlead, Reader.dropByte]
          exact htail.removes hlead hone
  | finish hpasses => exact ⟨[], .finish hpasses⟩
  | pause hpasses => exact ⟨[], .pause hpasses⟩
  | failure hpasses => exact ⟨[], .failure .nothing (Nat.zero_le 3) hpasses⟩

/-! ## Any number of calls -/

/-- `Accounts reader readings taken rest`: one call after the other yields `readings` and takes the
bytes `taken`, listed call by call, which leaves `rest`. -/
inductive Accounts : Reader → List Reading → List (List UInt8) → Reader → Prop
  | nothing (reader : Reader) : Accounts reader [] [] reader
  | call {reader middle rest : Reader} {reading : Reading} {readings : List Reading}
      {taken : List UInt8} {later : List (List UInt8)} (hcall : Removes reader reading taken middle)
      (hrest : Accounts middle readings later rest) :
      Accounts reader (reading :: readings) (taken :: later) rest

theorem Accounts.bytes_eq {reader rest : Reader} {readings : List Reading}
    {taken : List (List UInt8)} (haccounts : Accounts reader readings taken rest) :
    Reader.bytes reader = taken.flatten ++ Reader.bytes rest := by
  induction haccounts with
  | nothing => rfl
  | call hcall _ ih => rw [hcall.bytes_eq, ih, List.flatten_cons, List.append_assoc]

/-- **Every byte is accounted for.**  Whatever a reader delivers, each call takes the bytes of the
character that it yields, none at an end, and at a failure those of the sequence that it had begun.
What is left are the other bytes, in their order. -/
theorem readings_account (reader : Reader) (calls : Nat) :
    ∃ readings taken rest,
      CharSource.readings calls (⟨reader⟩ : Decoder) = (readings, ⟨rest⟩) ∧
      Accounts reader readings taken rest ∧
      Reader.bytes reader = taken.flatten ++ Reader.bytes rest := by
  induction calls generalizing reader with
  | zero => exact ⟨[], [], reader, rfl, .nothing reader, rfl⟩
  | succ calls ih =>
      obtain ⟨first, hfirst⟩ := removes_readItem reader
      obtain ⟨readings, taken, rest, hreadings, haccounts, -⟩ := ih (readItem reader).2
      have hread : CharSource.read (⟨reader⟩ : Decoder) =
          ((readItem reader).1, ⟨(readItem reader).2⟩) := rfl
      have hall := Accounts.call hfirst haccounts
      refine ⟨_, _, rest, ?_, hall, hall.bytes_eq⟩
      rw [CharSource.readings_succ_of_read hread, hreadings]

/-- Two bytes are lost to the failure, and the third can begin no sequence. -/
example :
    CharSource.readings 2 (⟨[.data [0xE2], .interruption, .data [0x82], .failure "gone",
      .data [0xAC, 0x41]]⟩ : Decoder) =
    ([.error ⟨"gone"⟩, .ok (some ⟨Utf8.replacement, 1⟩)], ⟨[.data [0x41]]⟩) := rfl

end Decoder

end FrontEnd
