import FrontEnd.Input.Decoder
import FrontEnd.Proofs.Input.Contents
import FrontEnd.Proofs.Text.Encoding

/-!
# Decoding a text

A reader delivers some bytes if it hands out exactly these, in stretches of any length and with any
number of interruptions in between, and then ends.  The decoder of a reader that delivers the
encoding of a text gives the characters of the text, each as wide as its encoding: the cuts may
well fall inside a character.
-/

namespace FrontEnd

/-- The reader hands out exactly these bytes and then ends. -/
inductive Reader.Delivers : Reader → List UInt8 → Prop
  | nothing : Delivers [] []
  | data (stretch : List UInt8) {rest : Reader} {bytes : List UInt8} (hrest : Delivers rest bytes) :
    Delivers (.data stretch :: rest) (stretch ++ bytes)
  | interruption {rest : Reader} {bytes : List UInt8} (hrest : Delivers rest bytes) :
    Delivers (.interruption :: rest) bytes

namespace Reader.Delivers

variable {reader : Reader} {bytes : List UInt8}

/-! ## One byte -/

theorem peekByte_nil (hdelivers : Delivers reader bytes) (hnil : bytes = []) :
    Reader.peekByte reader = (.ok none, []) := by
  induction hdelivers with
  | nothing => rfl
  | data stretch hrest ih =>
      obtain ⟨rfl, hbytes⟩ := List.append_eq_nil_iff.mp hnil
      exact ih hbytes
  | interruption hrest ih => exact ih hnil

theorem peekByte_cons {byte : UInt8} {following : List UInt8} (hdelivers : Delivers reader bytes)
    (hcons : bytes = byte :: following) :
    ∃ rest, Reader.peekByte reader = (.ok (some byte), rest) ∧
      Delivers (Reader.dropByte rest) following := by
  induction hdelivers with
  | nothing => cases hcons
  | data stretch hrest ih =>
      cases stretch with
      | nil => exact ih hcons
      | cons front stretch =>
          obtain ⟨rfl, rfl⟩ := List.cons.inj hcons
          exact ⟨_, rfl, .data stretch hrest⟩
  | interruption hrest ih => exact ih hcons

/-! ## One character -/

/-- Continuation bytes are taken one by one, wherever the stretches end. -/
theorem readSequence {tail following : List UInt8}
    (htail : ∀ byte ∈ tail, Utf8.isContinuation byte = true)
    (hdelivers : Delivers reader (tail ++ following)) (taken : List UInt8) :
    ∃ rest, Decoder.readSequence tail.length taken reader =
        (.ok ⟨(Utf8.charOfBytes? (taken.reverse ++ tail)).getD Utf8.replacement,
          taken.length + tail.length⟩, rest) ∧
      Delivers rest following := by
  induction tail generalizing reader taken with
  | nil =>
      refine ⟨reader, ?_, hdelivers⟩
      simp [Decoder.readSequence]
  | cons byte tail ih =>
      obtain ⟨hbyte, htail⟩ := List.forall_mem_cons.mp htail
      -- The byte in front may come from a later stretch than the bytes taken so far.
      obtain ⟨front, hpeek, hdrop⟩ := hdelivers.peekByte_cons rfl
      obtain ⟨rest, hread, hrest⟩ := ih htail hdrop (byte :: taken)
      refine ⟨rest, ?_, hrest⟩
      rw [List.length_cons, Decoder.readSequence, hpeek]
      simp only [hbyte, if_true, hread, List.reverse_cons, List.append_assoc, List.length_cons,
        List.singleton_append]
      rw [Nat.add_right_comm, Nat.add_assoc]

/-- The decoder gives the character whose encoding comes first, and takes no byte behind it. -/
theorem readItem {character : Char} {following : List UInt8}
    (hdelivers : Delivers reader (String.utf8EncodeChar character ++ following)) :
    ∃ rest, Decoder.readItem reader = (.ok (some (.ofChar character)), rest) ∧
      Delivers rest following := by
  obtain ⟨lead, tail, hencode, hlength, htail⟩ := Utf8.utf8EncodeChar_eq_cons character
  rw [hencode] at hdelivers
  obtain ⟨front, hpeek, hdrop⟩ := hdelivers.peekByte_cons rfl
  obtain ⟨rest, hread, hrest⟩ := hdrop.readSequence htail [lead]
  refine ⟨rest, ?_, hrest⟩
  have hwidth : tail.length + 1 = character.utf8Size := by
    rw [← String.length_utf8EncodeChar, hencode, List.length_cons]
  have hdecoded : Utf8.charOfBytes? (lead :: tail) = some character := by
    rw [← hencode]
    exact Utf8.charOfBytes?_utf8EncodeChar character
  simp only [Decoder.readItem, hpeek, hlength, hread, Except.map, List.reverse_singleton,
    List.singleton_append, hdecoded, Option.getD_some, List.length_singleton]
  rw [Nat.add_comm, hwidth, Item.ofChar]

theorem readItem_nil (hdelivers : Delivers reader []) : Decoder.readItem reader = (.ok none, []) := by
  rw [Decoder.readItem, hdelivers.peekByte_nil rfl]

end Reader.Delivers

/-! ## A whole text -/

/-- The decoder of a reader that delivers a text gives the characters of that text. -/
theorem Decoder.gives_of_delivers {characters : List Char} {reader : Reader}
    (hdelivers : reader.Delivers (characters.flatMap String.utf8EncodeChar)) :
    CharSource.Gives (⟨reader⟩ : Decoder) (characters.map Item.ofChar) none := by
  induction characters generalizing reader with
  | nil =>
      have hread : CharSource.read (⟨reader⟩ : Decoder) = (.ok none, ⟨[]⟩) := by
        simp only [CharSource.read, hdelivers.readItem_nil]
      exact .finish hread
  | cons character characters ih =>
      rw [List.flatMap_cons] at hdelivers
      obtain ⟨rest, hitem, hrest⟩ := hdelivers.readItem
      have hread : CharSource.read (⟨reader⟩ : Decoder) =
          (.ok (some (.ofChar character)), ⟨rest⟩) := by
        simp only [CharSource.read, hitem]
      exact .item hread (ih hrest)

end FrontEnd
