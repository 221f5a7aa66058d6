import FrontEnd.Proofs.Input.Decoding
import FrontEnd.Proofs.Text.Sequences

/-!
# Decoding any bytes

A decoder reads bytes, well formed or not, one sequence at a time: its items are those of the
sequences that the bytes fall into (`Decoder.gives_sequences`), wherever the stretches of its reader
end.  Two facts about sequences are therefore facts about decoders.  Nothing is lost or made up:
each item covers its own bytes, and has a character other than the replacement only if these bytes
are the encoding of that character.  And a byte that is no continuation byte begins a new item,
whatever the bytes before it are.
-/

namespace FrontEnd

/-- The item that a sequence is read as; a sequence without a character is replaced. -/
def Item.ofSequence (sequence : List UInt8) : Item :=
  ⟨(Utf8.charOfBytes? sequence).getD Utf8.replacement, sequence.length⟩

/-! ## One sequence -/

namespace Reader.Delivers

variable {reader : Reader} {bytes : List UInt8}

/-- Looking at the byte in front takes nothing. -/
theorem behind_peekByte (hdelivers : Delivers reader bytes) :
    Delivers (Reader.peekByte reader).2 bytes := by
  induction hdelivers with
  | nothing => exact .nothing
  | data stretch hrest ih =>
      cases stretch with
      | nil => exact ih
      | cons front stretch => exact .data (front :: stretch) hrest
  | interruption hrest ih => exact ih

/-- A sequence that breaks off is replaced, and the byte that it breaks off at is not taken. -/
theorem readSequence_broken {tail following : List UInt8} {missing : Nat}
    (htail : ∀ byte ∈ tail, Utf8.isContinuation byte = true) (hmissing : tail.length < missing)
    (hstart : ∀ byte ∈ following.head?, Utf8.isContinuation byte = false)
    (hdelivers : Delivers reader (tail ++ following)) (taken : List UInt8) :
    ∃ rest, Decoder.readSequence missing taken reader =
        (.ok ⟨Utf8.replacement, taken.length + tail.length⟩, rest) ∧
      Delivers rest following := by
  induction tail generalizing reader taken missing with
  | nil =>
      obtain ⟨missing, rfl⟩ := Nat.exists_eq_add_one_of_ne_zero (Nat.ne_of_gt hmissing)
      have hbehind := hdelivers.behind_peekByte
      cases following with
      | nil =>
          refine ⟨[], ?_, .nothing⟩
          rw [Decoder.readSequence, hdelivers.peekByte_nil rfl]
          rfl
      | cons byte following =>
          obtain ⟨front, hpeek, -⟩ := hdelivers.peekByte_cons rfl
          rw [hpeek] at hbehind
          refine ⟨front, ?_, hbehind⟩
          simp only [Decoder.readSequence, hpeek, hstart byte rfl, Bool.false_eq_true, if_false,
            List.length_nil, Nat.add_zero]
  | cons byte tail ih =>
      obtain ⟨missing, rfl⟩ := Nat.exists_eq_add_one_of_ne_zero (Nat.ne_zero_of_lt hmissing)
      obtain ⟨hbyte, htail⟩ := List.forall_mem_cons.mp htail
      obtain ⟨front, hpeek, hdrop⟩ := hdelivers.peekByte_cons rfl
      obtain ⟨rest, hread, hrest⟩ :=
        ih htail (Nat.lt_of_succ_lt_succ hmissing) hdrop (byte :: taken)
      refine ⟨rest, ?_, hrest⟩
      rw [Decoder.readSequence, hpeek]
      simp only [hbyte, if_true, hread, List.length_cons]
      rw [Nat.add_right_comm, Nat.add_assoc]

/-- The decoder reads the sequence in front, and takes no byte behind it. -/
theorem readItem_sequence {lead : UInt8} {following : List UInt8}
    (hdelivers : Delivers reader (lead :: following)) :
    ∃ rest, Decoder.readItem reader =
        (.ok (some (.ofSequence (lead :: Utf8.continuations lead following))), rest) ∧
      Delivers rest (following.drop (Utf8.continuations lead following).length) := by
  obtain ⟨front, hpeek, hdrop⟩ := hdelivers.peekByte_cons rfl
  have hsequence := Utf8.isSequence_continuations lead following
  have hbroken := @Utf8.head?_drop_continuations lead following
  rw [← Utf8.continuations_append_drop lead following] at hdrop
  generalize Utf8.continuations lead following = tail at *
  simp only [Decoder.readItem, hpeek]
  cases hsequence with
  | intro hle htail =>
      by_cases hcomplete : tail.length + 1 = Utf8.sequenceLength lead
      · obtain ⟨rest, hread, hrest⟩ := hdrop.readSequence htail [lead]
        refine ⟨rest, ?_, hrest⟩
        simp only [← hcomplete, hread, Except.map, Item.ofSequence, List.reverse_singleton,
          List.singleton_append, List.length_cons, List.length_nil, Nat.zero_add]
        rw [Nat.add_comm]
      · have hnone := Utf8.IsSequence.charOfBytes?_eq_none (.intro hle htail) hcomplete
        simp only [Item.ofSequence, hnone, Option.getD_none, List.length_cons]
        cases hlength : Utf8.sequenceLength lead with
        | zero =>
            rw [hlength] at hle
            obtain rfl := List.length_eq_zero_iff.mp (Nat.le_zero.mp hle)
            exact ⟨_, rfl, hdrop⟩
        | succ missing =>
            rw [hlength] at hle hbroken hcomplete
            have hmissing : tail.length < missing := by omega
            obtain ⟨rest, hread, hrest⟩ :=
              hdrop.readSequence_broken htail hmissing (hbroken (by omega)) [lead]
            refine ⟨rest, ?_, hrest⟩
            simp only [hread, Except.map, List.length_singleton]
            rw [Nat.add_comm]

end Reader.Delivers

/-! ## All bytes -/

/-- The decoder of a reader that delivers some bytes gives the items of their sequences. -/
theorem Decoder.gives_sequences {bytes : List UInt8} {reader : Reader}
    (hdelivers : reader.Delivers bytes) :
    CharSource.Gives (⟨reader⟩ : Decoder) ((Utf8.sequences bytes).map .ofSequence) none := by
  fun_induction Utf8.sequences bytes generalizing reader with
  | case1 =>
      have hread : CharSource.read (⟨reader⟩ : Decoder) = (.ok none, ⟨[]⟩) := by
        simp only [CharSource.read, hdelivers.readItem_nil]
      exact .finish hread
  | case2 lead following ih =>
      obtain ⟨rest, hitem, hrest⟩ := hdelivers.readItem_sequence
      have hread : CharSource.read (⟨reader⟩ : Decoder) =
          (.ok (some (.ofSequence (lead :: Utf8.continuations lead following))), ⟨rest⟩) := by
        simp only [CharSource.read, hitem]
      exact .item hread (ih hrest)

theorem Decoder.contents_eq {bytes : List UInt8} {reader : Reader}
    (hdelivers : reader.Delivers bytes) :
    CharSource.contents (⟨reader⟩ : Decoder) = ⟨(Utf8.sequences bytes).map .ofSequence, none⟩ :=
  (Decoder.gives_sequences hdelivers).contents_eq

/-- The sequences of a text are the encodings of its characters. -/
theorem Item.ofSequence_text (characters : List Char) :
    (Utf8.sequences (characters.flatMap String.utf8EncodeChar)).map .ofSequence =
      characters.map Item.ofChar := by
  have hdelivers : Reader.Delivers [.data (characters.flatMap String.utf8EncodeChar)]
      (characters.flatMap String.utf8EncodeChar ++ []) := .data _ .nothing
  rw [List.append_nil] at hdelivers
  -- A decoder of the text gives both lists, and no source gives two.
  have hgives := Decoder.gives_of_delivers hdelivers
  exact ((Decoder.gives_sequences hdelivers).unique hgives).1

/-! ## Nothing is lost or made up -/

/-- The item covers the bytes of a sequence, and has its character or the replacement for it. -/
structure Item.StandsFor (item : Item) (sequence : List UInt8) : Prop where
  width : item.width = sequence.length
  one_le_width : 1 ≤ item.width
  width_le_four : item.width ≤ 4
  character : sequence = String.utf8EncodeChar item.character ∨
    item.character = Utf8.replacement ∧ ¬ Utf8.WellFormed sequence

/-- The items cover the bytes from left to right, without a gap. -/
inductive Item.Partition : List Item → List UInt8 → Prop
  | nil : Partition [] []
  | cons {item : Item} {items : List Item} {sequence rest : List UInt8}
      (hitem : item.StandsFor sequence) (hrest : Partition items rest) :
      Partition (item :: items) (sequence ++ rest)

theorem Item.standsFor_ofSequence {sequence : List UInt8} (hsequence : Utf8.IsSequence sequence) :
    (Item.ofSequence sequence).StandsFor sequence := by
  refine ⟨rfl, hsequence.length.1, hsequence.length.2, ?_⟩
  cases hdecode : Utf8.charOfBytes? sequence with
  | some character =>
      left
      simp only [ofSequence, hdecode, Option.getD_some]
      exact hsequence.charOfBytes?_eq_some_iff.mp hdecode
  | none =>
      right
      refine ⟨by simp only [ofSequence, hdecode, Option.getD_none], ?_⟩
      intro hwellFormed
      obtain ⟨character, rfl⟩ := Utf8.wellFormed_iff.mp hwellFormed
      rw [Utf8.charOfBytes?_utf8EncodeChar] at hdecode
      cases hdecode

theorem Item.partition_sequences (bytes : List UInt8) :
    Item.Partition ((Utf8.sequences bytes).map .ofSequence) bytes := by
  fun_induction Utf8.sequences bytes with
  | case1 => exact .nil
  | case2 lead following ih =>
      have hfirst := Item.standsFor_ofSequence (Utf8.isSequence_continuations lead following)
      have hwhole := Item.Partition.cons hfirst ih
      rw [List.cons_append, Utf8.continuations_append_drop] at hwhole
      exact hwhole

/-- **Decoding is exact.**  Whatever bytes a reader delivers, the items cover them from left to
right, each as wide as the one to four bytes that it stands for.  An item has the character that
these bytes encode, and the replacement character if they encode none.  The characters, encoded
again, are the bytes exactly if the bytes are valid; then the items are the characters of the
text. -/
theorem Decoder.contents_exact {bytes : List UInt8} {reader : Reader}
    (hdelivers : reader.Delivers bytes) :
    ∃ items, CharSource.contents (⟨reader⟩ : Decoder) = ⟨items, none⟩ ∧
      Item.Partition items bytes ∧
      (items.flatMap (fun item => String.utf8EncodeChar item.character) = bytes ↔
        Utf8.Valid bytes) ∧
      ∀ characters : List Char, characters.flatMap String.utf8EncodeChar = bytes →
        items = characters.map Item.ofChar := by
  have htext : ∀ characters : List Char, characters.flatMap String.utf8EncodeChar = bytes →
      (Utf8.sequences bytes).map .ofSequence = characters.map Item.ofChar := by
    rintro characters rfl
    exact Item.ofSequence_text characters
  refine ⟨_, Decoder.contents_eq hdelivers, Item.partition_sequences bytes, ?_, htext⟩
  rw [Utf8.valid_iff]
  constructor
  · intro hsame
    refine ⟨((Utf8.sequences bytes).map Item.ofSequence).map Item.character, ?_⟩
    rw [List.flatMap_map]
    exact hsame
  · rintro ⟨characters, hencode⟩
    rw [htext characters hencode, List.flatMap_map]
    exact hencode

namespace Malformed

/-- A euro sign, then an overlong form, a surrogate, a number above the last code point, a
continuation byte alone and a lead byte alone. -/
def bytes : List UInt8 :=
  [0xE2, 0x82, 0xAC, 0xE0, 0x80, 0x80, 0xED, 0xA0, 0x80, 0xF4, 0x90, 0x80, 0x80, 0x80, 0xC3]

/-- The bytes in two stretches, cut in the middle of the euro sign. -/
def reader : Reader :=
  [.data (bytes.take 2), .interruption, .data (bytes.drop 2)]

def items : List Item :=
  [⟨'€', 3⟩, ⟨Utf8.replacement, 3⟩, ⟨Utf8.replacement, 3⟩, ⟨Utf8.replacement, 4⟩,
    ⟨Utf8.replacement, 1⟩, ⟨Utf8.replacement, 1⟩]

theorem delivers : reader.Delivers bytes :=
  .data _ (.interruption (.data _ .nothing))

theorem contents_reader : CharSource.contents (⟨reader⟩ : Decoder) = ⟨items, none⟩ :=
  CharSource.Gives.contents_eq
    (.item rfl (.item rfl (.item rfl (.item rfl (.item rfl (.item rfl (.finish rfl)))))))

end Malformed

theorem Decoder.contents_exact_malformed :
    CharSource.contents (⟨Malformed.reader⟩ : Decoder) = ⟨Malformed.items, none⟩ ∧
      Item.Partition Malformed.items Malformed.bytes ∧ ¬ Utf8.Valid Malformed.bytes := by
  obtain ⟨items, hcontents, hpartition, hvalid, -⟩ := Decoder.contents_exact Malformed.delivers
  have hitems : Malformed.items = items := by
    have hboth := Malformed.contents_reader.symm.trans hcontents
    exact (Contents.mk.inj hboth).1
  rw [← hitems] at hpartition hvalid
  refine ⟨Malformed.contents_reader, hpartition, ?_⟩
  rw [← hvalid]
  decide

/-! ## A new sequence is a new start -/

theorem Utf8.head?_bytes (text : String) :
    ∀ byte ∈ (Utf8.bytes text).head?, Utf8.isContinuation byte = false := by
  unfold Utf8.bytes
  cases text.toList with
  | nil => nofun
  | cons character characters =>
      obtain ⟨lead, tail, hencode, hlength, -⟩ := Utf8.utf8EncodeChar_eq_cons character
      intro byte hbyte
      rw [List.flatMap_cons, hencode] at hbyte
      obtain rfl := Option.some.inj hbyte
      apply Utf8.isContinuation_eq_false_of_pos
      omega

/-- **Decoding starts afresh at every sequence.**  Bytes that are empty or begin with another byte
than a continuation byte are decoded behind any others as they are alone.  A text is therefore
decoded intact, whatever the bytes in front of it are. -/
theorem Decoder.contents_append {front : List UInt8} {first : Reader}
    (hfirst : first.Delivers front) :
    (∀ (back : List UInt8) (second whole : Reader), second.Delivers back →
      whole.Delivers (front ++ back) →
      (∀ byte ∈ back.head?, Utf8.isContinuation byte = false) →
      CharSource.contents (⟨whole⟩ : Decoder) =
        ⟨(CharSource.contents (⟨first⟩ : Decoder)).items ++
          (CharSource.contents (⟨second⟩ : Decoder)).items, none⟩) ∧
    ∀ (text : String) (whole : Reader), whole.Delivers (front ++ Utf8.bytes text) →
      CharSource.contents (⟨whole⟩ : Decoder) =
        ⟨(CharSource.contents (⟨first⟩ : Decoder)).items ++ text.toList.map .ofChar, none⟩ := by
  have hitems : ∀ (back : List UInt8) (whole : Reader), whole.Delivers (front ++ back) →
      (∀ byte ∈ back.head?, Utf8.isContinuation byte = false) →
      CharSource.contents (⟨whole⟩ : Decoder) =
        ⟨(CharSource.contents (⟨first⟩ : Decoder)).items ++
          (Utf8.sequences back).map .ofSequence, none⟩ := by
    intro back whole hwhole hstart
    rw [Decoder.contents_eq hwhole, Decoder.contents_eq hfirst, Utf8.sequences_append hstart,
      List.map_append]
  refine ⟨?_, ?_⟩
  · intro back second whole hsecond hwhole hstart
    rw [hitems back whole hwhole hstart, Decoder.contents_eq hsecond]
  · intro text whole hwhole
    rw [hitems _ whole hwhole (Utf8.head?_bytes text), Utf8.bytes, Item.ofSequence_text]

namespace Garbage

/-- The first half of a sequence of four bytes. -/
def front : List UInt8 :=
  [0xF0, 0x9F]

def first : Reader :=
  [.data front]

/-- The half sequence and a text, cut in the middle of each. -/
def beforeText : Reader :=
  [.data [0xF0], .interruption, .data [0x9F, 0xC3], .data [0xA9, 0x21]]

/-- A lead byte alone. -/
def lone : Reader :=
  [.data [0xC3]]

/-- The half sequence and a lead byte alone. -/
def beforeLone : Reader :=
  [.data [0xF0, 0x9F, 0xC3]]

theorem delivers_first : first.Delivers front :=
  .data _ .nothing

theorem delivers_beforeText : beforeText.Delivers (front ++ Utf8.bytes "é!") :=
  .data _ (.interruption (.data _ (.data _ .nothing)))

theorem contents_first :
    CharSource.contents (⟨first⟩ : Decoder) = ⟨[⟨Utf8.replacement, 2⟩], none⟩ :=
  CharSource.Gives.contents_eq (.item rfl (.finish rfl))

theorem contents_lone :
    CharSource.contents (⟨lone⟩ : Decoder) = ⟨[⟨Utf8.replacement, 1⟩], none⟩ :=
  CharSource.Gives.contents_eq (.item rfl (.finish rfl))

end Garbage

theorem Decoder.contents_append_garbage :
    CharSource.contents (⟨Garbage.beforeLone⟩ : Decoder) =
        ⟨[⟨Utf8.replacement, 2⟩, ⟨Utf8.replacement, 1⟩], none⟩ ∧
      CharSource.contents (⟨Garbage.beforeText⟩ : Decoder) =
        ⟨[⟨Utf8.replacement, 2⟩, ⟨'é', 2⟩, ⟨'!', 1⟩], none⟩ := by
  obtain ⟨hbytes, htext⟩ := Decoder.contents_append Garbage.delivers_first
  have hstart : ∀ byte ∈ ([0xC3] : List UInt8).head?, Utf8.isContinuation byte = false := by
    rintro byte ⟨⟩
    rfl
  refine ⟨?_, ?_⟩
  · rw [hbytes [0xC3] Garbage.lone Garbage.beforeLone (.data _ .nothing) (.data _ .nothing) hstart,
      Garbage.contents_first, Garbage.contents_lone]
    rfl
  · rw [htext "é!" Garbage.beforeText Garbage.delivers_beforeText, Garbage.contents_first]
    rfl

end FrontEnd
