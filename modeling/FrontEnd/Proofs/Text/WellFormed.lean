import FrontEnd.Proofs.Text.Encoding

/-!
# Well-formed bytes

Which byte sequences stand for a character can be said of the bytes alone: the lead byte says how
many follow, each of them is a continuation byte, and behind four of the lead bytes the second byte
has a narrower range.  `WellFormed` says so, without a word about characters.  The narrower ranges
leave out the overlong forms (`E0`, `F0`), the surrogates (`ED`) and the numbers above the last code
point (`F4`).

These are the encodings of characters and nothing else (`wellFormed_iff`), so bytes are `Valid`
exactly if they are the encoding of a text (`valid_iff`).
-/

namespace FrontEnd.Utf8

/-- The byte sequences that stand for one character. -/
inductive WellFormed : List UInt8 → Prop
  | one {lead : UInt8} (hlead : lead ≤ 0x7F) : WellFormed [lead]
  | two {lead second : UInt8} (hlow : 0xC2 ≤ lead) (hhigh : lead ≤ 0xDF)
      (hsecond : isContinuation second = true) : WellFormed [lead, second]
  | three {lead second third : UInt8} (hlow : 0xE0 ≤ lead) (hhigh : lead ≤ 0xEF)
      (hsecond : isContinuation second = true) (hthird : isContinuation third = true)
      (hoverlong : lead = 0xE0 → 0xA0 ≤ second) (hsurrogate : lead = 0xED → second ≤ 0x9F) :
      WellFormed [lead, second, third]
  | four {lead second third fourth : UInt8} (hlow : 0xF0 ≤ lead) (hhigh : lead ≤ 0xF4)
      (hsecond : isContinuation second = true) (hthird : isContinuation third = true)
      (hfourth : isContinuation fourth = true)
      (hoverlong : lead = 0xF0 → 0x90 ≤ second) (hlast : lead = 0xF4 → second ≤ 0x8F) :
      WellFormed [lead, second, third, fourth]

/-- Bytes that are well-formed sequences one after the other. -/
inductive Valid : List UInt8 → Prop
  | nil : Valid []
  | cons {sequence rest : List UInt8} (hsequence : WellFormed sequence) (hrest : Valid rest) :
      Valid (sequence ++ rest)

/-! ## One character -/

theorem isContinuation_iff (byte : UInt8) :
    isContinuation byte = true ↔ 0x80 ≤ byte.toNat ∧ byte.toNat ≤ 0xBF := by
  simp only [isContinuation, UInt8.le_iff_toNat_le, UInt8.reduceToNat, Bool.and_eq_true,
    decide_eq_true_eq]

theorem wellFormed_utf8EncodeChar (character : Char) :
    WellFormed (String.utf8EncodeChar character) := by
  have hvalid : character.val.toNat < 0xD800 ∨
      0xDFFF < character.val.toNat ∧ character.val.toNat < 0x110000 := character.valid
  have hpayload : ∀ value, isContinuation (UInt8.ofNat (value % 0x40 + 0x80)) = true :=
    fun value => isContinuation_ofNat (Nat.mod_lt value (by decide))
  fun_cases String.utf8EncodeChar character with
  | case1 value hone =>
      apply WellFormed.one
      simp only [UInt8.le_iff_toNat_le, UInt8.toNat_ofNat', UInt8.reduceToNat]
      omega
  | case2 value hone htwo =>
      refine .two ?_ ?_ (hpayload value)
      all_goals
        simp only [UInt8.le_iff_toNat_le, UInt8.toNat_ofNat', UInt8.reduceToNat]
        omega
  | case3 value hone htwo hthree =>
      refine .three ?_ ?_ (hpayload (value / 64)) (hpayload value) ?_ ?_
      all_goals
        simp only [UInt8.le_iff_toNat_le, ← UInt8.toNat_inj, UInt8.toNat_ofNat', UInt8.reduceToNat]
        omega
  | case4 value hone htwo hthree =>
      refine .four ?_ ?_ (hpayload (value / 4096)) (hpayload (value / 64)) (hpayload value) ?_ ?_
      all_goals
        simp only [UInt8.le_iff_toNat_le, ← UInt8.toNat_inj, UInt8.toNat_ofNat', UInt8.reduceToNat]
        omega

private theorem exists_char (value : Nat)
    (hvalue : value < 0xD800 ∨ 0xDFFF < value ∧ value < 0x110000) :
    ∃ character : Char, character.val.toNat = value :=
  ⟨Char.ofNatAux value hvalue, rfl⟩

private theorem ofNat_eq (byte : UInt8) {value : Nat} (hvalue : value = byte.toNat) :
    UInt8.ofNat value = byte := by
  rw [hvalue, UInt8.ofNat_toNat]

/-- The code point whose digits a well-formed sequence holds is a character, with this encoding. -/
theorem WellFormed.eq_utf8EncodeChar {sequence : List UInt8} (hsequence : WellFormed sequence) :
    ∃ character, sequence = String.utf8EncodeChar character := by
  cases hsequence with
  | @one lead hlead =>
      simp only [UInt8.le_iff_toNat_le, UInt8.reduceToNat] at hlead
      obtain ⟨character, hvalue⟩ := exists_char lead.toNat (by omega)
      refine ⟨character, ?_⟩
      rw [String.utf8EncodeChar, if_pos (by omega), ofNat_eq lead hvalue]
  | @two lead second hlow hhigh hsecond =>
      simp only [UInt8.le_iff_toNat_le, UInt8.reduceToNat] at hlow hhigh
      rw [isContinuation_iff] at hsecond
      obtain ⟨character, hvalue⟩ := exists_char
        ((lead.toNat - 0xC0) * 64 + (second.toNat - 0x80)) (by omega)
      refine ⟨character, ?_⟩
      rw [String.utf8EncodeChar, if_neg (by omega), if_pos (by omega), ofNat_eq lead (by omega),
        ofNat_eq second (by omega)]
  | @three lead second third hlow hhigh hsecond hthird hoverlong hsurrogate =>
      simp only [UInt8.le_iff_toNat_le, ← UInt8.toNat_inj, UInt8.reduceToNat]
        at hlow hhigh hoverlong hsurrogate
      rw [isContinuation_iff] at hsecond hthird
      obtain ⟨character, hvalue⟩ := exists_char
        ((lead.toNat - 0xE0) * 4096 + (second.toNat - 0x80) * 64 + (third.toNat - 0x80)) (by omega)
      refine ⟨character, ?_⟩
      rw [String.utf8EncodeChar, if_neg (by omega), if_neg (by omega), if_pos (by omega),
        ofNat_eq lead (by omega), ofNat_eq second (by omega), ofNat_eq third (by omega)]
  | @four lead second third fourth hlow hhigh hsecond hthird hfourth hoverlong hlast =>
      simp only [UInt8.le_iff_toNat_le, ← UInt8.toNat_inj, UInt8.reduceToNat]
        at hlow hhigh hoverlong hlast
      rw [isContinuation_iff] at hsecond hthird hfourth
      obtain ⟨character, hvalue⟩ := exists_char
        ((lead.toNat - 0xF0) * 262144 + (second.toNat - 0x80) * 4096 + (third.toNat - 0x80) * 64 +
          (fourth.toNat - 0x80)) (by omega)
      refine ⟨character, ?_⟩
      rw [String.utf8EncodeChar, if_neg (by omega), if_neg (by omega), if_neg (by omega),
        ofNat_eq lead (by omega), ofNat_eq second (by omega), ofNat_eq third (by omega),
        ofNat_eq fourth (by omega)]

/-- The well-formed sequences are the encodings of the characters. -/
theorem wellFormed_iff {sequence : List UInt8} :
    WellFormed sequence ↔ ∃ character, sequence = String.utf8EncodeChar character := by
  constructor
  · exact WellFormed.eq_utf8EncodeChar
  · rintro ⟨character, rfl⟩
    exact wellFormed_utf8EncodeChar character

/-! ## A text -/

/-- Bytes are valid exactly if they are the encoding of some characters. -/
theorem valid_iff {bytes : List UInt8} :
    Valid bytes ↔ ∃ characters : List Char, characters.flatMap String.utf8EncodeChar = bytes := by
  constructor
  · intro hvalid
    induction hvalid with
    | nil => exact ⟨[], rfl⟩
    | cons hsequence _ ih =>
        obtain ⟨character, rfl⟩ := wellFormed_iff.mp hsequence
        obtain ⟨characters, rfl⟩ := ih
        exact ⟨character :: characters, List.flatMap_cons⟩
  · rintro ⟨characters, rfl⟩
    induction characters with
    | nil => exact .nil
    | cons character characters ih =>
        rw [List.flatMap_cons]
        exact .cons (wellFormed_utf8EncodeChar character) ih

end FrontEnd.Utf8
