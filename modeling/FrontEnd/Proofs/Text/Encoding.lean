import FrontEnd.Text.Utf8

/-!
# The encoding of a character

The encoding of a character is a lead byte that calls for as many bytes as there are, followed by
continuation bytes only; and it decodes to the character again.
-/

namespace FrontEnd.Utf8

/-! ## Bytes by their value -/

theorem sequenceLength_eq (lead : UInt8) :
    sequenceLength lead =
      if lead.toNat ≤ 0x7F then 1
      else if 0xC2 ≤ lead.toNat ∧ lead.toNat ≤ 0xDF then 2
      else if 0xE0 ≤ lead.toNat ∧ lead.toNat ≤ 0xEF then 3
      else if 0xF0 ≤ lead.toNat ∧ lead.toNat ≤ 0xF4 then 4
      else 0 := by
  simp only [sequenceLength, UInt8.le_iff_toNat_le]
  rfl

theorem isContinuation_ofNat {value : Nat} (hvalue : value < 0x40) :
    isContinuation (UInt8.ofNat (value + 0x80)) = true := by
  simp only [isContinuation, UInt8.le_iff_toNat_le, UInt8.toNat_ofNat', UInt8.reduceToNat,
    Bool.and_eq_true, decide_eq_true_eq]
  omega

/-! ## The bytes of one character -/

private theorem toNat_val_lt (character : Char) : character.val.toNat < 0x110000 := by
  rcases character.valid with hlow | ⟨-, hhigh⟩
  · exact Nat.lt_trans hlow (by decide)
  · exact hhigh

/-- The lead byte of a character announces the continuation bytes behind it. -/
theorem utf8EncodeChar_eq_cons (character : Char) :
    ∃ lead tail, String.utf8EncodeChar character = lead :: tail ∧
      sequenceLength lead = tail.length + 1 ∧ ∀ byte ∈ tail, isContinuation byte = true := by
  have hlast := toNat_val_lt character
  have hpayload : ∀ value, isContinuation (UInt8.ofNat (value % 0x40 + 0x80)) = true :=
    fun value => isContinuation_ofNat (Nat.mod_lt value (by decide))
  fun_cases String.utf8EncodeChar character with
  | case1 value hone =>
      refine ⟨_, _, rfl, ?_, by simp⟩
      rw [sequenceLength_eq, UInt8.toNat_ofNat', if_pos (by omega)]
      rfl
  | case2 value hone htwo =>
      refine ⟨_, _, rfl, ?_, by simp [hpayload, -UInt8.ofNat_add]⟩
      rw [sequenceLength_eq, UInt8.toNat_ofNat', if_neg (by omega), if_pos (by omega)]
      rfl
  | case3 value hone htwo hthree =>
      refine ⟨_, _, rfl, ?_, by simp [hpayload, -UInt8.ofNat_add]⟩
      rw [sequenceLength_eq, UInt8.toNat_ofNat', if_neg (by omega), if_neg (by omega),
        if_pos (by omega)]
      rfl
  | case4 value hone htwo hthree =>
      refine ⟨_, _, rfl, ?_, by simp [hpayload, -UInt8.ofNat_add]⟩
      rw [sequenceLength_eq, UInt8.toNat_ofNat', if_neg (by omega), if_neg (by omega),
        if_neg (by omega), if_pos (by omega)]
      rfl

theorem charOfBytes?_utf8EncodeChar (character : Char) :
    charOfBytes? (String.utf8EncodeChar character) = some character := by
  have hdecode := ByteArray.utf8DecodeChar?_utf8EncodeChar_append (b := .empty) (c := character)
  rwa [ByteArray.append_empty] at hdecode

end FrontEnd.Utf8
