import FrontEnd.Proofs.Input.Exactness

/-!
# Stretches and interruptions

A reader may hand out its bytes in stretches of any length, with interruptions anywhere, also in the
middle of a character.  A decoder does not notice: each call reads one sequence of the bytes that
are left (`Decoder.readings_of_delivers`), and what is left behind a call is handed out by a reader
of the same kind, so that the next call finds it as the first one did.
-/

namespace FrontEnd

/-- Bytes are not changed by falling into sequences. -/
theorem Utf8.flatten_sequences (bytes : List UInt8) : (Utf8.sequences bytes).flatten = bytes := by
  fun_induction Utf8.sequences bytes with
  | case1 => rfl
  | case2 lead following ih =>
      rw [List.flatten_cons, ih, List.cons_append, Utf8.continuations_append_drop]

namespace Decoder

/-- The readings that a number of calls yields: one for each sequence, and ends behind the last. -/
def readingsOf (calls : Nat) (sequences : List (List UInt8)) : List Reading :=
  (sequences.take calls).map (fun sequence => .ok (some (.ofSequence sequence))) ++
    List.replicate (calls - sequences.length) (.ok none)

theorem readingsOf_nil (calls : Nat) : readingsOf (calls + 1) [] = .ok none :: readingsOf calls [] := by
  simp [readingsOf, List.replicate_succ]

theorem readingsOf_cons (calls : Nat) (sequence : List UInt8) (sequences : List (List UInt8)) :
    readingsOf (calls + 1) (sequence :: sequences) =
      .ok (some (.ofSequence sequence)) :: readingsOf calls sequences := by
  simp [readingsOf]

/-- Each call reads a sequence, and leaves the sequences behind it to the reader. -/
theorem readings_of_delivers {bytes : List UInt8} {reader : Reader}
    (hdelivers : reader.Delivers bytes) (calls : Nat) :
    ∃ rest, CharSource.readings calls (⟨reader⟩ : Decoder) =
        (readingsOf calls (Utf8.sequences bytes), ⟨rest⟩) ∧
      rest.Delivers ((Utf8.sequences bytes).drop calls).flatten := by
  induction calls generalizing bytes reader with
  | zero =>
      refine ⟨reader, by simp [CharSource.readings, readingsOf], ?_⟩
      rw [List.drop_zero, Utf8.flatten_sequences]
      exact hdelivers
  | succ calls ih =>
      cases bytes with
      | nil =>
          have hread : CharSource.read (⟨reader⟩ : Decoder) = (.ok none, ⟨[]⟩) := by
            simp only [CharSource.read, hdelivers.readItem_nil]
          obtain ⟨rest, hlater, hrest⟩ := ih .nothing
          refine ⟨rest, ?_, by simpa [Utf8.sequences] using hrest⟩
          rw [CharSource.readings_succ_of_read hread, hlater, Utf8.sequences, readingsOf_nil]
      | cons lead following =>
          obtain ⟨middle, hitem, hmiddle⟩ := hdelivers.readItem_sequence
          have hread : CharSource.read (⟨reader⟩ : Decoder) =
              (.ok (some (.ofSequence (lead :: Utf8.continuations lead following))),
                ⟨middle⟩) := by
            simp only [CharSource.read, hitem]
          obtain ⟨rest, hlater, hrest⟩ := ih hmiddle
          refine ⟨rest, ?_, ?_⟩
          · rw [CharSource.readings_succ_of_read hread, hlater, Utf8.sequences, readingsOf_cons]
          · rw [Utf8.sequences, List.drop_succ_cons]
            exact hrest

/-- **Buffering makes no difference.**  Bytes may be handed out in one stretch.  However else they
are handed out, in stretches of any length and with interruptions in between, a decoder gives the
same contents; any number of calls yields the same readings, and leaves a reader that hands out the
same bytes. -/
theorem readings_eq_of_delivers {bytes : List UInt8} {reader other : Reader}
    (hreader : reader.Delivers bytes) (hother : other.Delivers bytes) :
    Reader.Delivers [.data bytes] bytes ∧
      CharSource.contents (⟨reader⟩ : Decoder) = CharSource.contents (⟨other⟩ : Decoder) ∧
      ∀ calls, ∃ readings left rest rest',
        CharSource.readings calls (⟨reader⟩ : Decoder) = (readings, ⟨rest⟩) ∧
        CharSource.readings calls (⟨other⟩ : Decoder) = (readings, ⟨rest'⟩) ∧
        rest.Delivers left ∧ rest'.Delivers left := by
  refine ⟨?_, ?_, ?_⟩
  · have hwhole := Reader.Delivers.data bytes .nothing
    rw [List.append_nil] at hwhole
    exact hwhole
  · rw [contents_eq hreader, contents_eq hother]
  · intro calls
    obtain ⟨rest, hreadings, hrest⟩ := readings_of_delivers hreader calls
    obtain ⟨rest', hreadings', hrest'⟩ := readings_of_delivers hother calls
    exact ⟨_, _, rest, rest', hreadings, hreadings', hrest, hrest'⟩

theorem readings_eq_of_delivers_malformed :
    Malformed.reader.Delivers Malformed.bytes ∧
      Reader.Delivers [.data Malformed.bytes] Malformed.bytes ∧
      CharSource.contents (⟨[.data Malformed.bytes]⟩ : Decoder) = ⟨Malformed.items, none⟩ := by
  have hwhole : Reader.Delivers [.data Malformed.bytes] Malformed.bytes := .data _ .nothing
  obtain ⟨-, hcontents, -⟩ := readings_eq_of_delivers Malformed.delivers hwhole
  exact ⟨Malformed.delivers, hwhole, hcontents.symm.trans Malformed.contents_reader⟩

end Decoder

end FrontEnd
