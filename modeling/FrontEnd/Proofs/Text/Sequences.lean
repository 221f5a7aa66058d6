import FrontEnd.Proofs.Text.WellFormed

/-!
# The sequences that bytes fall into

Any bytes, however malformed, fall into sequences from left to right: a byte, and the continuation
bytes that follow it at once, no more of them than it calls for.  A sequence may turn out to be
complete or broken off, and a byte that can begin none stands alone.

A sequence ends in front of any byte that is no continuation byte.  Behind such a cut, the bytes in
front of it have no say in how the others are taken (`sequences_append`).  And only the encoding of
a character decodes to a character (`IsSequence.charOfBytes?_eq_some_iff`).
-/

namespace FrontEnd.Utf8

/-- The continuation bytes that are read behind a byte. -/
def continuations (lead : UInt8) (following : List UInt8) : List UInt8 :=
  (following.takeWhile isContinuation).take (sequenceLength lead - 1)

/-- The sequences that bytes fall into. -/
def sequences : List UInt8 → List (List UInt8)
  | [] => []
  | lead :: following =>
    (lead :: continuations lead following) ::
      sequences (following.drop (continuations lead following).length)
termination_by bytes => bytes.length
decreasing_by
  simp only [List.length_drop, List.length_cons]
  omega

/-- A byte, and continuation bytes behind it, no more than it calls for. -/
inductive IsSequence : List UInt8 → Prop
  | intro {lead : UInt8} {tail : List UInt8} (hlength : tail.length ≤ sequenceLength lead - 1)
      (htail : ∀ byte ∈ tail, isContinuation byte = true) : IsSequence (lead :: tail)

/-! ## The continuation bytes behind a byte -/

theorem continuations_append_drop (lead : UInt8) (following : List UInt8) :
    continuations lead following ++ following.drop (continuations lead following).length =
      following := by
  apply List.prefix_iff_eq_append.mp
  exact (List.take_prefix _ _).trans (List.takeWhile_prefix isContinuation)

theorem isContinuation_of_mem_continuations {lead byte : UInt8} {following : List UInt8}
    (hmem : byte ∈ continuations lead following) : isContinuation byte = true :=
  List.all_eq_true.mp List.all_takeWhile byte (List.mem_of_mem_take hmem)

theorem isSequence_continuations (lead : UInt8) (following : List UInt8) :
    IsSequence (lead :: continuations lead following) :=
  .intro (List.length_take_le _ _) fun _ => isContinuation_of_mem_continuations

/-! ## Cuts in front of a new sequence -/

/-- The continuation bytes behind a byte end where a new sequence starts. -/
theorem continuations_append {back : List UInt8}
    (hstart : ∀ byte ∈ back.head?, isContinuation byte = false) (lead : UInt8)
    (following : List UInt8) :
    continuations lead (following ++ back) = continuations lead following := by
  have hback : back.takeWhile isContinuation = [] := by
    cases back with
    | nil => rfl
    | cons byte back => rw [List.takeWhile_cons, hstart byte rfl]; rfl
  unfold continuations
  rw [List.takeWhile_append, hback, List.append_nil]
  split
  · rename_i hwhole
    rw [(List.takeWhile_prefix isContinuation).eq_of_length hwhole]
  · rfl

/-- If a byte is followed by fewer continuation bytes than it calls for, the next byte is none. -/
theorem head?_drop_continuations {lead : UInt8} {following : List UInt8}
    (hbroken : (continuations lead following).length < sequenceLength lead - 1) :
    ∀ byte ∈ (following.drop (continuations lead following).length).head?,
      isContinuation byte = false := by
  have hall : continuations lead following = following.takeWhile isContinuation := by
    apply List.take_of_length_le
    unfold continuations at hbroken
    rw [List.length_take] at hbroken
    omega
  have hdrop : following.drop (continuations lead following).length =
      following.dropWhile isContinuation := by
    have hboth := continuations_append_drop lead following
    rw [hall] at hboth ⊢
    exact List.append_cancel_left (hboth.trans List.takeWhile_append_dropWhile.symm)
  intro byte hbyte
  have hnot := List.head?_dropWhile_not isContinuation following
  rw [hdrop, Option.mem_def] at hbyte
  rw [hbyte] at hnot
  exact hnot

/-- Bytes that do not go on with a sequence fall into the same sequences behind any others. -/
theorem sequences_append {back : List UInt8}
    (hstart : ∀ byte ∈ back.head?, isContinuation byte = false) (front : List UInt8) :
    sequences (front ++ back) = sequences front ++ sequences back := by
  fun_induction sequences front with
  | case1 => rfl
  | case2 lead following ih =>
      have hle : (continuations lead following).length ≤ following.length := by
        have hlength := congrArg List.length (continuations_append_drop lead following)
        rw [List.length_append] at hlength
        omega
      rw [List.cons_append, sequences, continuations_append hstart,
        List.drop_append_of_le_length hle, ih, List.cons_append]

/-! ## The characters of sequences -/

theorem sequenceLength_le (lead : UInt8) : sequenceLength lead ≤ 4 := by
  unfold sequenceLength
  repeat' split
  all_goals omega

/-- A continuation byte begins no sequence. -/
theorem isContinuation_eq_false_of_pos {lead : UInt8} (hpos : 0 < sequenceLength lead) :
    isContinuation lead = false := by
  rw [sequenceLength_eq] at hpos
  rw [Bool.eq_false_iff, ne_eq, isContinuation_iff]
  rintro ⟨hlow, hhigh⟩
  rw [if_neg (by omega), if_neg (by omega), if_neg (by omega), if_neg (by omega)] at hpos
  omega

theorem charOfBytes?_eq_some_iff {bytes : List UInt8} {character : Char} :
    charOfBytes? bytes = some character ↔ String.utf8EncodeChar character <+: bytes := by
  constructor
  · intro hdecode
    obtain ⟨rest, hrest⟩ := ByteArray.exists_of_utf8DecodeChar?_eq_some hdecode
    refine ⟨rest.data.toList, ?_⟩
    have hdata := congrArg (fun array => array.data.toList) hrest
    simpa using hdata.symm
  · rintro ⟨rest, rfl⟩
    rw [charOfBytes?, List.toByteArray_append]
    exact ByteArray.utf8DecodeChar?_utf8EncodeChar_append

namespace IsSequence

variable {sequence : List UInt8}

theorem length (hsequence : IsSequence sequence) : 1 ≤ sequence.length ∧ sequence.length ≤ 4 := by
  cases hsequence with
  | @intro lead tail hlength htail =>
      have hle := sequenceLength_le lead
      rw [List.length_cons]
      omega

/-- A sequence decodes to a character exactly if it is the encoding of that character. -/
theorem charOfBytes?_eq_some_iff (hsequence : IsSequence sequence) {character : Char} :
    charOfBytes? sequence = some character ↔ sequence = String.utf8EncodeChar character := by
  rw [Utf8.charOfBytes?_eq_some_iff]
  constructor
  · intro hbegins
    obtain ⟨lead, tail, hencode, hannounced, -⟩ := utf8EncodeChar_eq_cons character
    cases hsequence with
    | @intro lead' tail' hlength htail =>
        rw [hencode] at hbegins ⊢
        -- The encoding has all bytes that its lead byte calls for, and the sequence has no more.
        obtain ⟨rfl, -⟩ := List.cons_prefix_cons.mp hbegins
        apply (hbegins.eq_of_length_le _).symm
        rw [List.length_cons, List.length_cons]
        omega
  · rintro rfl
    exact List.prefix_refl _

/-- A sequence that is not complete decodes to no character. -/
theorem charOfBytes?_eq_none {lead : UInt8} {tail : List UInt8}
    (hsequence : IsSequence (lead :: tail)) (hbroken : tail.length + 1 ≠ sequenceLength lead) :
    charOfBytes? (lead :: tail) = none := by
  rw [Option.eq_none_iff_forall_ne_some]
  intro character hdecode
  obtain ⟨lead', tail', hencode, hlength, -⟩ := utf8EncodeChar_eq_cons character
  rw [hsequence.charOfBytes?_eq_some_iff, hencode] at hdecode
  obtain ⟨rfl, rfl⟩ := List.cons.inj hdecode
  exact hbroken hlength.symm

end IsSequence

end FrontEnd.Utf8
