import FrontEnd.Text.Keywords

/-!
# Looking up a keyword

A keyword table is checked with one comparison of bytes, searched with another, and guarded by the
lengths of its words.  This module shows that the three go together: a table is made exactly from
words that strictly increase, and looking up a text gives exactly the index at which it stands.

## Strategy

The comparison that checks a table is the lexicographic order (`Utf8.bytesPrecede_iff`).  In a table
that increases, bisection keeps to the half in which the text can be, so it finds the text if it is
between the bounds (`Keywords.search_eq_some_iff`); and no text is shorter or longer than every word
and still one of them.
-/

namespace FrontEnd

/-! ## The order of texts -/

namespace Utf8

theorem bytesPrecede_iff (first second : List UInt8) :
    bytesPrecede first second = true ↔ first < second := by
  fun_induction bytesPrecede first second with
  | case1 byte first byte' second hne =>
      rw [List.cons_lt_cons_iff, decide_eq_true_eq]
      simp [hne]
  | case2 byte first byte' second heq ih =>
      obtain rfl : byte = byte' := Decidable.of_not_not heq
      rw [ih, List.cons_lt_cons_iff]
      simp
  | case3 first second hcons =>
      rw [decide_eq_true_eq]
      match first, second with
      | [], [] => simp
      | [], _ :: _ => simp
      | _ :: _, [] => simp
      | byte :: first, byte' :: second => exact absurd rfl (hcons byte first byte' second rfl)

theorem eq_of_bytes_eq {first second : String} (hbytes : bytes first = bytes second) :
    first = second := by
  have htoByteArray : ∀ text : String, text.toByteArray = (bytes text).toByteArray := by
    intro text
    conv => lhs; rw [← String.ofList_toList (s := text), String.toByteArray_ofList]
    rfl
  rw [← String.toByteArray_inj, htoByteArray, htoByteArray, hbytes]

end Utf8

namespace Keywords

/-- The words come one before the other, in the lexicographic order of their bytes. -/
def Increasing (words : List String) : Prop :=
  words.Pairwise fun earlier later => Utf8.bytes earlier < Utf8.bytes later

theorem increasing_iff (words : List String) : increasing words = true ↔ Increasing words := by
  unfold Increasing
  fun_induction increasing words with
  | case1 => simp
  | case2 word => simp
  | case3 first second rest ih =>
      rw [Bool.and_eq_true, ih, Utf8.bytesPrecede_iff, List.pairwise_cons (a := first)]
      refine and_congr_left fun hrest => ?_
      constructor
      · intro hfirst word hword
        rcases List.mem_cons.mp hword with rfl | hword
        · exact hfirst
        · exact List.lt_trans hfirst (List.rel_of_pairwise_cons hrest hword)
      · intro hall
        exact hall second List.mem_cons_self

/-! ## Words and their indices -/

section Indices

variable {words : List String} {first second : String} {low high index index' : Nat}

theorem Increasing.bytes_lt (hwords : Increasing words) (hlt : index < index')
    (hfirst : words[index]? = some first) (hsecond : words[index']? = some second) :
    Utf8.bytes first < Utf8.bytes second := by
  obtain ⟨hindex, rfl⟩ := List.getElem?_eq_some_iff.mp hfirst
  obtain ⟨hindex', rfl⟩ := List.getElem?_eq_some_iff.mp hsecond
  exact List.pairwise_iff_getElem.mp hwords index index' hindex hindex' hlt

/-- Of two words, the one that comes before the other has the smaller index. -/
theorem Increasing.index_lt (hwords : Increasing words) (hfirst : words[index]? = some first)
    (hsecond : words[index']? = some second) (hlt : Utf8.bytes first < Utf8.bytes second) :
    index < index' := by
  rcases Nat.lt_trichotomy index index' with hindex | rfl | hindex
  · exact hindex
  · obtain rfl : first = second := Option.some.inj (hfirst.symm.trans hsecond)
    exact absurd hlt (List.lt_irrefl _)
  · exact absurd hlt (List.lt_asymm (hwords.bytes_lt hindex hsecond hfirst))

theorem Increasing.index_eq (hwords : Increasing words) (hfirst : words[index]? = some first)
    (hsecond : words[index']? = some first) : index = index' := by
  rcases Nat.lt_trichotomy index index' with hindex | rfl | hindex
  · exact absurd (hwords.bytes_lt hindex hfirst hsecond) (List.lt_irrefl _)
  · rfl
  · exact absurd (hwords.bytes_lt hindex hsecond hfirst) (List.lt_irrefl _)

/-- Words that differ stand one before the other. -/
theorem bytes_lt_of_not_precedes (hne : first ≠ second)
    (hnot : ¬ Utf8.precedes first second = true) :
    Utf8.bytes second < Utf8.bytes first := by
  unfold Utf8.precedes at hnot
  rw [decide_eq_true_eq] at hnot
  refine Classical.byContradiction fun hnot' => hne (Utf8.eq_of_bytes_eq ?_)
  exact List.le_antisymm hnot' hnot

/-- Bisection finds a word exactly if it stands between the bounds. -/
theorem search_eq_some_iff {table : Array String} (htable : Increasing table.toList)
    (word : String) (hhigh : high ≤ table.size) :
    search table word low high = some index ↔
      low ≤ index ∧ index < high ∧ table[index]? = some word := by
  fun_induction search table word low high with
  | case1 low high hlt middle hnone =>
      have hmiddle : middle < table.size := by omega
      exact absurd hmiddle (Nat.not_lt.mpr (Array.getElem?_eq_none_iff.mp hnone))
  | case2 low high hlt middle hfound =>
      rw [Option.some.injEq]
      constructor
      · rintro rfl
        exact ⟨by omega, by omega, hfound⟩
      · rintro ⟨-, -, hindex⟩
        rw [← Array.getElem?_toList] at hfound hindex
        exact htable.index_eq hfound hindex
  | case3 low high hlt middle candidate hcandidate hne hbefore ih =>
      rw [ih hhigh]
      refine ⟨fun ⟨hlow, hrest⟩ => ⟨by omega, hrest⟩, fun ⟨_, hindex, hword⟩ => ⟨?_, hindex, hword⟩⟩
      -- The candidate comes before the word, so the word stands behind it.
      rw [← Array.getElem?_toList] at hcandidate hword
      exact htable.index_lt hcandidate hword (of_decide_eq_true hbefore)
  | case4 low high hlt middle candidate hcandidate hne hbefore ih =>
      rw [ih (by omega)]
      refine ⟨fun ⟨hlow, hindex, hword⟩ => ⟨hlow, by omega, hword⟩,
        fun ⟨hlow, _, hword⟩ => ⟨hlow, ?_, hword⟩⟩
      rw [← Array.getElem?_toList] at hcandidate hword
      exact htable.index_lt hword hcandidate (bytes_lt_of_not_precedes hne hbefore)
  | case5 low high hlt =>
      constructor
      · nofun
      · rintro ⟨hlow, hindex, -⟩
        omega

end Indices

/-! ## Tables -/

/-- A word of the table passes the bounds on lengths, which only spare searches that would fail. -/
theorem lookup_eq_some_iff (keywords : Keywords) (text : String) (index : Nat) :
    keywords.lookup text = some index ↔ keywords.words[index]? = some text := by
  have hsorted := (increasing_iff _).mp keywords.sorted
  have hsearch : search keywords.words text 0 keywords.words.size = some index ↔
      keywords.words[index]? = some text := by
    rw [search_eq_some_iff hsorted text (Nat.le_refl _)]
    refine ⟨fun ⟨_, _, hword⟩ => hword, fun hword => ⟨Nat.zero_le _, ?_, hword⟩⟩
    exact (Array.getElem?_eq_some_iff.mp hword).1
  unfold lookup
  split
  · rename_i hlength
    refine ⟨nofun, fun hword => ?_⟩
    obtain ⟨hshortest, hlongest⟩ := keywords.bounded text (Array.mem_of_getElem? hword)
    simp only [Bool.or_eq_true, decide_eq_true_eq] at hlength
    omega
  · exact hsearch

theorem words_of_ofWords {words : List String} {keywords : Keywords}
    (hwords : ofWords words = .ok keywords) : keywords.words = words.toArray := by
  unfold ofWords at hwords
  split at hwords
  · cases hwords
    rfl
  · cases hwords

/-- **A keyword table is an exact index.**  It is made exactly from words that strictly increase in
the lexicographic order of their bytes, and refused otherwise.  Looking up a text gives an index
exactly if the text is the word there, whatever the lengths of the words are. -/
theorem ofWords_indexes (words : List String) :
    ((∃ keywords, ofWords words = .ok keywords) ↔
      words.Pairwise fun earlier later => Utf8.bytes earlier < Utf8.bytes later) ∧
    (¬ (words.Pairwise fun earlier later => Utf8.bytes earlier < Utf8.bytes later) →
      ∃ cause, ofWords words = .error cause ∧
        cause.message = "keyword table must be strictly sorted") ∧
    ∀ keywords, ofWords words = .ok keywords → ∀ text index,
      keywords.lookup text = some index ↔ ∃ hindex : index < words.length, words[index] = text := by
  have hincreasing := increasing_iff words
  refine ⟨⟨?_, ?_⟩, ?_, ?_⟩
  · rintro ⟨keywords, hwords⟩
    have hsorted := (increasing_iff _).mp keywords.sorted
    rw [words_of_ofWords hwords] at hsorted
    exact hsorted
  · intro hsorted
    exact ⟨_, dif_pos (hincreasing.mpr hsorted)⟩
  · intro hunsorted
    exact ⟨.unsortedKeywords, dif_neg (mt hincreasing.mp hunsorted), rfl⟩
  · intro keywords hwords text index
    rw [lookup_eq_some_iff, words_of_ofWords hwords, List.getElem?_toArray,
      List.getElem?_eq_some_iff]

/-- Words that begin other words, the empty one among them, and one whose bytes are not its
characters. -/
def prefixes : List String :=
  ["", "i", "if", "iff", "é"]

theorem ofWords_indexes_prefixes :
    ∃ keywords, ofWords prefixes = .ok keywords ∧ keywords.lookup "" = some 0 ∧
      keywords.lookup "if" = some 2 ∧ keywords.lookup "é" = some 4 ∧
      keywords.lookup "e" = none := by
  obtain ⟨hmade, -, hlookup⟩ := ofWords_indexes prefixes
  have hsorted : increasing prefixes = true := by decide
  obtain ⟨keywords, hwords⟩ := hmade.mpr ((increasing_iff prefixes).mp hsorted)
  have hfound := hlookup keywords hwords
  refine ⟨keywords, hwords, ?_, ?_, ?_, ?_⟩
  · exact (hfound "" 0).mpr ⟨by decide, rfl⟩
  · exact (hfound "if" 2).mpr ⟨by decide, rfl⟩
  · exact (hfound "é" 4).mpr ⟨by decide, rfl⟩
  · rw [Option.eq_none_iff_forall_ne_some]
    intro index hindex
    obtain ⟨hlt, hword⟩ := (hfound "e" index).mp hindex
    have hmem : "e" ∈ prefixes := hword ▸ List.getElem_mem hlt
    exact absurd hmem (by decide)

end Keywords

end FrontEnd
