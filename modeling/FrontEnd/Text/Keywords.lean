import FrontEnd.Halt
import FrontEnd.Text.Utf8

/-!
# Keyword tables

A table of reserved words in strictly increasing order of their UTF-8 bytes, so that a word is
found by bisection and each word has one index.
-/

namespace FrontEnd

/-- Whether each word comes strictly before the word behind it. -/
def Keywords.increasing : List String → Bool
  | [] => true
  | [_] => true
  | first :: second :: rest =>
    Utf8.bytesPrecede (Utf8.bytes first) (Utf8.bytes second) && increasing (second :: rest)

/-- A strictly increasing table of words, with the lengths in bytes of its shortest and longest. -/
structure Keywords where
  words : Array String
  shortest : Nat
  longest : Nat
  sorted : Keywords.increasing words.toList = true
  bounded : ∀ word ∈ words, shortest ≤ word.utf8ByteSize ∧ word.utf8ByteSize ≤ longest

namespace Keywords

theorem bounds_of_mem {lengths : List Nat} {length : Nat} (hlength : length ∈ lengths)
    (least greatest : Nat) :
    lengths.foldl min least ≤ length ∧ length ≤ lengths.foldl max greatest := by
  rw [List.foldl_min, List.foldl_max]
  exact ⟨Nat.le_trans (Nat.min_le_right _ _) (List.min?_getD_le_of_mem hlength),
    Nat.le_trans (List.le_max?_getD_of_mem hlength) (Nat.le_max_right _ _)⟩

/-- The table of the given words, refused unless they strictly increase.  Without words there is no
length between the bounds. -/
def ofWords (words : List String) : Except Halt Keywords :=
  if sorted : increasing words = true then
    let lengths := words.map String.utf8ByteSize
    .ok
      { words := words.toArray
        shortest := lengths.foldl min (UInt64.size - 1)
        longest := lengths.foldl max 0
        sorted := by simpa using sorted
        bounded := fun word hword =>
          have hlength : word.utf8ByteSize ∈ lengths :=
            List.mem_map_of_mem (List.mem_toArray.mp hword)
          bounds_of_mem hlength _ _ }
  else
    .error .unsortedKeywords

/-- Bisection for `word` among the indices from `low` up to, and not including, `high`. -/
def search (words : Array String) (word : String) (low high : Nat) : Option Nat :=
  if low < high then
    let middle := low + (high - low) / 2
    match words[middle]? with
    | none => none
    | some candidate =>
      if candidate = word then some middle
      else if Utf8.precedes candidate word then search words word (middle + 1) high
      else search words word low middle
  else
    none
termination_by high - low

/-- The index of `text` in the table, if it is one of the words.  A text that is shorter or longer
than every word is rejected without a search. -/
def lookup (keywords : Keywords) (text : String) : Option Nat :=
  if text.utf8ByteSize < keywords.shortest || keywords.longest < text.utf8ByteSize then none
  else search keywords.words text 0 keywords.words.size

/-- The number of words. -/
def size (keywords : Keywords) : Nat :=
  keywords.words.size

/-- Whether the table has no words. -/
def isEmpty (keywords : Keywords) : Bool :=
  keywords.words.isEmpty

end Keywords

end FrontEnd
