import FrontEnd.Input.CharSource

/-!
# Scripted character sources

A source that is written out as the outcome of each read.  Widths are free, so that positions can
be checked apart from any encoding.
-/

namespace FrontEnd

/-- A character source, as the outcomes of its reads; behind the last it is at its end. -/
structure Script where
  readings : List Reading

namespace Script

/-- The number of items among a list of readings. -/
def itemCount : List Reading → Nat
  | [] => 0
  | .ok (some _) :: rest => itemCount rest + 1
  | .ok none :: rest => itemCount rest
  | .error _ :: rest => itemCount rest

instance : CharSource Script where
  read script :=
    match script.readings with
    | [] => (.ok none, script)
    | reading :: rest => (reading, ⟨rest⟩)
  remaining script := itemCount script.readings
  remaining_read_le script := by
    obtain ⟨readings⟩ := script
    match readings with
    | [] => simp
    | .ok (some _) :: rest => simp [itemCount]
    | .ok none :: rest => simp [itemCount]
    | .error _ :: rest => simp [itemCount]
  remaining_read_lt script item hitem := by
    obtain ⟨readings⟩ := script
    match readings with
    | [] => simp at hitem
    | .ok (some _) :: rest => simp [itemCount]
    | .ok none :: rest => simp at hitem
    | .error _ :: rest => simp at hitem

/-- The source of a text's characters, each as wide as its encoding. -/
def ofText (text : String) : Script :=
  ⟨text.toList.map fun character => .ok (some ⟨character, character.utf8Size⟩)⟩

end Script

end FrontEnd
