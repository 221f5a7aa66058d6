import FrontEnd.Parse.Grammar

/-!
# Precedences as integers

Precedences are compared as integers, and a sum that leaves the 32 bits stays at the nearest end.
-/

namespace FrontEnd.Parse

/-- An offset precedence is the sum, held between the least and the greatest precedence. -/
theorem Precedence.toInt_offset (precedence : Precedence) (delta : Int) :
    (precedence.offset delta).toInt =
      max (-2147483648) (min (precedence.toInt + delta) 2147483647) := by
  have hmin : Int32.minValue.toInt = -2147483648 := by decide
  have hmax : Int32.maxValue.toInt = 2147483647 := by decide
  simp only [offset, Int32.ofIntClamp]
  split
  · split
    · rw [Int32.toInt_ofIntLE]
      omega
    · rw [hmax]
      omega
  · rw [hmin]
    omega

/-- A barred operator raises the bound to one above its precedence, if there is such a number. -/
theorem Chaining.toInt_boundAfter_barred (precedence bound : Precedence) :
    (Chaining.barred.boundAfter precedence bound).toInt =
      min (precedence.toInt + 1) 2147483647 := by
  have hle := Int32.le_toInt precedence
  simp only [boundAfter, Precedence.toInt_offset]
  omega

end FrontEnd.Parse
