/-!
# Operations of 64-bit floats

The operations that programs use, without laws: what is proved over `Binary64` holds
however the hardware rounds. `Float` is the intended instance.
-/

namespace Machine

class Binary64 (F : Type) extends Add F, Sub F, Mul F, Div F, OfScientific F where
  ofInt : Int → F
  sqrt : F → F
  exp : F → F
  max : F → F → F
  infinity : F
  isFinite : F → Bool
  lt : F → F → Bool
  le : F → F → Bool
  ne : F → F → Bool

instance : Binary64 Float where
  ofInt := Float.ofInt
  sqrt := Float.sqrt
  exp := Float.exp
  max a b := if a.isNaN || b < a then a else b
  infinity := 1.0 / 0.0
  isFinite := Float.isFinite
  lt a b := decide (a < b)
  le a b := decide (a ≤ b)
  ne a b := a != b

end Machine
