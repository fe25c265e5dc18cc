import SVR2.Basic
import SVR2.Lib.Median
import SVR2.Lib.OrdMap

/-!
# The clock of a group

`groupclock/groupclock.cc`: the time of a group is the median of the local time and the times that
its members have reported.  As long as less than half of these are wrong, it lies between right
ones.
-/

namespace SVR2

open Lib

/-- `groupclock::Clock`; a time is a number of seconds. -/
structure Clock where
  localTime : Nat := 0
  remotes : OrdMap PeerId Nat := ∅

namespace Clock

/-- The values that count: the local time, and the reported times of those of the peers that have
    reported one. -/
def values (c : Clock) (remotes : OrdSet PeerId) : Multiset Nat :=
  c.localTime ::ₘ remotes.keySet.val.filterMap c.remotes.find?

end Clock

end SVR2
