import SVR2.Basic

/-!
# Timeouts

`timeout/timeout.cc`: functions to run at a later tick, unless they are cancelled before.
-/

namespace SVR2

/-- `timeout::Cancel`; the one made by its default constructor cancels nothing. -/
structure Cancel where
  atTick : Nat := 0
  cancelId : Nat := 0
deriving DecidableEq, Repr

structure Timeout (Fn : Type) where
  ticks : Nat := 0
  timeoutCancelGen : Nat := 0
  timeouts : List (Cancel × Fn) := []
deriving DecidableEq

namespace Timeout

variable {Fn : Type}

/-- `TimerTick`, which returns the functions that the caller then runs. -/
def timerTick (t : Timeout Fn) : Timeout Fn × List Fn :=
  let ticks := t.ticks + 1
  ({ t with ticks := ticks, timeouts := t.timeouts.filter fun e => e.1.atTick ≠ ticks },
    (t.timeouts.filter fun e => e.1.atTick = ticks).map (·.2))

/-- `SetTimeout`; its `CHECK` is that `ticksFromNow` is not 0. -/
def setTimeout (t : Timeout Fn) (ticksFromNow : Nat) (fn : Fn) : Timeout Fn × Cancel :=
  let tc : Cancel := ⟨ticksFromNow + t.ticks, t.timeoutCancelGen + 1⟩
  ({ t with timeoutCancelGen := t.timeoutCancelGen + 1, timeouts := t.timeouts ++ [(tc, fn)] }, tc)

def cancelTimeout (t : Timeout Fn) (tc : Cancel) : Timeout Fn :=
  { t with timeouts := t.timeouts.filter fun e => e.1 ≠ tc }

end Timeout

end SVR2
