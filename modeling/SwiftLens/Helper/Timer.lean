import SwiftLens.Number.Arithmetic

/-!
# Timers

A timer is started for a number of milliseconds and goes off once they have passed, unless it is stopped
before. Timers count whole milliseconds and no more than 31 bits of them: one that is started for less
than one millisecond, for more than `maxDelay`, or for what is no number, goes off after one.
-/

namespace SwiftLens

/-- A running timer: the number of the question that it is for, and when it goes off. -/
structure Timer where
  seq : Nat
  goesOffAt : Double

namespace Timer

/-- The longest time, in milliseconds, that a timer runs. -/
def maxDelay : Nat := 0x7FFFFFFF

/-- How long a timer runs that is started for the given number of milliseconds. -/
def delay (ms : Double) : Double :=
  if (Double.ofNat 1).le ms && ms.le (Double.ofNat maxDelay) then Double.ofInt ms.truncate
  else Double.ofNat 1

/-- Whether a timer has gone off by the given time. -/
def isDue (t : Timer) (clock : Double) : Bool := t.goesOffAt.le clock

end Timer

end SwiftLens
