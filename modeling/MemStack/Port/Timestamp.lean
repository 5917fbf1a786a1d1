import Mathlib

/-!
This module contains points in time as the library for dates keeps them, in nanoseconds.
-/

namespace MemStack

abbrev Timestamp := Int

namespace Timestamp

def second : Timestamp :=
  1000000000

def minSeconds : Int :=
  -8334601228800

def maxSeconds : Int :=
  8210266876799

-- `add_seconds`, which leaves a point in time as it is when the sum is out of range.
def addSeconds (value : Timestamp) (seconds : Int) : Timestamp :=
  let sum := value.fdiv second + seconds
  if minSeconds ≤ sum ∧ sum ≤ maxSeconds then value + seconds * second else value

end Timestamp

end MemStack
