/-!
# Waiting before a retry

What a store left undone, or throttled, is tried again after a wait. The wait doubles with each retry until it meets a
cap. The doubling itself stops at the largest unsigned 32-bit integer, and a wait whose whole seconds do not fit 64
bits counts as the cap. Waits are in milliseconds.
-/

namespace PropertyGraph

/-- How often a chunk is tried again, and how long the waits are. -/
structure RetryPolicy where
  /-- How many retries follow the first attempt. -/
  retries : Nat
  /-- The wait before the first retry. -/
  first : Nat
  /-- The longest wait. -/
  cap : Nat
  deriving DecidableEq, Repr

/-- By how much the wait before a retry, counted from zero, is longer than the first. -/
def RetryPolicy.factor (attempt : Nat) : Nat := if attempt < 32 then Nat.pow 2 attempt else 0xFFFFFFFF

/-- The wait before a retry, counted from zero. -/
def RetryPolicy.delay (p : RetryPolicy) (attempt : Nat) : Nat :=
  let wait := p.first * factor attempt
  if wait / 1000 < 0x10000000000000000 then min wait p.cap else p.cap

end PropertyGraph
