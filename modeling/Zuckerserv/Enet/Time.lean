import Mathlib.Data.Nat.Basic

/-!
# Times

Times are milliseconds on a clock of 32 bits. The difference of two times is taken the shorter way
round: what is a day ahead or more counts as behind.

* `timeLess`, `timeDifference` — the macros.
* `timeDifference_lt` — what a small difference says of the times.
-/

namespace Zuckerserv

namespace Enet

/-- Times and sizes are of type `enet_uint32`. -/
abbrev U32 : Nat := 0x100000000

/-- `ENET_TIME_OVERFLOW`. -/
abbrev TIME_OVERFLOW : Nat := 86400000

/-- `ENET_TIME_LESS`. -/
def timeLess (a b : Nat) : Bool := decide (TIME_OVERFLOW ≤ (a + (U32 - b)) % U32)

/-- `ENET_TIME_DIFFERENCE`. -/
def timeDifference (a b : Nat) : Nat :=
  if TIME_OVERFLOW ≤ (a + (U32 - b)) % U32 then (b + (U32 - a)) % U32 else (a + (U32 - b)) % U32

/-- The difference of a time and an earlier one is small only if little time has passed, or the
clock has almost come round. -/
theorem timeDifference_lt {a b n : Nat} (hle : b ≤ a) (hn : n ≤ TIME_OVERFLOW)
    (h : timeDifference (a % U32) (b % U32) < n) : a - b < n ∨ U32 - n < a - b := by
  unfold timeDifference at h
  unfold U32 TIME_OVERFLOW at *
  split at h <;> omega

end Enet

end Zuckerserv
