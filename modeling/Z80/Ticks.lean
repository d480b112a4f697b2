/-!
# Time

Time is counted in T-states. A count only ever grows, and the time between two counts is never
negative: taking a later count from an earlier one gives zero.

Counts are meant to be kept in 64 bits. Here they are natural numbers, which comes to the same as long
as they stay below `Ticks.limit`; no step takes more than 23 T-states, so a count that starts at zero
does so for more than 2 ^ 59 steps.
-/

namespace Z80

/-- A count of T-states. -/
abbrev Ticks := Nat

namespace Ticks

/-- The first count that does not fit into 64 bits. -/
def limit : Nat := 0x10000000000000000

/-- The count at power-on. -/
def zero : Ticks := 0

/-- The count after `n` more T-states. -/
def advance (t : Ticks) (n : Nat) : Ticks :=
  t + n

/-- The T-states from an earlier count to a later one. -/
def since (later earlier : Ticks) : Nat :=
  later - earlier

/-- The time since a count is what it has been advanced by. -/
@[simp] theorem since_advance (t : Ticks) (n : Nat) : (t.advance n).since t = n := by
  simp [since, advance]

/-- No time has passed from a later count to an earlier one. -/
theorem since_eq_zero {later earlier : Ticks} (h : later ≤ earlier) :
    later.since earlier = 0 :=
  Nat.sub_eq_zero_of_le h

end Ticks

end Z80
