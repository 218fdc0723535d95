/-!
# Ticks

Instants and durations both count ticks of 1/32768 second. A clock stops at the
last instant that 64 bits can hold, and a duration given in metric units is
rounded up to whole ticks, so that it is never cut short.
-/

namespace SharedBus

abbrev Ticks := Nat

namespace Ticks

def perSecond : Nat := 32768

/-- The last instant that a clock can show, with 64 bits all set. -/
def last : Ticks := 18446744073709551615

/-- The instant `d` after `t`, or the last one when the clock has no room for it. -/
def after (t d : Ticks) : Ticks := min (t + d) last

/-- Time from `start` to `now`: none at all when the clock has been moved to a
point before `start`. -/
def since (now start : Ticks) : Ticks := now - start

/-- `n` units of which `unit` make a second, rounded up. -/
def ofUnits (unit n : Nat) : Ticks := (n * perSecond + (unit - 1)) / unit

def ofMicros (n : Nat) : Ticks := ofUnits 1000000 n

def ofMillis (n : Nat) : Ticks := ofUnits 1000 n

theorem after_le_add (t d : Ticks) : t.after d ≤ t + d := Nat.min_le_left _ _

theorem after_eq_add {t d : Ticks} (h : t + d ≤ last) : t.after d = t + d := Nat.min_eq_left h

end Ticks

end SharedBus
