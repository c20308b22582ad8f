import Chip8.Checked

/-!
# Tick counts and frame pacing

A tick count never wraps: adding past its end is a crash, and subtracting below
zero stays at zero.  A clock splits its ticks evenly over the frames of a
second and drops the remainder.

Main results:

- Theorem `Ticks.add_of_lt`: below 2^64 the sum is the sum.
- Theorem `Ticks.add_one_of_lt`: a count that has not reached another can go on.
- Theorem `Clock.toNat_ticksPerFrame`: a frame holds the clock's rate divided by
  the frame rate, rounded down, and nothing at frame rate zero.
-/

namespace Chip8

/-- A number of clock ticks. -/
structure Ticks where
  /-- How many ticks. -/
  count : UInt64
  deriving DecidableEq

namespace Ticks

/-- No ticks. -/
def zero : Ticks := ⟨0⟩

/-- A single tick. -/
def one : Ticks := ⟨1⟩

/-- The sum of two tick counts; a sum of 2^64 or more is a crash. -/
def add (a b : Ticks) : Checked Ticks := do
  let count ← Checked.addCount a.count b.count
  return ⟨count⟩

/-- The difference of two tick counts, zero where it would be negative. -/
def sub (a b : Ticks) : Ticks :=
  if b.count ≤ a.count then ⟨a.count - b.count⟩ else zero

instance : Ord Ticks where
  compare a b := compare a.count b.count

theorem eq_of_toNat_eq {a b : Ticks} (h : a.count.toNat = b.count.toNat) : a = b := by
  cases a
  cases b
  exact congrArg Ticks.mk (UInt64.toNat_inj.mp h)

/-- Below 2^64 the sum of two tick counts is the sum of the counts. -/
theorem add_of_lt {a b : Ticks} (h : a.count.toNat + b.count.toNat < UInt64.size) :
    a.add b = .ok ⟨a.count + b.count⟩ := by
  rw [add, Checked.addCount_of_lt h, Checked.ok_bind]
  rfl

/-- At 2^64 and above the sum of two tick counts is a crash. -/
theorem add_of_le {a b : Ticks} (h : UInt64.size ≤ a.count.toNat + b.count.toNat) :
    a.add b = .error .addOverflow := by
  rw [add, Checked.addCount, if_neg (Nat.not_lt.mpr h), Checked.error_bind]

/-- A sum of tick counts that is no crash is the sum of the counts. -/
theorem toNat_of_add {a b c : Ticks} (h : a.add b = .ok c) :
    c.count.toNat = a.count.toNat + b.count.toNat := by
  by_cases hlt : a.count.toNat + b.count.toNat < UInt64.size
  · rw [add_of_lt hlt] at h
    obtain rfl := Except.ok.inj h
    rw [UInt64.toNat_add]
    exact Nat.mod_eq_of_lt hlt
  · rw [add_of_le (Nat.le_of_not_lt hlt)] at h
    cases h

/-- Below another tick count there is room for one more tick. -/
theorem add_one_of_lt {a b : Ticks} (h : a.count < b.count) :
    a.add .one = .ok ⟨a.count + 1⟩ := by
  apply add_of_lt
  have hlt : a.count.toNat < b.count.toNat := UInt64.lt_iff_toNat_lt.mp h
  have hsize : b.count.toNat < UInt64.size := b.count.toNat_lt
  have hone : Ticks.one.count.toNat = 1 := rfl
  omega

end Ticks

/-- A clock of a fixed rate. -/
structure Clock where
  /-- Ticks in a second. -/
  rate : UInt64
  deriving DecidableEq

namespace Clock

/-- The whole ticks in one frame at `fps` frames a second, none at frame rate
zero. -/
def ticksPerFrame (clock : Clock) (fps : UInt64) : Ticks :=
  if fps = 0 then .zero else ⟨clock.rate / fps⟩

/-- A frame holds the rate divided by the frame rate, rounded down. -/
theorem toNat_ticksPerFrame (clock : Clock) (fps : UInt64) :
    (clock.ticksPerFrame fps).count.toNat = clock.rate.toNat / fps.toNat := by
  unfold ticksPerFrame
  split
  next h => simp [h, Ticks.zero]
  next => simp

end Clock

end Chip8
