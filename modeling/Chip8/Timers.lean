/-!
# Timers

Two timers count down to zero and stay there.  The buzzer sounds while the sound
timer is above zero.

Main results:

- Theorems `Timers.toNat_delay_tickMany` and `Timers.toNat_sound_tickMany`: each
  tick takes one off a timer above zero.
- Theorem `Timers.tickMany_eq`: many ticks as one countdown.
- Theorem `Timers.tickMany_tickMany`: ticks after ticks.
-/

namespace Chip8

/-- The two countdown timers. -/
structure Timers where
  /-- The timer that programs read. -/
  delay : UInt8
  /-- The timer of the buzzer. -/
  sound : UInt8
  deriving DecidableEq

namespace Timers

/-- Both timers at zero. -/
def stopped : Timers := ⟨0, 0⟩

/-- A timer value after one tick: one less, and zero stays zero. -/
def lower (value : UInt8) : UInt8 := if value = 0 then 0 else value - 1

/-- The timers after one tick. -/
def tick (timers : Timers) : Timers :=
  { delay := lower timers.delay, sound := lower timers.sound }

/-- The timers after `n` ticks, one after another. -/
def tickMany : Nat → Timers → Timers
  | 0, timers => timers
  | n + 1, timers => tickMany n timers.tick

/-- Whether the buzzer sounds. -/
def soundActive (timers : Timers) : Bool := 0 < timers.sound

/-! ## Single values -/

/-- A tick takes one off a value above zero. -/
theorem toNat_lower (value : UInt8) : (lower value).toNat = value.toNat - 1 := by
  unfold lower
  split
  next h => rw [h]; rfl
  next h =>
    have hle : (1 : UInt8) ≤ value := by
      rw [UInt8.le_iff_toNat_le, UInt8.toNat_one]
      exact Nat.pos_of_ne_zero fun hzero => h (UInt8.toNat_inj.mp hzero)
    rw [UInt8.toNat_sub_of_le value 1 hle, UInt8.toNat_one]

/-- A timer value `n` ticks later. -/
def countDown (n : Nat) (value : UInt8) : UInt8 := UInt8.ofNat (value.toNat - n)

/-- Counting down takes one off for every tick, down to zero. -/
theorem toNat_countDown (n : Nat) (value : UInt8) :
    (countDown n value).toNat = value.toNat - n := by
  have := value.toNat_lt
  simp only [countDown, UInt8.toNat_ofNat']
  omega

/-- Counting down by nothing leaves a value as it is. -/
theorem countDown_zero (value : UInt8) : countDown 0 value = value :=
  UInt8.ofNat_toNat

/-- A tick counts down by one. -/
theorem lower_eq_countDown (value : UInt8) : lower value = countDown 1 value := by
  rw [← UInt8.toNat_inj, toNat_lower, toNat_countDown]

/-- Counting down twice is counting down once by the sum. -/
theorem countDown_countDown (m n : Nat) (value : UInt8) :
    countDown n (countDown m value) = countDown (m + n) value := by
  apply UInt8.toNat_inj.mp
  simp only [toNat_countDown]
  omega

/-! ## Many ticks -/

/-- Many ticks count both timers down by as many. -/
theorem tickMany_eq (n : Nat) (timers : Timers) :
    timers.tickMany n =
      { delay := countDown n timers.delay, sound := countDown n timers.sound } := by
  induction n generalizing timers with
  | zero => rw [tickMany, countDown_zero, countDown_zero]
  | succ n ih =>
      rw [tickMany, ih, tick, lower_eq_countDown, lower_eq_countDown, countDown_countDown,
        countDown_countDown, Nat.add_comm 1]

/-- The delay timer loses one for every tick, down to zero. -/
theorem toNat_delay_tickMany (n : Nat) (timers : Timers) :
    (timers.tickMany n).delay.toNat = timers.delay.toNat - n := by
  rw [tickMany_eq, toNat_countDown]

/-- The sound timer loses one for every tick, down to zero. -/
theorem toNat_sound_tickMany (n : Nat) (timers : Timers) :
    (timers.tickMany n).sound.toNat = timers.sound.toNat - n := by
  rw [tickMany_eq, toNat_countDown]

/-- Ticks after ticks are as many ticks as both together. -/
theorem tickMany_tickMany (m n : Nat) (timers : Timers) :
    (timers.tickMany m).tickMany n = timers.tickMany (m + n) := by
  rw [tickMany_eq, tickMany_eq, tickMany_eq, countDown_countDown, countDown_countDown]

end Timers

end Chip8
