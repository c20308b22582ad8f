import Chip8.Proofs.History

/-!
# Freedom from crashes

Every table access and every address computation of the machine is checked and
would end the run if it failed.  From power-on no list of operations makes one of
them fail: at most sixteen return addresses are ever in use, and decoding yields
only register numbers, sprite heights and addresses that fit.  What is left is the
tick count, which cannot count past 2^64 - 1.

Main results:

- Theorem `Machine.step_eq_error_iff`: with at most sixteen return addresses a step
  crashes exactly at the limit of the tick count.
- Theorem `Machine.crash_only_at_full_count`: so it is in every machine that
  operations reach from power-on, and no other crash ever ends them.
-/

namespace Chip8

namespace Machine

variable {G : Type} [RandomSource G]

/-- With at most sixteen return addresses a step crashes exactly at the limit of
the tick count, and in the count. -/
theorem step_eq_error_iff {m : Machine G} (hdepth : m.registers.stack.depth.toNat ≤ 16)
    (crash : Crash) : m.step = .error crash ↔ crash = .addOverflow ∧ m.Full := by
  by_cases hfull : m.Full
  · rw [step_of_full hfull]
    simp [hfull, eq_comm]
  · rw [step_eq hdepth hfull]
    simp [hfull]

/-- With at most sixteen return addresses a cycle crashes exactly at the limit of
the tick count, and in the count. -/
theorem cycle_eq_error_iff {m : Machine G} (hdepth : m.registers.stack.depth.toNat ≤ 16)
    (crash : Crash) : m.cycle = .error crash ↔ crash = .addOverflow ∧ m.Full := by
  by_cases hfull : m.Full
  · rw [cycle_of_full hfull]
    simp [hfull, eq_comm]
  · rw [cycle_eq hdepth hfull]
    simp [hfull]

/-- Operations end in the machine computed without checks, unless the tick count
overflows. -/
theorem performAll_eq {m : Machine G} (hdepth : m.registers.stack.depth.toNat ≤ 16)
    {ops : List Operation} (hover : ¬m.Overflows ops) :
    m.performAll ops = .ok (m.reached ops) := by
  rw [performAll_eq_map_history hdepth, history_eq hdepth hover]
  rfl

/-- Operations that overflow the tick count crash in the count. -/
theorem performAll_of_overflows {m : Machine G}
    (hdepth : m.registers.stack.depth.toNat ≤ 16) {ops : List Operation}
    (hover : m.Overflows ops) : m.performAll ops = .error .addOverflow := by
  rw [performAll_eq_map_history hdepth, history_of_overflows hdepth hover]
  rfl

/-- In every machine that operations reach from power-on, at most sixteen return
addresses are in use, and a step or a cycle crashes exactly if the tick count is at
its limit.  The operations themselves end in a crash only by an instruction
attempted at that limit. -/
theorem crash_only_at_full_count (random : G) (ops : List Operation) :
    (∀ m, (powerOn random).performAll ops = .ok m →
      m.registers.stack.depth.toNat ≤ 16 ∧
      (∀ crash, m.step = .error crash ↔
        crash = .addOverflow ∧ m.ticks.count.toNat = UInt64.size - 1) ∧
      (∀ crash, m.cycle = .error crash ↔
        crash = .addOverflow ∧ m.ticks.count.toNat = UInt64.size - 1)) ∧
    ∀ crash, (powerOn random).performAll ops = .error crash ↔
      crash = .addOverflow ∧ (powerOn random).Overflows ops := by
  have hstart := depth_powerOn_le random
  by_cases hover : (powerOn random).Overflows ops
  · rw [performAll_of_overflows hstart hover]
    refine ⟨?_, ?_⟩
    · intro m hm
      cases hm
    · intro crash
      simp [hover, eq_comm]
  · rw [performAll_eq hstart hover]
    refine ⟨?_, ?_⟩
    · intro m hm
      obtain rfl := Except.ok.inj hm
      have hdepth := depth_reached_le hstart ops
      exact ⟨hdepth, step_eq_error_iff hdepth, cycle_eq_error_iff hdepth⟩
    · intro crash
      simp [hover]

end Machine

end Chip8
