import Chip8.Machine.Execute

/-!
# Runs

A run repeats one action until it has succeeded a given number of times, and ends
early at the first fault.  The successes are counted in a checked tick count.

Main results:

- Theorem `Run.extend_of_le`: nothing is left to do once the target is reached.
- Theorem `Run.extend_of_crash`: a crash of the action is one of the run.
- Theorem `Run.extend_of_fault`: a fault ends the run in the state it left.
- Theorem `Run.extend_of_success`: any other action is counted, without an
  overflow, and the run goes on from there.
-/

namespace Chip8

/-- How far a run has come. -/
structure Run (G : Type) where
  /-- The state reached. -/
  machine : Machine G
  /-- How many actions have succeeded. -/
  completed : Ticks := .zero
  /-- The fault that ended the run, if one did. -/
  fault : Option Fault := none
  /-- The entries written, in order. -/
  log : Array Log.Entry := #[]
  deriving DecidableEq

namespace Run

variable {G : Type}

/-- The run after more actions: until `target` of them have succeeded in all, or
one is refused. -/
def extend (act : Machine G → Checked (Outcome G)) (target : Ticks) (run : Run G) :
    Checked (Run G) :=
  if _hless : run.completed.count < target.count then do
    let outcome ← act run.machine
    let log := run.log ++ outcome.log
    match outcome.fault with
    | some _ => return { run with machine := outcome.machine, fault := outcome.fault, log }
    | none =>
      match _hnext : run.completed.add .one with
      | .error crash => .error crash
      | .ok completed =>
        extend act target { run with machine := outcome.machine, completed, log }
  else
    return run
termination_by target.count.toNat - run.completed.count.toNat
decreasing_by
  have hsucc := Ticks.toNat_of_add _hnext
  have hlt : run.completed.count.toNat < target.count.toNat := UInt64.lt_iff_toNat_lt.mp _hless
  have hone : Ticks.one.count.toNat = 1 := rfl
  omega

variable {act : Machine G → Checked (Outcome G)} {target : Ticks} {run : Run G}

/-- Nothing is left to do once the target is reached. -/
theorem extend_of_le (h : target.count ≤ run.completed.count) :
    run.extend act target = .ok run := by
  rw [extend, dif_neg (UInt64.not_lt.mpr h)]
  rfl

/-- A crash of the action is one of the run. -/
theorem extend_of_crash {crash : Crash} (hless : run.completed.count < target.count)
    (hact : act run.machine = .error crash) : run.extend act target = .error crash := by
  rw [extend, dif_pos hless, hact]
  rfl

/-- A fault ends the run in the state it left. -/
theorem extend_of_fault {outcome : Outcome G} {fault : Fault}
    (hless : run.completed.count < target.count) (hact : act run.machine = .ok outcome)
    (hfault : outcome.fault = some fault) :
    run.extend act target =
      .ok { run with
        machine := outcome.machine
        fault := some fault
        log := run.log ++ outcome.log } := by
  rw [extend, dif_pos hless, hact, Checked.ok_bind]
  simp only [hfault]
  rfl

/-- An action that is not refused is counted and the run goes on from there. -/
theorem extend_of_success {outcome : Outcome G} (hless : run.completed.count < target.count)
    (hact : act run.machine = .ok outcome) (hfault : outcome.fault = none) :
    run.extend act target =
      Run.extend act target
        { run with
          machine := outcome.machine
          completed := ⟨run.completed.count + 1⟩
          log := run.log ++ outcome.log } := by
  rw [extend, dif_pos hless, hact, Checked.ok_bind]
  simp only [hfault]
  split
  next crash hnext =>
    rw [Ticks.add_one_of_lt hless] at hnext
    cases hnext
  next completed hnext =>
    rw [Ticks.add_one_of_lt hless] at hnext
    obtain rfl := Except.ok.inj hnext
    rfl

end Run

/-- The run of `target` actions from a state. -/
def Machine.run {G : Type} (m : Machine G) (act : Machine G → Checked (Outcome G))
    (target : Ticks) : Checked (Run G) :=
  Run.extend act target { machine := m }

end Chip8
