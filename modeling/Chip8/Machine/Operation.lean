import Chip8.Machine.Execute

/-!
# Operations

Everything that can be done to a machine from outside, as data: steps and cycles,
timer ticks, resets, programs and bytes put into memory, keys, and the parts of
the processor set by hand.

Main results:

- Theorem `Machine.outcomes_cons`: a sequence of operations is its first
  operation followed by the rest from the state reached.
-/

namespace Chip8

/-- One thing done to a machine. -/
inductive Operation where
  /-- Execute one instruction. -/
  | step
  /-- Execute one instruction and tick the timers. -/
  | cycle
  /-- Tick the timers. -/
  | tickTimers
  /-- Return to the power-on state. -/
  | reset
  /-- Put a program into memory. -/
  | loadProgram (image : List UInt8)
  /-- Put bytes into memory from an address on. -/
  | load (addr : UInt16) (bytes : List UInt8)
  /-- Put one byte into memory. -/
  | write (addr : UInt16) (byte : UInt8)
  /-- Something happens to the keypad. -/
  | keypad (event : Keypad.Event)
  /-- Set the program counter. -/
  | setPc (pc : UInt16)
  /-- Set the index register. -/
  | setIndex (i : UInt16)
  /-- Set the byte register numbered by the low nibble of `x`. -/
  | setRegister (x byte : UInt8)
  /-- Replace the call stack by the given return addresses, the oldest first. -/
  | setStack (entries : List UInt16)
  /-- Set both timers. -/
  | setTimers (delay sound : UInt8)
  deriving DecidableEq

namespace Machine

variable {G : Type} [RandomSource G]

/-- What an operation comes to. -/
def perform (m : Machine G) : Operation → Checked (Outcome G)
  | .step => m.step
  | .cycle => m.cycle
  | .tickTimers => return .done m.tickTimers
  | .reset => return m.reboot
  | .loadProgram image => return m.loadProgram image
  | .load addr bytes => return .done { m with memory := ← m.memory.writeCells addr bytes }
  | .write addr byte => return .done { m with memory := ← m.memory.writeCell addr byte }
  | .keypad event => return .done { m with keypad := m.keypad.after event }
  | .setPc pc => return .done (m.setPc pc)
  | .setIndex i => return .done (m.setIndex i)
  | .setRegister x byte => return .done { m with registers := m.registers.set x byte }
  | .setStack entries => return .done (m.setStack (.ofEntries entries))
  | .setTimers delay sound => return .done { m with timers := { delay, sound } }

/-- What operations come to one after another, each starting from the state that
the one before it left. -/
def outcomes (m : Machine G) : List Operation → Checked (List (Outcome G))
  | [] => return []
  | op :: rest => do
    let outcome ← m.perform op
    let later ← outcome.machine.outcomes rest
    return outcome :: later

/-- The state after operations one after another. -/
def performAll (m : Machine G) : List Operation → Checked (Machine G)
  | [] => return m
  | op :: rest => do
    let outcome ← m.perform op
    outcome.machine.performAll rest

/-- A sequence of operations is its first operation followed by the rest from the
state reached. -/
theorem outcomes_cons {m : Machine G} {op : Operation} {outcome : Outcome G}
    (h : m.perform op = .ok outcome) (rest : List Operation) :
    m.outcomes (op :: rest) = (outcome.machine.outcomes rest).map (outcome :: ·) := by
  cases hrest : outcome.machine.outcomes rest <;>
    simp [outcomes, h, hrest, Checked.ok_bind, Checked.error_bind, pure, Except.pure, Except.map]

end Machine

end Chip8
