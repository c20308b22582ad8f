import Chip8.Keypad
import Chip8.Log
import Chip8.Memory
import Chip8.Random
import Chip8.Registers
import Chip8.Screen
import Chip8.Timers

/-!
# Machine

The whole state of the machine over a random source, its power-on state, and
what every operation on it comes to: a new state, perhaps a fault, and the log
entries written on the way.

Main results:

- Theorem `Machine.reset_eq_powerOn`: a reset is a power-on that keeps the
  random source.
- Theorem `Machine.loadProgram_of_ok`: a program that fits is put in place and
  nothing else changes.
- Theorem `Machine.loadProgram_of_error`: a program that does not fit is refused
  and nothing changes.
-/

namespace Chip8

/-- The state of the machine. -/
structure Machine (G : Type) where
  /-- The processor's registers. -/
  registers : Registers
  /-- The memory. -/
  memory : Memory
  /-- The screen. -/
  screen : Screen
  /-- The keypad. -/
  keypad : Keypad
  /-- The two timers. -/
  timers : Timers
  /-- Where random bytes come from. -/
  random : G
  /-- Instructions attempted since power-on or the last reset. -/
  ticks : Ticks
  deriving DecidableEq

/-- What an operation on the machine comes to. -/
structure Outcome (G : Type) where
  /-- The state after the operation. -/
  machine : Machine G
  /-- Why the operation was refused, if it was. -/
  fault : Option Fault := none
  /-- The entries written, in order. -/
  log : Array Log.Entry := #[]
  deriving DecidableEq

/-- The outcome of an operation that ends in a state and says nothing. -/
def Outcome.done {G : Type} (m : Machine G) : Outcome G := { machine := m }

/-- The outcome of an operation that is refused in a state. -/
def Outcome.refused {G : Type} (m : Machine G) (fault : Fault) : Outcome G :=
  { machine := m, fault := some fault }

/-- The registers together with the timers, as a debugger shows them. -/
structure Snapshot extends Registers where
  /-- The delay timer. -/
  delay : UInt8
  /-- The sound timer. -/
  sound : UInt8
  deriving DecidableEq

namespace Machine

variable {G : Type}

/-! ## Power-on and reset -/

/-- The power-on state: everything zero, the glyphs in place, and the program
counter at the start of programs. -/
def powerOn (random : G) : Machine G :=
  { registers := { Registers.zero with pc := Memory.programStart }
    memory := .powerOn
    screen := .blank
    keypad := .released
    timers := .stopped
    random
    ticks := .zero }

/-- The machine with everything but the random source cleared, the glyphs put
back in place, and the program counter at the start of programs. -/
def reset (m : Machine G) : Machine G :=
  { m with
    registers := { Registers.zero with pc := Memory.programStart }
    memory := .powerOn
    screen := .blank
    keypad := m.keypad.after .releaseAll
    timers := .stopped
    ticks := .zero }

/-- A new machine and its log. -/
def boot (random : G) : Outcome G :=
  { machine := powerOn random, log := #[.poweredOn] }

/-- A reset machine and its log. -/
def reboot (m : Machine G) : Outcome G :=
  { machine := m.reset, log := #[.poweredOn] }

/-- A reset is a power-on that keeps the random source. -/
theorem reset_eq_powerOn (m : Machine G) : m.reset = powerOn m.random := rfl

/-! ## Programs -/

/-- Put a program image into memory.  An image that does not fit is refused. -/
def loadProgram (m : Machine G) (image : List UInt8) : Outcome G :=
  match m.memory.loadProgram image with
  | .ok memory => { machine := { m with memory }, log := #[.loaded image.length] }
  | .error fault => .refused m fault

/-! ## Timers -/

/-- The machine after both timers tick once. -/
def tickTimers (m : Machine G) : Machine G := { m with timers := m.timers.tick }

/-! ## Looking -/

/-- The registers together with the timers. -/
def snapshot (m : Machine G) : Snapshot :=
  { m.registers with delay := m.timers.delay, sound := m.timers.sound }

/-- The address of the instruction under way: fetching has moved the program
counter two bytes past it. -/
def instructionAddress (m : Machine G) : UInt16 := m.registers.pc - 2

/-- The byte in register `x`. -/
def register (m : Machine G) (x : UInt8) : Checked UInt8 := m.registers.read x

/-! ## Changing single parts -/

/-- The machine with the program counter replaced. -/
def setPc (m : Machine G) (pc : UInt16) : Machine G :=
  { m with registers := { m.registers with pc } }

/-- The machine with the index register replaced. -/
def setIndex (m : Machine G) (i : UInt16) : Machine G :=
  { m with registers := { m.registers with i } }

/-- The machine with register `x` replaced. -/
def setRegister (m : Machine G) (x byte : UInt8) : Checked (Machine G) := do
  let registers ← m.registers.write x byte
  return { m with registers }

/-- The machine with the flag register set to one or zero. -/
def setFlag (m : Machine G) (flag : Bool) : Machine G :=
  { m with registers := m.registers.writeFlag flag }

/-- The machine with the call stack replaced. -/
def setStack (m : Machine G) (stack : CallStack) : Machine G :=
  { m with registers := { m.registers with stack } }

/-- The machine with the program counter moved past one more instruction if the
condition holds. -/
def skipIf (m : Machine G) (condition : Bool) : Machine G :=
  if condition then m.setPc (m.registers.pc + 2) else m

/-! ## Loading changes memory alone -/

/-- A program that fits is put in place and nothing else changes. -/
theorem loadProgram_of_ok {m : Machine G} {image : List UInt8} {memory : Memory}
    (h : m.memory.loadProgram image = .ok memory) :
    m.loadProgram image =
      { machine := { m with memory }, log := #[.loaded image.length] } := by
  simp [loadProgram, h]

/-- A program that does not fit is refused and nothing changes. -/
theorem loadProgram_of_error {m : Machine G} {image : List UInt8} {fault : Fault}
    (h : m.memory.loadProgram image = .error fault) :
    m.loadProgram image = .refused m fault := by
  simp [loadProgram, h]

end Machine

end Chip8
