import Chip8.Instruction.Decode
import Chip8.Machine
import Chip8.Memory.Cells
import Chip8.Screen.Cells

/-!
# Executing instructions

One step of the processor fetches the word at the program counter, moves the
program counter two bytes on, counts the attempt, and lets the instruction act.
Addresses are 16-bit words throughout: the program counter and the index register
keep all their bits and wrap at 65536, and only memory reduces an address to
twelve bits.  A refused instruction acts on nothing.

A cycle is a step followed by one tick of the timers, unless the step was
refused.

Tables are indexed and addresses are computed with checks throughout, so that an
index past its table or a sum past its word would be a crash.

Main results:

- Theorem `Machine.cycle_of_fault`: a refused cycle is the refused step.
- Theorem `Machine.cycle_of_success`: any other cycle is the step and one tick.
-/

namespace Chip8

namespace Machine

variable {G : Type}

/-! ## Subroutines -/

/-- Continue at an address and remember where to return to. -/
def callSubroutine (m : Machine G) (addr : UInt16) : Checked (Outcome G) := do
  match ← m.registers.stack.push m.registers.pc with
  | some stack => return .done ((m.setStack stack).setPc addr)
  | none => return .refused m (.stackOverflow m.instructionAddress)

/-- Continue at the newest return address and forget it. -/
def returnFromSubroutine (m : Machine G) : Checked (Outcome G) := do
  match ← m.registers.stack.pop with
  | some (addr, stack) => return .done ((m.setStack stack).setPc addr)
  | none => return .refused m (.stackUnderflow m.instructionAddress)

/-! ## Registers -/

/-- Replace Vx by a function of Vx. -/
def mapRegister (m : Machine G) (x : UInt8) (f : UInt8 → UInt8) :
    Checked (Outcome G) := do
  let vx ← m.register x
  return .done (← m.setRegister x (f vx))

/-- Replace Vx by a function of Vx and Vy. -/
def combineRegisters (m : Machine G) (x y : UInt8) (f : UInt8 → UInt8 → UInt8) :
    Checked (Outcome G) := do
  let vx ← m.register x
  let vy ← m.register y
  return .done (← m.setRegister x (f vx vy))

/-- Replace Vx, then the flag register, so that the flag wins where both are the
same register. -/
def setWithFlag (m : Machine G) (x byte : UInt8) (flag : Bool) :
    Checked (Outcome G) := do
  let m ← m.setRegister x byte
  return .done (m.setFlag flag)

/-- Add Vy to Vx; the flag is the carry. -/
def addRegisters (m : Machine G) (x y : UInt8) : Checked (Outcome G) := do
  let vx ← m.register x
  let vy ← m.register y
  m.setWithFlag x (vx + vy) (decide (256 ≤ vx.toNat + vy.toNat))

/-- Take Vy from Vx; the flag is set if nothing is borrowed. -/
def subRegisters (m : Machine G) (x y : UInt8) : Checked (Outcome G) := do
  let vx ← m.register x
  let vy ← m.register y
  m.setWithFlag x (vx - vy) (decide (vy ≤ vx))

/-- Put Vy less Vx into Vx; the flag is set if Vy is above what Vx holds then. -/
def subFromRegisters (m : Machine G) (x y : UInt8) : Checked (Outcome G) := do
  let vx ← m.register x
  let vy ← m.register y
  m.setWithFlag x (vy - vx) (decide (vy - vx < vy))

/-- Halve Vx; the flag is the bit shifted out. -/
def shiftRegisterRight (m : Machine G) (x : UInt8) : Checked (Outcome G) := do
  let vx ← m.register x
  m.setWithFlag x (vx >>> 1) (vx &&& 0x01 != 0)

/-- Double Vx; the flag is the bit shifted out. -/
def shiftRegisterLeft (m : Machine G) (x : UInt8) : Checked (Outcome G) := do
  let vx ← m.register x
  m.setWithFlag x (vx <<< 1) (vx &&& 0x80 != 0)

/-! ## Skips -/

/-- Skip the next instruction if Vx passes a test. -/
def skipIfRegister (m : Machine G) (x : UInt8) (test : UInt8 → Bool) :
    Checked (Outcome G) := do
  let vx ← m.register x
  return .done (m.skipIf (test vx))

/-- Skip the next instruction if Vx and Vy pass a test. -/
def skipIfRegisters (m : Machine G) (x y : UInt8) (test : UInt8 → UInt8 → Bool) :
    Checked (Outcome G) := do
  let vx ← m.register x
  let vy ← m.register y
  return .done (m.skipIf (test vx vy))

/-- Skip the next instruction if the key numbered by Vx is in the given state.  A
number past the pad is refused. -/
def skipOnKey (m : Machine G) (x : UInt8) (held : Bool) : Checked (Outcome G) := do
  let key ← m.register x
  if key.toNat < 16 then
    return .done (m.skipIf (m.keypad.isPressed key == held))
  else
    return .refused m (.invalidKey key m.instructionAddress)

/-! ## Devices -/

/-- Put the lowest held key into Vx, or execute the instruction again next time
if no key is held. -/
def waitForKey (m : Machine G) (x : UInt8) : Checked (Outcome G) := do
  match m.keypad.firstPressed? with
  | some key => return .done (← m.setRegister x key)
  | none => return .done (m.setPc (m.registers.pc - 2))

/-- Draw a random byte and put the bits that `kk` selects into Vx. -/
def drawRandom [RandomSource G] (m : Machine G) (x kk : UInt8) :
    Checked (Outcome G) := do
  let (word, random) := RandomSource.next m.random
  return .done (← ({ m with random } : Machine G).setRegister x (word.toUInt8 &&& kk))

/-- The rows of a sprite of height `n` at the index register; no sprite is higher
than fifteen rows. -/
def spriteRows (m : Machine G) (n : UInt8) : Checked (List UInt8) :=
  if n.toNat ≤ 15 then m.memory.readCells m.registers.i n.toNat
  else .error .indexOutOfRange

/-- Draw the sprite at the index register at column Vx and row Vy, and then set
the flag if a lit pixel was hit. -/
def drawSprite (m : Machine G) (x y n : UInt8) : Checked (Outcome G) := do
  let sprite ← m.spriteRows n
  let vx ← m.register x
  let vy ← m.register y
  let drawn ← m.screen.plot vx vy sprite
  return .done (({ m with screen := drawn.1 } : Machine G).setFlag drawn.2)

/-! ## Index register and memory -/

/-- Point the index register at the glyph of Vx. -/
def pointAtGlyph (m : Machine G) (x : UInt8) : Checked (Outcome G) := do
  let vx ← m.register x
  let offset ← Checked.mulWord Glyphs.height vx.toUInt16
  let addr ← Checked.addWord Glyphs.start offset
  return .done (m.setIndex addr)

/-- Continue V0 bytes past an address. -/
def jumpWithOffset (m : Machine G) (addr : UInt16) : Checked (Outcome G) := do
  let pc ← Checked.addWord addr m.registers.v[0].toUInt16
  return .done (m.setPc pc)

/-- Write the hundreds, tens and ones of Vx from the index register on. -/
def writeDecimal (m : Machine G) (x : UInt8) : Checked (Outcome G) := do
  let vx ← m.register x
  let memory ← m.memory.writeCells m.registers.i [vx / 100, vx / 10 % 10, vx % 10]
  return .done { m with memory }

/-- Write V0 to Vx from the index register on. -/
def writeRegisters (m : Machine G) (x : UInt8) : Checked (Outcome G) :=
  if x.toNat < 16 then do
    let bytes := m.registers.v.toList.take (x.toNat + 1)
    let memory ← m.memory.writeCells m.registers.i bytes
    return .done { m with memory }
  else
    .error .indexOutOfRange

/-- Read V0 to Vx from the index register on. -/
def readRegisters (m : Machine G) (x : UInt8) : Checked (Outcome G) :=
  if x.toNat < 16 then do
    let bytes ← m.memory.readCells m.registers.i (x.toNat + 1)
    let v := .ofFn fun k : Fin 16 => bytes[k.val]?.getD m.registers.v[k]
    return .done { m with registers := { m.registers with v } }
  else
    .error .indexOutOfRange

/-! ## The instruction set -/

variable [RandomSource G]

/-- Let an instruction act on the machine after its fetch. -/
def execute (m : Machine G) (ins : Instruction) : Checked (Outcome G) :=
  match ins with
  | .clearScreen => return .done { m with screen := .blank }
  | .ret => m.returnFromSubroutine
  | .hostCall _ | .unassigned _ =>
    return { machine := m, log := #[.ignored ins m.instructionAddress] }
  | .jump addr => return .done (m.setPc addr)
  | .call addr => m.callSubroutine addr
  | .skipIfByte x kk => m.skipIfRegister x fun vx => vx == kk
  | .skipUnlessByte x kk => m.skipIfRegister x fun vx => vx != kk
  | .skipIfSame x y => m.skipIfRegisters x y fun vx vy => vx == vy
  | .skipUnlessSame x y => m.skipIfRegisters x y fun vx vy => vx != vy
  | .setByte x kk => return .done (← m.setRegister x kk)
  | .addByte x kk => m.mapRegister x fun vx => vx + kk
  | .copy x y => return .done (← m.setRegister x (← m.register y))
  | .or x y => m.combineRegisters x y fun vx vy => vx ||| vy
  | .and x y => m.combineRegisters x y fun vx vy => vx &&& vy
  | .xor x y => m.combineRegisters x y fun vx vy => vx ^^^ vy
  | .add x y => m.addRegisters x y
  | .sub x y => m.subRegisters x y
  | .shiftRight x => m.shiftRegisterRight x
  | .subFrom x y => m.subFromRegisters x y
  | .shiftLeft x => m.shiftRegisterLeft x
  | .setIndex addr => return .done (m.setIndex addr)
  | .jumpOffset addr => m.jumpWithOffset addr
  | .random x kk => m.drawRandom x kk
  | .draw x y n => m.drawSprite x y n
  | .skipIfKey x => m.skipOnKey x true
  | .skipUnlessKey x => m.skipOnKey x false
  | .waitKey x => m.waitForKey x
  | .getDelay x => return .done (← m.setRegister x m.timers.delay)
  | .setDelay x => return .done { m with timers.delay := ← m.register x }
  | .setSound x => return .done { m with timers.sound := ← m.register x }
  | .addIndex x => return .done (m.setIndex (m.registers.i + (← m.register x).toUInt16))
  | .glyph x => m.pointAtGlyph x
  | .storeDecimal x => m.writeDecimal x
  | .storeRegisters x => m.writeRegisters x
  | .loadRegisters x => m.readRegisters x

/-! ## Steps and cycles -/

/-- Fetch, decode and execute one instruction.  The timers do not tick. -/
def step (m : Machine G) : Checked (Outcome G) := do
  let pc := m.registers.pc
  let opcode ← m.memory.readCellWord pc
  let ins := Instruction.decode opcode
  let ticks ← m.ticks.add .one
  let fetched : Machine G :=
    { m with registers := { m.registers with opcode, pc := pc + 2 }, ticks }
  let outcome ← fetched.execute ins
  let warnings := (outcome.fault.map Log.Entry.refused).toArray
  return { outcome with log := #[.fetched pc opcode ins] ++ outcome.log ++ warnings }

/-- One step and, unless it was refused, one tick of the timers. -/
def cycle (m : Machine G) : Checked (Outcome G) := do
  let outcome ← m.step
  match outcome.fault with
  | none => return { outcome with machine := outcome.machine.tickTimers }
  | some _ => return outcome

/-- A refused cycle is the refused step. -/
theorem cycle_of_fault {m : Machine G} {outcome : Outcome G} {fault : Fault}
    (hstep : m.step = .ok outcome) (hfault : outcome.fault = some fault) :
    m.cycle = .ok outcome := by
  simp [cycle, hstep, hfault, Checked.ok_bind, pure, Except.pure]

/-- A cycle that is not refused is the step and one tick. -/
theorem cycle_of_success {m : Machine G} {outcome : Outcome G}
    (hstep : m.step = .ok outcome) (hfault : outcome.fault = none) :
    m.cycle = .ok { outcome with machine := outcome.machine.tickTimers } := by
  simp [cycle, hstep, hfault, Checked.ok_bind, pure, Except.pure]

end Machine

end Chip8
