import Chip8.Machine.Execute
import Chip8.Proofs.CallStack
import Chip8.Proofs.SpritePlot

/-!
# What an instruction does to each part of the machine

Executing an instruction is written with checked accesses.  With the operands
that decoding yields none of the checks fails, and what is left is one function
for each part of the machine: the byte registers, the index register, the program
counter, the call stack, the memory, the screen, the timers and the random
source.  An instruction is refused before it touches any of them.

Main results:

- Theorem `Machine.execute_eq`: with operands in range and at most sixteen return
  addresses an instruction never crashes; it is refused with `Machine.refusal?` or
  it has `Machine.effect`.
-/

namespace Chip8

namespace Machine

variable {G : Type}

/-! ## Accesses with operands in range -/

/-- A register below sixteen is read without a crash. -/
theorem register_of_lt (m : Machine G) {x : UInt8} (h : x.toNat < 16) :
    m.register x = .ok (m.registers.get x) := by
  rw [register, Registers.read_of_lt m.registers h]
  simp [Registers.get, Nat.mod_eq_of_lt h]

theorem get_of_register {m : Machine G} {x v : UInt8} (hx : x.toNat < 16)
    (h : m.register x = .ok v) : m.registers.get x = v :=
  Except.ok.inj ((m.register_of_lt hx).symm.trans h)

/-- A register below sixteen is written without a crash. -/
theorem setRegister_of_lt (m : Machine G) {x : UInt8} (byte : UInt8) (h : x.toNat < 16) :
    m.setRegister x byte = .ok { m with registers := m.registers.set x byte } := by
  rw [setRegister, Registers.write_of_lt m.registers byte h, Checked.ok_bind]
  simp [Registers.set, Nat.mod_eq_of_lt h, pure, Except.pure]

/-! ## Handlers shared by several instructions -/

/-- The handler that changes one register writes what the function makes of it. -/
theorem map_eq (m : Machine G) {x : UInt8} (h : x.toNat < 16) (f : UInt8 → UInt8) :
    m.mapRegister x f =
      .ok (.done { m with registers := m.registers.set x (f (m.registers.get x)) }) := by
  rw [mapRegister, register_of_lt m h, Checked.ok_bind, setRegister_of_lt m _ h]
  rfl

/-- The handler that combines two registers writes the result to the first. -/
theorem combine_eq (m : Machine G) {x y : UInt8} (hx : x.toNat < 16) (hy : y.toNat < 16)
    (f : UInt8 → UInt8 → UInt8) :
    m.combineRegisters x y f =
      .ok (.done { m with
        registers := m.registers.set x (f (m.registers.get x) (m.registers.get y)) }) := by
  rw [combineRegisters, register_of_lt m hx, Checked.ok_bind, register_of_lt m hy,
    Checked.ok_bind, setRegister_of_lt m _ hx]
  rfl

/-- The handler of a result with a flag writes the result first and the flag after it, which
therefore wins in register 15. -/
theorem setWithFlag_eq (m : Machine G) {x : UInt8} (h : x.toNat < 16) (byte : UInt8)
    (flag : Bool) :
    m.setWithFlag x byte flag =
      .ok (.done { m with registers := (m.registers.set x byte).writeFlag flag }) := by
  rw [setWithFlag, setRegister_of_lt m _ h]
  rfl

theorem skipIfRegister_eq (m : Machine G) {x : UInt8} (h : x.toNat < 16)
    (test : UInt8 → Bool) :
    m.skipIfRegister x test = .ok (.done (m.skipIf (test (m.registers.get x)))) := by
  rw [skipIfRegister, register_of_lt m h]
  rfl

theorem skipIfRegisters_eq (m : Machine G) {x y : UInt8} (hx : x.toNat < 16)
    (hy : y.toNat < 16) (test : UInt8 → UInt8 → Bool) :
    m.skipIfRegisters x y test =
      .ok (.done (m.skipIf (test (m.registers.get x) (m.registers.get y)))) := by
  rw [skipIfRegisters, register_of_lt m hx, Checked.ok_bind, register_of_lt m hy]
  rfl

/-- A skip moves the program counter and nothing else. -/
theorem skipIf_eq (m : Machine G) (condition : Bool) :
    m.skipIf condition =
      m.setPc (if condition then m.registers.pc + 2 else m.registers.pc) := by
  cases condition <;> rfl

/-! ## Refusals -/

/-- Why an instruction is refused after its fetch, if it is. -/
def refusal? (m : Machine G) : Instruction → Option Fault
  | .ret =>
    if m.registers.stack.depth = 0 then some (.stackUnderflow m.instructionAddress) else none
  | .call _ =>
    if m.registers.stack.depth.toNat < 16 then none
    else some (.stackOverflow m.instructionAddress)
  | .skipIfKey x | .skipUnlessKey x =>
    if (m.registers.get x).toNat < 16 then none
    else some (.invalidKey (m.registers.get x) m.instructionAddress)
  | _ => none

/-- A return is refused exactly if no return address is in use. -/
theorem refusal?_ret_eq_none_iff (m : Machine G) :
    m.refusal? .ret = none ↔ 0 < m.registers.stack.depth.toNat := by
  simp only [refusal?, ite_eq_right_iff, reduceCtorEq, imp_false, CallStack.depth_eq_zero_iff]
  omega

/-- A call is refused exactly if all sixteen slots are in use. -/
theorem refusal?_call_eq_none_iff (m : Machine G) (addr : UInt16) :
    m.refusal? (.call addr) = none ↔ m.registers.stack.depth.toNat < 16 := by
  simp only [refusal?, ite_eq_left_iff, reduceCtorEq, imp_false, not_not]

/-! ## Effects, part by part -/

/-- Whether an instruction skips the next one. -/
def skips (m : Machine G) : Instruction → Bool
  | .skipIfByte x kk => m.registers.get x == kk
  | .skipUnlessByte x kk => m.registers.get x != kk
  | .skipIfSame x y => m.registers.get x == m.registers.get y
  | .skipUnlessSame x y => m.registers.get x != m.registers.get y
  | .skipIfKey x => m.keypad.isPressed (m.registers.get x)
  | .skipUnlessKey x => !m.keypad.isPressed (m.registers.get x)
  | _ => false

/-- The program counter after an instruction. -/
def nextPc (m : Machine G) : Instruction → UInt16
  | .ret => m.registers.stack.newest
  | .jump addr | .call addr => addr
  | .jumpOffset addr => addr + (m.registers.get 0).toUInt16
  | .waitKey _ =>
    if m.keypad.firstPressed?.isSome then m.registers.pc else m.registers.pc - 2
  | ins => if m.skips ins then m.registers.pc + 2 else m.registers.pc

/-- The index register after an instruction. -/
def nextIndex (m : Machine G) : Instruction → UInt16
  | .setIndex addr => addr
  | .addIndex x => m.registers.i + (m.registers.get x).toUInt16
  | .glyph x => Glyphs.start + Glyphs.height * (m.registers.get x).toUInt16
  | _ => m.registers.i

/-- The call stack after an instruction. -/
def nextStack (m : Machine G) : Instruction → CallStack
  | .ret => m.registers.stack.popped
  | .call _ => m.registers.stack.pushed m.registers.pc
  | _ => m.registers.stack

/-- The sprite that a drawing instruction takes from memory. -/
def sprite (m : Machine G) (n : UInt8) : List UInt8 :=
  m.memory.readBlock m.registers.i n.toNat

/-- The screen and the collision flag after a drawing instruction. -/
def drawn (m : Machine G) (x y n : UInt8) : Screen × Bool :=
  m.screen.draw (m.registers.get x) (m.registers.get y) (m.sprite n)

/-- The memory after an instruction. -/
def nextMemory (m : Machine G) : Instruction → Memory
  | .storeDecimal x =>
    let vx := m.registers.get x
    m.memory.load m.registers.i [vx / 100, vx / 10 % 10, vx % 10]
  | .storeRegisters x =>
    m.memory.load m.registers.i (m.registers.v.toList.take (x.toNat + 1))
  | _ => m.memory

/-- The screen after an instruction. -/
def nextScreen (m : Machine G) : Instruction → Screen
  | .clearScreen => .blank
  | .draw x y n => (m.drawn x y n).1
  | _ => m.screen

/-- The timers after an instruction. -/
def nextTimers (m : Machine G) : Instruction → Timers
  | .setDelay x => { m.timers with delay := m.registers.get x }
  | .setSound x => { m.timers with sound := m.registers.get x }
  | _ => m.timers

/-- The byte registers after bytes from memory took the place of the first of
them. -/
def loaded (m : Machine G) (x : UInt8) : Vector UInt8 16 :=
  .ofFn fun k =>
    (m.memory.readBlock m.registers.i (x.toNat + 1))[k.val]?.getD (m.registers.v.get k)

variable [RandomSource G]

/-- The byte registers after an instruction. -/
def nextBytes (m : Machine G) : Instruction → Vector UInt8 16
  | .setByte x kk => (m.registers.set x kk).v
  | .addByte x kk => (m.registers.set x (m.registers.get x + kk)).v
  | .copy x y => (m.registers.set x (m.registers.get y)).v
  | .or x y => (m.registers.set x (m.registers.get x ||| m.registers.get y)).v
  | .and x y => (m.registers.set x (m.registers.get x &&& m.registers.get y)).v
  | .xor x y => (m.registers.set x (m.registers.get x ^^^ m.registers.get y)).v
  | .add x y =>
    let vx := m.registers.get x
    let vy := m.registers.get y
    ((m.registers.set x (vx + vy)).writeFlag (decide (256 ≤ vx.toNat + vy.toNat))).v
  | .sub x y =>
    let vx := m.registers.get x
    let vy := m.registers.get y
    ((m.registers.set x (vx - vy)).writeFlag (decide (vy ≤ vx))).v
  | .shiftRight x =>
    let vx := m.registers.get x
    ((m.registers.set x (vx >>> 1)).writeFlag (vx &&& 0x01 != 0)).v
  | .subFrom x y =>
    let vx := m.registers.get x
    let vy := m.registers.get y
    ((m.registers.set x (vy - vx)).writeFlag (decide (vy - vx < vy))).v
  | .shiftLeft x =>
    let vx := m.registers.get x
    ((m.registers.set x (vx <<< 1)).writeFlag (vx &&& 0x80 != 0)).v
  | .random x kk =>
    (m.registers.set x ((RandomSource.next m.random).1.toUInt8 &&& kk)).v
  | .draw x y n => (m.registers.writeFlag (m.drawn x y n).2).v
  | .waitKey x =>
    match m.keypad.firstPressed? with
    | some key => (m.registers.set x key).v
    | none => m.registers.v
  | .getDelay x => (m.registers.set x m.timers.delay).v
  | .loadRegisters x => m.loaded x
  | _ => m.registers.v

/-- The random source after an instruction. -/
def nextRandom (m : Machine G) : Instruction → G
  | .random _ _ => (RandomSource.next m.random).2
  | _ => m.random

/-- The machine after an instruction that is not refused. -/
def effect (m : Machine G) (ins : Instruction) : Machine G :=
  { m with
    registers :=
      { m.registers with
        v := m.nextBytes ins
        i := m.nextIndex ins
        pc := m.nextPc ins
        stack := m.nextStack ins }
    memory := m.nextMemory ins
    screen := m.nextScreen ins
    timers := m.nextTimers ins
    random := m.nextRandom ins }

/-- What an instruction writes to the log. -/
def remarks (m : Machine G) (ins : Instruction) : Array Log.Entry :=
  if ins.isIgnored then #[.ignored ins m.instructionAddress] else #[]

/-- What an instruction comes to. -/
def executed (m : Machine G) (ins : Instruction) : Outcome G :=
  { machine := if (m.refusal? ins).isSome then m else m.effect ins
    fault := m.refusal? ins
    log := m.remarks ins }

/-! ## Handlers of single instructions -/

/-- A call refuses on a full stack, else pushes and jumps. -/
theorem call_eq (m : Machine G) (addr : UInt16) :
    m.callSubroutine addr = .ok (m.executed (.call addr)) := by
  rw [callSubroutine, CallStack.push_eq, Checked.ok_bind]
  by_cases h : m.registers.stack.depth.toNat < 16
  · simp only [if_pos h, executed, refusal?]
    rfl
  · simp only [if_neg h, executed, refusal?]
    rfl

/-- A return refuses on an empty stack, else pops and jumps; the bound on the depth keeps
the slot number in range. -/
theorem ret_eq {m : Machine G} (hdepth : m.registers.stack.depth.toNat ≤ 16) :
    m.returnFromSubroutine = .ok (m.executed .ret) := by
  rw [returnFromSubroutine, CallStack.pop_eq hdepth, Checked.ok_bind]
  by_cases h : m.registers.stack.depth = 0
  · simp only [if_pos h, executed, refusal?]
    rfl
  · simp only [if_neg h, executed, refusal?]
    rfl

/-- The addition sets its flag on a carry. -/
theorem add_eq (m : Machine G) {x y : UInt8} (hx : x.toNat < 16) (hy : y.toNat < 16) :
    m.addRegisters x y = .ok (m.executed (.add x y)) := by
  rw [addRegisters, register_of_lt m hx, Checked.ok_bind, register_of_lt m hy, Checked.ok_bind,
    setWithFlag_eq m hx]
  rfl

/-- The subtraction sets its flag unless it borrows. -/
theorem sub_eq (m : Machine G) {x y : UInt8} (hx : x.toNat < 16) (hy : y.toNat < 16) :
    m.subRegisters x y = .ok (m.executed (.sub x y)) := by
  rw [subRegisters, register_of_lt m hx, Checked.ok_bind, register_of_lt m hy, Checked.ok_bind,
    setWithFlag_eq m hx]
  rfl

/-- The reversed subtraction sets its flag if the difference is below the minuend. -/
theorem subFrom_eq (m : Machine G) {x y : UInt8} (hx : x.toNat < 16) (hy : y.toNat < 16) :
    m.subFromRegisters x y = .ok (m.executed (.subFrom x y)) := by
  rw [subFromRegisters, register_of_lt m hx, Checked.ok_bind, register_of_lt m hy, Checked.ok_bind,
    setWithFlag_eq m hx]
  rfl

theorem shiftRight_eq (m : Machine G) {x : UInt8} (h : x.toNat < 16) :
    m.shiftRegisterRight x = .ok (m.executed (.shiftRight x)) := by
  rw [shiftRegisterRight, register_of_lt m h, Checked.ok_bind, setWithFlag_eq m h]
  rfl

theorem shiftLeft_eq (m : Machine G) {x : UInt8} (h : x.toNat < 16) :
    m.shiftRegisterLeft x = .ok (m.executed (.shiftLeft x)) := by
  rw [shiftRegisterLeft, register_of_lt m h, Checked.ok_bind, setWithFlag_eq m h]
  rfl

/-- Both skips on a key refuse a register that holds no key number, before they look at the
keypad. -/
theorem skipOnKey_eq (m : Machine G) {x : UInt8} (h : x.toNat < 16) :
    m.skipOnKey x true = .ok (m.executed (.skipIfKey x)) ∧
      m.skipOnKey x false = .ok (m.executed (.skipUnlessKey x)) := by
  simp only [skipOnKey, register_of_lt m h, Checked.ok_bind, executed, refusal?]
  by_cases hkey : (m.registers.get x).toNat < 16
  · simp only [if_pos hkey, skipIf_eq, beq_true, beq_false]
    constructor <;> rfl
  · simp only [if_neg hkey]
    constructor <;> rfl

/-- The wait for a key either stores the lowest pressed key or steps back onto itself. -/
theorem waitForKey_eq (m : Machine G) {x : UInt8} (h : x.toNat < 16) :
    m.waitForKey x = .ok (m.executed (.waitKey x)) := by
  rw [waitForKey]
  cases hkey : m.keypad.firstPressed? with
  | none =>
      have hbytes : m.nextBytes (.waitKey x) = m.registers.v := by rw [nextBytes, hkey]
      have hpc : m.nextPc (.waitKey x) = m.registers.pc - 2 := by rw [nextPc, hkey]; rfl
      simp only [executed, refusal?, effect, hbytes, hpc]
      rfl
  | some key =>
      have hbytes : m.nextBytes (.waitKey x) = (m.registers.set x key).v := by
        rw [nextBytes, hkey]
      have hpc : m.nextPc (.waitKey x) = m.registers.pc := by rw [nextPc, hkey]; rfl
      simp only [setRegister_of_lt m key h, executed, refusal?, effect, hbytes, hpc]
      rfl

/-- The random instruction masks one word drawn from the source. -/
theorem drawRandom_eq (m : Machine G) {x : UInt8} (kk : UInt8) (h : x.toNat < 16) :
    m.drawRandom x kk = .ok (m.executed (.random x kk)) := by
  rw [drawRandom]
  cases hnext : RandomSource.next m.random with
  | mk word random =>
      simp only [setRegister_of_lt _ _ h, executed, refusal?, effect, nextBytes, nextRandom, hnext]
      rfl

/-- The drawing instruction plots the bytes that the index register points at. -/
theorem drawSprite_eq (m : Machine G) {x y n : UInt8} (hx : x.toNat < 16)
    (hy : y.toNat < 16) (hn : n.toNat < 16) :
    m.drawSprite x y n = .ok (m.executed (.draw x y n)) := by
  have hrows : m.spriteRows n = .ok (m.sprite n) := by
    rw [spriteRows, if_pos (Nat.le_of_lt_succ hn), Memory.readCells_eq]
    rfl
  rw [drawSprite, hrows, Checked.ok_bind, register_of_lt m hx, Checked.ok_bind,
    register_of_lt m hy, Checked.ok_bind, Screen.plot_eq]
  rfl

/-- The glyph address is computed without a crash: the last one of a byte is `0x050 + 5 *
255`, far below the limit of a word. -/
theorem pointAtGlyph_eq (m : Machine G) {x : UInt8} (h : x.toNat < 16) :
    m.pointAtGlyph x = .ok (m.executed (.glyph x)) := by
  have hbyte : (m.registers.get x).toUInt16.toNat < 256 := by
    rw [UInt8.toNat_toUInt16]
    exact (m.registers.get x).toNat_lt
  have hsize : UInt16.size = 65536 := rfl
  have hheight : Glyphs.height.toNat = 5 := rfl
  have hstart : Glyphs.start.toNat = 80 := rfl
  have hmul : Checked.mulWord Glyphs.height (m.registers.get x).toUInt16 =
      .ok (Glyphs.height * (m.registers.get x).toUInt16) := by
    apply Checked.mulWord_of_lt
    rw [hheight]
    omega
  have hproduct : (Glyphs.height * (m.registers.get x).toUInt16).toNat =
      5 * (m.registers.get x).toUInt16.toNat := by
    rw [UInt16.toNat_mul, hheight]
    exact Nat.mod_eq_of_lt (by omega)
  have hadd : Checked.addWord Glyphs.start (Glyphs.height * (m.registers.get x).toUInt16) =
      .ok (Glyphs.start + Glyphs.height * (m.registers.get x).toUInt16) := by
    apply Checked.addWord_of_lt
    rw [hstart, hproduct]
    omega
  rw [pointAtGlyph, register_of_lt m h, Checked.ok_bind, hmul, Checked.ok_bind, hadd]
  rfl

/-- The jump with an offset adds without a crash, since its address has twelve bits. -/
theorem jumpWithOffset_eq (m : Machine G) {addr : UInt16} (h : addr.toNat < 4096) :
    m.jumpWithOffset addr = .ok (m.executed (.jumpOffset addr)) := by
  have hadd : Checked.addWord addr m.registers.v[0].toUInt16 =
      .ok (addr + m.registers.v[0].toUInt16) := by
    apply Checked.addWord_of_lt
    have hbyte := m.registers.v[0].toNat_lt
    have hsize : UInt16.size = 65536 := rfl
    rw [UInt8.toNat_toUInt16]
    omega
  rw [jumpWithOffset, hadd]
  rfl

/-- The decimal digits of a register are stored in three cells from the index register on. -/
theorem writeDecimal_eq (m : Machine G) {x : UInt8} (h : x.toNat < 16) :
    m.writeDecimal x = .ok (m.executed (.storeDecimal x)) := by
  rw [writeDecimal, register_of_lt m h, Checked.ok_bind, Memory.writeCells_eq]
  rfl

/-- The registers up to the operand are stored from the index register on. -/
theorem writeRegisters_eq (m : Machine G) {x : UInt8} (h : x.toNat < 16) :
    m.writeRegisters x = .ok (m.executed (.storeRegisters x)) := by
  simp only [writeRegisters, if_pos h, Memory.writeCells_eq]
  rfl

/-- The registers up to the operand are loaded from the index register on. -/
theorem readRegisters_eq (m : Machine G) {x : UInt8} (h : x.toNat < 16) :
    m.readRegisters x = .ok (m.executed (.loadRegisters x)) := by
  rw [readRegisters, if_pos h, Memory.readCells_eq]
  rfl

/-! ## The instruction set -/

/-- With operands in range an instruction never crashes, unless it returns with more than
sixteen return addresses said to be in use. -/
theorem execute_eq_of_ret {m : Machine G} {ins : Instruction} (hins : ins.InRange)
    (hdepth : ins = .ret → m.registers.stack.depth.toNat ≤ 16) :
    m.execute ins = .ok (m.executed ins) := by
  cases ins with
  | clearScreen => rfl
  | ret => exact ret_eq (hdepth rfl)
  | hostCall addr => rfl
  | jump addr => rfl
  | call addr => exact call_eq m addr
  | skipIfByte x kk => rw [execute, skipIfRegister_eq m hins, skipIf_eq]; rfl
  | skipUnlessByte x kk => rw [execute, skipIfRegister_eq m hins, skipIf_eq]; rfl
  | skipIfSame x y => rw [execute, skipIfRegisters_eq m hins.1 hins.2, skipIf_eq]; rfl
  | skipUnlessSame x y => rw [execute, skipIfRegisters_eq m hins.1 hins.2, skipIf_eq]; rfl
  | setByte x kk => rw [execute, setRegister_of_lt m kk hins]; rfl
  | addByte x kk => exact map_eq m hins _
  | copy x y =>
      rw [execute, register_of_lt m hins.2, Checked.ok_bind, setRegister_of_lt m _ hins.1]
      rfl
  | or x y => exact combine_eq m hins.1 hins.2 _
  | and x y => exact combine_eq m hins.1 hins.2 _
  | xor x y => exact combine_eq m hins.1 hins.2 _
  | add x y => exact add_eq m hins.1 hins.2
  | sub x y => exact sub_eq m hins.1 hins.2
  | shiftRight x => exact shiftRight_eq m hins
  | subFrom x y => exact subFrom_eq m hins.1 hins.2
  | shiftLeft x => exact shiftLeft_eq m hins
  | setIndex addr => rfl
  | jumpOffset addr => exact jumpWithOffset_eq m hins
  | random x kk => exact drawRandom_eq m kk hins
  | draw x y n => exact drawSprite_eq m hins.1 hins.2.1 hins.2.2
  | skipIfKey x => exact (skipOnKey_eq m hins).1
  | skipUnlessKey x => exact (skipOnKey_eq m hins).2
  | waitKey x => exact waitForKey_eq m hins
  | getDelay x => rw [execute, setRegister_of_lt m _ hins]; rfl
  | setDelay x => rw [execute, register_of_lt m hins]; rfl
  | setSound x => rw [execute, register_of_lt m hins]; rfl
  | addIndex x => rw [execute, register_of_lt m hins]; rfl
  | glyph x => exact pointAtGlyph_eq m hins
  | storeDecimal x => exact writeDecimal_eq m hins
  | storeRegisters x => exact writeRegisters_eq m hins
  | loadRegisters x => exact readRegisters_eq m hins
  | unassigned opcode => rfl

/-- With operands in range and at most sixteen return addresses an instruction
never crashes: it is refused and changes nothing, or it has its effect on every
part. -/
theorem execute_eq {m : Machine G} {ins : Instruction} (hins : ins.InRange)
    (hdepth : m.registers.stack.depth.toNat ≤ 16) :
    m.execute ins = .ok (m.executed ins) :=
  execute_eq_of_ret hins fun _ => hdepth

/-- Where a return comes to an outcome, at most sixteen return addresses are said to be in
use. -/
theorem depth_le_of_execute_ret {m : Machine G} {outcome : Outcome G}
    (h : m.execute .ret = .ok outcome) : m.registers.stack.depth.toNat ≤ 16 := by
  by_contra hlt
  rw [execute, returnFromSubroutine, CallStack.pop_of_lt (Nat.lt_of_not_le hlt)] at h
  cases h

/-- Wherever an instruction comes to an outcome, it is the one computed without checks. -/
theorem eq_executed_of_execute {m : Machine G} {ins : Instruction} {outcome : Outcome G}
    (hins : ins.InRange) (h : m.execute ins = .ok outcome) : outcome = m.executed ins := by
  have hdepth : ins = .ret → m.registers.stack.depth.toNat ≤ 16 := by
    rintro rfl
    exact depth_le_of_execute_ret h
  rw [execute_eq_of_ret hins hdepth] at h
  exact (Except.ok.inj h).symm

end Machine

end Chip8
