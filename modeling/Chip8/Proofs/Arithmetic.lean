import Mathlib.Data.Nat.Bitwise
import Chip8.Proofs.Step
import Chip8.Random.Lcg

/-!
# Arithmetic on registers

Bytes wrap around.  The arithmetic instructions put what is lost by it into the flag, so
that result and flag together satisfy an equation between whole numbers.  Both operands are
read before anything is written, and the flag is written last: it wins where the result
belongs into the flag register too.  The subtraction from a register compares with the
result and not with the operand.

Main results:

- Theorems `Byte.toNat_add_carry`, `Byte.toNat_sub_borrow`, `Byte.toNat_sub_eq_emod`,
  `Byte.toNat_shiftRight_one` and `Byte.toNat_shiftLeft_one`: the equations on bytes.
- Theorem `Registers.read_set_writeFlag`: what a result and then a flag leave in the
  registers.
- Theorems `Machine.computes_add`, `computes_sub`, `computes_shiftRight`,
  `computes_shiftLeft` and `computes_subFrom`: the equation of each instruction.
- Theorem `Machine.arithmetic_law`: the equations for every step, whichever registers are the
  same.
-/

namespace Chip8

/-! ## Bytes -/

namespace Byte

variable (a b : UInt8)

/-- The carry makes up for what the sum of two bytes loses. -/
theorem toNat_add_carry :
    a.toNat + b.toNat = (a + b).toNat + 256 * (decide (256 ≤ a.toNat + b.toNat)).toNat := by
  have ha := a.toNat_lt
  have hb := b.toNat_lt
  rw [UInt8.toNat_add]
  by_cases hcarry : 256 ≤ a.toNat + b.toNat
  · rw [decide_eq_true hcarry, Bool.toNat_true]
    omega
  · rw [decide_eq_false hcarry, Bool.toNat_false]
    omega

/-- What is borrowed makes up for what the difference of two bytes gains. -/
theorem toNat_sub_borrow :
    a.toNat + 256 * (1 - (decide (b ≤ a)).toNat) = b.toNat + (a - b).toNat := by
  have ha := a.toNat_lt
  have hb := b.toNat_lt
  rw [UInt8.toNat_sub, decide_eq_decide.mpr UInt8.le_iff_toNat_le]
  by_cases hle : b.toNat ≤ a.toNat
  · rw [decide_eq_true hle, Bool.toNat_true]
    omega
  · rw [decide_eq_false hle, Bool.toNat_false]
    omega

/-- The difference of two bytes is that of the numbers, reduced to a byte. -/
theorem toNat_sub_eq_emod : ((b - a).toNat : Int) = ((b.toNat : Int) - a.toNat) % 256 := by
  have ha := a.toNat_lt
  have hb := b.toNat_lt
  rw [UInt8.toNat_sub]
  omega

/-- A byte is above its difference from another one exactly if something is taken from it
and nothing is borrowed. -/
theorem sub_lt_iff : b - a < b ↔ 0 < a.toNat ∧ a.toNat ≤ b.toNat := by
  have ha := a.toNat_lt
  have hb := b.toNat_lt
  rw [UInt8.lt_iff_toNat_lt, UInt8.toNat_sub]
  omega

/-- A mask of a single bit tests that bit. -/
theorem and_ne_zero_eq_testBit (mask : UInt8) {i : Nat} (hmask : mask.toNat = 1 <<< i) :
    (a &&& mask != 0) = a.toNat.testBit i := by
  rw [Nat.one_shiftLeft] at hmask
  have hand : (a &&& mask).toNat = (a.toNat.testBit i).toNat * mask.toNat := by
    rw [UInt8.toNat_and, hmask, Nat.and_two_pow]
  have hpos : mask.toNat ≠ 0 := by
    rw [hmask]
    exact Nat.ne_of_gt (Nat.two_pow_pos i)
  have hzero : a &&& mask = 0 ↔ a.toNat.testBit i = false := by
    rw [← UInt8.toNat_inj, hand]
    cases a.toNat.testBit i <;> simp [hpos]
  rw [Bool.eq_iff_iff, bne_iff_ne, ne_eq, hzero, Bool.not_eq_false]

/-- A byte is twice its half and the bit shifted out. -/
theorem toNat_shiftRight_one :
    a.toNat = 2 * (a >>> 1).toNat + (a &&& 0x01 != 0).toNat := by
  have hhalf : (a >>> 1).toNat = a.toNat / 2 := by
    rw [UInt8.toNat_shiftRight]
    exact Nat.shiftRight_eq_div_pow _ 1
  rw [and_ne_zero_eq_testBit a 0x01 (i := 0) rfl, Nat.toNat_testBit, hhalf]
  omega

/-- Twice a byte is its double and, above it, the bit shifted out. -/
theorem toNat_shiftLeft_one :
    2 * a.toNat = (a <<< 1).toNat + 256 * (a &&& 0x80 != 0).toNat := by
  have hlt := a.toNat_lt
  have hdouble : (a <<< 1).toNat = a.toNat * 2 % 256 := by
    rw [UInt8.toNat_shiftLeft]
    exact congrArg (· % 256) (Nat.shiftLeft_eq _ 1)
  rw [and_ne_zero_eq_testBit a 0x80 (i := 7) rfl, Nat.toNat_testBit, hdouble]
  omega

end Byte

/-! ## Writing a result and a flag -/

/-- After a result is written, its register holds it and the others hold what they held. -/
theorem Registers.read_set_eq (regs : Registers) {x : UInt8} (byte : UInt8) (h : x.toNat < 16)
    (k : UInt8) : (regs.set x byte).read k = if k = x then .ok byte else regs.read k := by
  rw [read_set regs byte h]
  simp only [eq_comm]

/-- After a result and then a flag are written, the flag register holds the flag, whatever
the register of the result is, and the other registers hold what they held. -/
theorem Registers.read_set_writeFlag (regs : Registers) {x : UInt8} (byte : UInt8) (flag : Bool)
    (h : x.toNat < 16) (k : UInt8) :
    ((regs.set x byte).writeFlag flag).read k =
      if k = 15 then .ok flag.toUInt8 else if k = x then .ok byte else regs.read k := by
  have hflag : (regs.set x byte).writeFlag flag = (regs.set x byte).set 15 flag.toUInt8 := rfl
  rw [hflag, read_set_eq _ _ (by decide), read_set_eq _ _ h]

namespace Machine

variable {G : Type} {m : Machine G} {ins : Instruction}

/-! ## Fetching -/

/-- The members of family 8 are told apart by the lowest nibble. -/
theorem fetched_of_family_arithmetic (h : Opcode.family m.opcodeAt = 0x8) :
    m.fetched = .decodeArithmetic m.opcodeAt := by
  rw [fetched, Instruction.decode, h]
  rfl

/-- Family 7 has one member. -/
theorem fetched_of_family_addByte (h : Opcode.family m.opcodeAt = 0x7) :
    m.fetched = .addByte (Opcode.x m.opcodeAt) (Opcode.kk m.opcodeAt) := by
  rw [fetched, Instruction.decode, h]
  rfl

/-! ## Steps that assign to byte registers -/

/-- A step that is not refused and changes nothing beyond its fetch but the byte registers,
which then read as given. -/
structure Assigns (m : Machine G) (bytes : UInt8 → Checked UInt8) (outcome : Outcome G) :
    Prop where
  success : outcome.fault = none
  register : ∀ k, outcome.machine.register k = bytes k
  rest : outcome.machine =
    { m.afterFetch with
      registers := { m.afterFetch.registers with v := outcome.machine.registers.v } }

variable [RandomSource G]

/-- Below the limit of the tick count a step comes to a result and a flag that satisfy an
equation: the flag goes to VF, the result to Vx if that is another register, and nothing else
changes beyond the fetch. -/
def Computes (m : Machine G) (x : UInt8) (equation : UInt8 → Bool → Prop) : Prop :=
  m.Full ∨ ∃ outcome result flag, m.step = .ok outcome ∧ equation result flag ∧
    m.Assigns (fun k =>
      if k = 15 then .ok flag.toUInt8 else if k = x then .ok result else m.register k) outcome

/-- An instruction whose effect is on the byte registers alone assigns to them. -/
theorem assigns_stepped (regs : Registers) (hins : m.fetched = ins) (hret : ins ≠ .ret)
    (hsuccess : m.afterFetch.refusal? ins = none)
    (heffect : m.afterFetch.effect ins =
      { m.afterFetch with registers := { m.afterFetch.registers with v := regs.v } })
    (hfull : ¬m.Full) : m.step = .ok m.stepped ∧ m.Assigns regs.read m.stepped := by
  obtain ⟨hfault, hmachine⟩ := stepped_of_fetched hins hsuccess
  rw [heffect] at hmachine
  refine ⟨step_of_fetched hins hret hfull, hfault, ?_, ?_⟩
  · intro k
    rw [hmachine]
    rfl
  · rw [hmachine]

/-- An instruction that writes a result and then a flag computes what the two satisfy. -/
theorem computes_of_effect {x result : UInt8} {flag : Bool} {equation : UInt8 → Bool → Prop}
    (hins : m.fetched = ins) (hret : ins ≠ .ret) (hx : ins.InRange → x.toNat < 16)
    (hsuccess : m.afterFetch.refusal? ins = none)
    (heffect : m.afterFetch.effect ins =
      { m.afterFetch with
        registers := { m.afterFetch.registers with
          v := ((m.registers.set x result).writeFlag flag).v } })
    (hequation : equation result flag) : m.Computes x equation := by
  by_cases hfull : m.Full
  · exact Or.inl hfull
  · obtain ⟨hstep, hassigns⟩ :=
      assigns_stepped ((m.registers.set x result).writeFlag flag) hins hret hsuccess heffect hfull
    have hrange : x.toNat < 16 := hx (inRange_of_fetched hins)
    rw [funext (m.registers.read_set_writeFlag result flag hrange)] at hassigns
    exact Or.inr ⟨m.stepped, result, flag, hstep, hequation, hassigns⟩

/-! ## Single instructions -/

section Instructions

variable {x y kk : UInt8}

theorem computes_add (hins : m.fetched = .add x y) :
    m.Computes x fun result flag =>
      (m.registers.get x).toNat + (m.registers.get y).toNat =
        result.toNat + 256 * flag.toNat :=
  computes_of_effect hins (by simp) And.left rfl rfl (Byte.toNat_add_carry _ _)

theorem computes_sub (hins : m.fetched = .sub x y) :
    m.Computes x fun result flag =>
      (m.registers.get x).toNat + 256 * (1 - flag.toNat) =
          (m.registers.get y).toNat + result.toNat ∧
        (flag = true ↔ m.registers.get y ≤ m.registers.get x) :=
  computes_of_effect hins (by simp) And.left rfl rfl
    ⟨Byte.toNat_sub_borrow _ _, decide_eq_true_iff⟩

theorem computes_shiftRight (hins : m.fetched = .shiftRight x) :
    m.Computes x fun result flag =>
      (m.registers.get x).toNat = 2 * result.toNat + flag.toNat :=
  computes_of_effect hins (by simp) id rfl rfl (Byte.toNat_shiftRight_one _)

theorem computes_shiftLeft (hins : m.fetched = .shiftLeft x) :
    m.Computes x fun result flag =>
      2 * (m.registers.get x).toNat = result.toNat + 256 * flag.toNat :=
  computes_of_effect hins (by simp) id rfl rfl (Byte.toNat_shiftLeft_one _)

/-- The flag compares with the result, so it tells whether Vx was above zero and not above
Vy. -/
theorem computes_subFrom (hins : m.fetched = .subFrom x y) :
    m.Computes x fun result flag =>
      (result.toNat : Int) =
          (((m.registers.get y).toNat : Int) - (m.registers.get x).toNat) % 256 ∧
        (flag = true ↔ result < m.registers.get y) ∧
        (flag = true ↔ 0 < (m.registers.get x).toNat ∧
          (m.registers.get x).toNat ≤ (m.registers.get y).toNat) :=
  computes_of_effect hins (by simp) And.left rfl rfl
    ⟨Byte.toNat_sub_eq_emod _ _, decide_eq_true_iff,
      decide_eq_true_iff.trans (Byte.sub_lt_iff _ _)⟩

/-- Adding a byte writes no flag. -/
theorem assigns_addByte (hins : m.fetched = .addByte x kk) :
    m.Full ∨ ∃ outcome result, m.step = .ok outcome ∧
      result.toNat = ((m.registers.get x).toNat + kk.toNat) % 256 ∧
      m.Assigns (fun k => if k = x then .ok result else m.register k) outcome := by
  by_cases hfull : m.Full
  · exact Or.inl hfull
  · obtain ⟨hstep, hassigns⟩ :=
      assigns_stepped (m.registers.set x (m.registers.get x + kk)) hins (by simp) rfl rfl hfull
    rw [funext (m.registers.read_set_eq _ (inRange_of_fetched hins))] at hassigns
    exact Or.inr ⟨m.stepped, _, hstep, UInt8.toNat_add _ _, hassigns⟩

end Instructions

/-! ## Every word of the two families -/

/-- Whatever the registers Vx and Vy of the word at the program counter are and whichever of
them is the other or the flag register, the members of family 8 that compute leave a result
and a flag that satisfy their equations; the shifts take nothing from Vy.  Family 7 adds its
byte to Vx and writes no flag. -/
theorem arithmetic_law {x y a b : UInt8} (hx : Opcode.x m.opcodeAt = x)
    (hy : Opcode.y m.opcodeAt = y) (ha : m.register x = .ok a) (hb : m.register y = .ok b) :
    (Opcode.family m.opcodeAt = 0x8 →
      (Opcode.n m.opcodeAt = 0x4 → m.Computes x fun result flag =>
        a.toNat + b.toNat = result.toNat + 256 * flag.toNat) ∧
      (Opcode.n m.opcodeAt = 0x5 → m.Computes x fun result flag =>
        a.toNat + 256 * (1 - flag.toNat) = b.toNat + result.toNat ∧ (flag = true ↔ b ≤ a)) ∧
      (Opcode.n m.opcodeAt = 0x6 → m.Computes x fun result flag =>
        a.toNat = 2 * result.toNat + flag.toNat) ∧
      (Opcode.n m.opcodeAt = 0xE → m.Computes x fun result flag =>
        2 * a.toNat = result.toNat + 256 * flag.toNat) ∧
      (Opcode.n m.opcodeAt = 0x7 → m.Computes x fun result flag =>
        (result.toNat : Int) = ((b.toNat : Int) - a.toNat) % 256 ∧
          (flag = true ↔ result < b) ∧ (flag = true ↔ 0 < a.toNat ∧ a.toNat ≤ b.toNat))) ∧
    (Opcode.family m.opcodeAt = 0x7 →
      m.Full ∨ ∃ outcome result, m.step = .ok outcome ∧
        result.toNat = (a.toNat + (Opcode.kk m.opcodeAt).toNat) % 256 ∧
        m.Assigns (fun k => if k = x then .ok result else m.register k) outcome) := by
  subst hx hy
  rw [register_of_lt m (Opcode.x_lt m.opcodeAt)] at ha
  rw [register_of_lt m (Opcode.y_lt m.opcodeAt)] at hb
  obtain rfl := Except.ok.inj ha
  obtain rfl := Except.ok.inj hb
  constructor
  · intro hfamily
    have hfetched := fetched_of_family_arithmetic hfamily
    refine ⟨?_, ?_, ?_, ?_, ?_⟩ <;> intro hn <;>
      rw [Instruction.decodeArithmetic, hn] at hfetched
    · exact computes_add hfetched
    · exact computes_sub hfetched
    · exact computes_shiftRight hfetched
    · exact computes_shiftLeft hfetched
    · exact computes_subFrom hfetched
  · intro hfamily
    exact assigns_addByte (fetched_of_family_addByte hfamily)

/-- A machine about to execute a word, with 200 in V1 and 7 in the flag register. -/
def poised (high low : UInt8) : Machine Lcg :=
  { powerOn Lcg.standard with
    registers := { (Registers.zero.set 1 200).set 15 7 with pc := Memory.programStart }
    memory := Memory.powerOn.load Memory.programStart [high, low] }

/-- Subtracted from itself the flag register ends up one and not zero, since the operand is
above the result; added to, it gets the sum. -/
theorem arithmetic_law_poised :
    (∃ outcome, (poised 0x8F 0xF7).step = .ok outcome ∧
      outcome.machine.register 15 = .ok 1 ∧ outcome.machine.register 1 = .ok 200) ∧
    ∃ outcome, (poised 0x7F 0xFE).step = .ok outcome ∧
      outcome.machine.register 15 = .ok 5 ∧ outcome.machine.register 1 = .ok 200 := by
  constructor
  · have hword : (poised 0x8F 0xF7).opcodeAt = 0x8FF7 := by decide +kernel
    obtain ⟨hfamily, -⟩ := arithmetic_law (m := poised 0x8F 0xF7) (x := 15) (y := 15) (a := 7)
      (b := 7) (by rw [hword]; rfl) (by rw [hword]; rfl) rfl rfl
    rw [hword] at hfamily
    obtain ⟨-, -, -, -, hsub⟩ := hfamily rfl
    obtain ⟨outcome, result, flag, hstep, ⟨-, -, hflag⟩, hassigns⟩ :=
      (hsub rfl).resolve_left (by decide)
    have hraised : flag = true := hflag.mpr (by decide)
    subst hraised
    exact ⟨outcome, hstep, hassigns.register 15, hassigns.register 1⟩
  · have hword : (poised 0x7F 0xFE).opcodeAt = 0x7FFE := by decide +kernel
    obtain ⟨-, hfamily⟩ := arithmetic_law (m := poised 0x7F 0xFE) (x := 15) (y := 15) (a := 7)
      (b := 7) (by rw [hword]; rfl) (by rw [hword]; rfl) rfl rfl
    rw [hword] at hfamily
    obtain ⟨outcome, result, hstep, hsum, hassigns⟩ := (hfamily rfl).resolve_left (by decide)
    obtain rfl : result = 5 := UInt8.toNat_inj.mp hsum
    exact ⟨outcome, hstep, hassigns.register 15, hassigns.register 1⟩

end Machine

end Chip8
