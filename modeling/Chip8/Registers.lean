import Chip8.CallStack

/-!
# Registers

Sixteen byte registers V0 to VF, the index register, the program counter, the
instruction word fetched last, and the call stack.  Instructions use VF for
their flags.

Main results:

- Theorem `Registers.read_of_write`: writing a register is seen in that register
  and nowhere else.
-/

namespace Chip8

/-- What the processor holds outside memory. -/
structure Registers where
  /-- The byte registers V0 to VF. -/
  v : Vector UInt8 16
  /-- The index register. -/
  i : UInt16
  /-- The address of the next instruction. -/
  pc : UInt16
  /-- The instruction word fetched last. -/
  opcode : UInt16
  /-- The call stack. -/
  stack : CallStack
  deriving DecidableEq

namespace Registers

/-- How many byte registers there are. -/
def count : Nat := 16

/-- Everything zero. -/
def zero : Registers :=
  { v := .replicate 16 0, i := 0, pc := 0, opcode := 0, stack := .empty }

/-- The flag register VF. -/
def vf (regs : Registers) : UInt8 := regs.v[15]

/-- The byte in the register numbered by the low nibble of `x`. -/
def get (regs : Registers) (x : UInt8) : UInt8 := regs.v[x.toNat % 16]

/-- The registers with the one numbered by the low nibble of `x` replaced. -/
def set (regs : Registers) (x byte : UInt8) : Registers :=
  { regs with v := regs.v.set (x.toNat % 16) byte }

/-- The byte in register `x`. -/
def read (regs : Registers) (x : UInt8) : Checked UInt8 :=
  Checked.index regs.v x.toNat

/-- The registers with register `x` replaced. -/
def write (regs : Registers) (x byte : UInt8) : Checked Registers := do
  let v ← Checked.update regs.v x.toNat byte
  return { regs with v }

/-- The registers with the flag register set to one or zero. -/
def writeFlag (regs : Registers) (flag : Bool) : Registers :=
  { regs with v := regs.v.set 15 flag.toUInt8 }

/-- Registers below sixteen can be read. -/
theorem read_of_lt (regs : Registers) {x : UInt8} (h : x.toNat < 16) :
    regs.read x = .ok regs.v[x.toNat] :=
  Checked.index_of_lt regs.v h

/-- Registers below sixteen can be written. -/
theorem write_of_lt (regs : Registers) {x : UInt8} (byte : UInt8) (h : x.toNat < 16) :
    regs.write x byte = .ok { regs with v := regs.v.set x.toNat byte } := by
  rw [write, Checked.update_of_lt regs.v byte h, Checked.ok_bind]
  rfl

/-- Writing a register is seen in that register and nowhere else. -/
theorem read_of_write {regs written : Registers} {x byte : UInt8}
    (h : regs.write x byte = .ok written) (y : UInt8) :
    written.read y = if x = y then .ok byte else regs.read y := by
  by_cases hx : x.toNat < 16
  · rw [write_of_lt regs byte hx] at h
    obtain rfl := Except.ok.inj h
    by_cases hy : y.toNat < 16
    · simp [read_of_lt, hy, Vector.getElem_set, UInt8.toNat_inj]
      split <;> rfl
    · have hne : x ≠ y := by rintro rfl; exact hy hx
      simp [read, Checked.index, hy, hne]
  · rw [write, Checked.update, dif_neg hx, Checked.error_bind] at h
    cases h

theorem read_set (regs : Registers) {x : UInt8} (byte : UInt8) (h : x.toNat < 16) (y : UInt8) :
    (regs.set x byte).read y = if x = y then .ok byte else regs.read y := by
  have hwrite : regs.write x byte = .ok (regs.set x byte) := by
    rw [write_of_lt regs byte h, set]
    simp only [Nat.mod_eq_of_lt h]
  exact read_of_write hwrite y

end Registers

end Chip8
