import Chip8.Instruction

/-!
# Decoding

An instruction word is read as four nibbles.  The highest names the family, the
next two usually number registers, and the low byte or nibble holds an immediate
value or tells the members of a family apart.  Where a family has no use for its
low bits they are ignored, and a word that fits no member of its family is
unassigned.

Main results:

- Theorems `Opcode.x_lt`, `Opcode.y_lt`, `Opcode.n_lt` and `Opcode.addr_lt`: the
  bounds of the fields.
- Theorem `Instruction.decode_inRange`: what is decoded names registers of the
  machine, sprites of at most fifteen rows and addresses of twelve bits.
-/

namespace Chip8

namespace Opcode

/-! ## Fields -/

/-- The highest nibble. -/
def family (opcode : UInt16) : UInt16 := opcode >>> 12

/-- The second nibble. -/
def x (opcode : UInt16) : UInt8 := ((opcode >>> 8) &&& 0xF).toUInt8

/-- The third nibble. -/
def y (opcode : UInt16) : UInt8 := ((opcode >>> 4) &&& 0xF).toUInt8

/-- The lowest nibble. -/
def n (opcode : UInt16) : UInt8 := (opcode &&& 0xF).toUInt8

/-- The low byte. -/
def kk (opcode : UInt16) : UInt8 := (opcode &&& 0xFF).toUInt8

/-- The low twelve bits. -/
def addr (opcode : UInt16) : UInt16 := opcode &&& 0xFFF

/-- The second nibble is below sixteen. -/
theorem x_lt (opcode : UInt16) : (x opcode).toNat < 16 := by
  have : ((opcode >>> 8) &&& 0xF).toNat ≤ 15 := by simpa using Nat.and_le_right
  simp only [x, UInt16.toNat_toUInt8]
  omega

/-- The third nibble is below sixteen. -/
theorem y_lt (opcode : UInt16) : (y opcode).toNat < 16 := by
  have : ((opcode >>> 4) &&& 0xF).toNat ≤ 15 := by simpa using Nat.and_le_right
  simp only [y, UInt16.toNat_toUInt8]
  omega

/-- The lowest nibble is below sixteen. -/
theorem n_lt (opcode : UInt16) : (n opcode).toNat < 16 := by
  have : (opcode &&& 0xF).toNat ≤ 15 := by simpa using Nat.and_le_right
  simp only [n, UInt16.toNat_toUInt8]
  omega

/-- The low twelve bits are below 4096. -/
theorem addr_lt (opcode : UInt16) : (addr opcode).toNat < 4096 := by
  have : (opcode &&& 0xFFF).toNat ≤ 4095 := by simpa using Nat.and_le_right
  simp only [addr]
  omega

end Opcode

namespace Instruction

open Opcode

/-! ## Families -/

/-- The members of family 0, told apart by the lowest nibble alone. -/
def decodeControl (opcode : UInt16) : Instruction :=
  match (n opcode).toNat with
  | 0x0 => .clearScreen
  | 0xE => .ret
  | _ => .hostCall (addr opcode)

/-- The members of family 8, arithmetic on two registers. -/
def decodeArithmetic (opcode : UInt16) : Instruction :=
  match (n opcode).toNat with
  | 0x0 => .copy (x opcode) (y opcode)
  | 0x1 => .or (x opcode) (y opcode)
  | 0x2 => .and (x opcode) (y opcode)
  | 0x3 => .xor (x opcode) (y opcode)
  | 0x4 => .add (x opcode) (y opcode)
  | 0x5 => .sub (x opcode) (y opcode)
  | 0x6 => .shiftRight (x opcode)
  | 0x7 => .subFrom (x opcode) (y opcode)
  | 0xE => .shiftLeft (x opcode)
  | _ => .unassigned opcode

/-- The members of family E, tests of a key, told apart by the lowest nibble
alone. -/
def decodeKey (opcode : UInt16) : Instruction :=
  match (n opcode).toNat with
  | 0x1 => .skipUnlessKey (x opcode)
  | 0xE => .skipIfKey (x opcode)
  | _ => .unassigned opcode

/-- The members of family F, told apart by the low byte. -/
def decodeDevice (opcode : UInt16) : Instruction :=
  match (kk opcode).toNat with
  | 0x07 => .getDelay (x opcode)
  | 0x0A => .waitKey (x opcode)
  | 0x15 => .setDelay (x opcode)
  | 0x18 => .setSound (x opcode)
  | 0x1E => .addIndex (x opcode)
  | 0x29 => .glyph (x opcode)
  | 0x33 => .storeDecimal (x opcode)
  | 0x55 => .storeRegisters (x opcode)
  | 0x65 => .loadRegisters (x opcode)
  | _ => .unassigned opcode

/-- The instruction that a word stands for. -/
def decode (opcode : UInt16) : Instruction :=
  match (family opcode).toNat with
  | 0x0 => decodeControl opcode
  | 0x1 => .jump (addr opcode)
  | 0x2 => .call (addr opcode)
  | 0x3 => .skipIfByte (x opcode) (kk opcode)
  | 0x4 => .skipUnlessByte (x opcode) (kk opcode)
  | 0x5 => .skipIfSame (x opcode) (y opcode)
  | 0x6 => .setByte (x opcode) (kk opcode)
  | 0x7 => .addByte (x opcode) (kk opcode)
  | 0x8 => decodeArithmetic opcode
  | 0x9 => .skipUnlessSame (x opcode) (y opcode)
  | 0xA => .setIndex (addr opcode)
  | 0xB => .jumpOffset (addr opcode)
  | 0xC => .random (x opcode) (kk opcode)
  | 0xD => .draw (x opcode) (y opcode) (n opcode)
  | 0xE => decodeKey opcode
  | _ => decodeDevice opcode

/-! ## Bounds of what is decoded -/

/-- Register numbers and sprite heights are below sixteen and addresses below
4096. -/
def InRange : Instruction → Prop
  | .clearScreen | .ret | .unassigned _ => True
  | .hostCall addr | .jump addr | .call addr | .setIndex addr | .jumpOffset addr =>
    addr.toNat < 4096
  | .skipIfByte x _ | .skipUnlessByte x _ | .setByte x _ | .addByte x _ | .random x _ =>
    x.toNat < 16
  | .skipIfSame x y | .skipUnlessSame x y | .copy x y | .or x y | .and x y | .xor x y
  | .add x y | .sub x y | .subFrom x y => x.toNat < 16 ∧ y.toNat < 16
  | .draw x y n => x.toNat < 16 ∧ y.toNat < 16 ∧ n.toNat < 16
  | .shiftRight x | .shiftLeft x | .skipIfKey x | .skipUnlessKey x | .waitKey x
  | .getDelay x | .setDelay x | .setSound x | .addIndex x | .glyph x | .storeDecimal x
  | .storeRegisters x | .loadRegisters x => x.toNat < 16

/-- The members of family 0 are in range. -/
theorem decodeControl_inRange (opcode : UInt16) : (decodeControl opcode).InRange := by
  fun_cases decodeControl opcode <;> simp [InRange, addr_lt]

/-- The members of family 8 are in range. -/
theorem decodeArithmetic_inRange (opcode : UInt16) : (decodeArithmetic opcode).InRange := by
  fun_cases decodeArithmetic opcode <;> simp [InRange, x_lt, y_lt]

/-- The members of family E are in range. -/
theorem decodeKey_inRange (opcode : UInt16) : (decodeKey opcode).InRange := by
  fun_cases decodeKey opcode <;> simp [InRange, x_lt]

/-- The members of family F are in range. -/
theorem decodeDevice_inRange (opcode : UInt16) : (decodeDevice opcode).InRange := by
  fun_cases decodeDevice opcode <;> simp [InRange, x_lt]

/-- Every decoded instruction is in range. -/
theorem decode_inRange (opcode : UInt16) : (decode opcode).InRange := by
  fun_cases decode opcode
  case case1 => exact decodeControl_inRange opcode
  case case9 => exact decodeArithmetic_inRange opcode
  case case15 => exact decodeKey_inRange opcode
  case case16 => exact decodeDevice_inRange opcode
  all_goals simp [InRange, x_lt, y_lt, n_lt, addr_lt]

end Instruction

end Chip8
