import Chip8.Instruction
import Chip8.Text.Hex

/-!
# Assembly text

An instruction is written as a mnemonic followed by its operands, set apart by a
comma and a blank.  Register numbers are single hexadecimal digits without a
mark, sprite heights are decimal, and the other numbers are marked hexadecimal
of a least width: two digits for a byte, three for an address, four for a whole
instruction word.
-/

namespace Chip8

/-- What follows a mnemonic. -/
inductive Operand where
  /-- A byte register. -/
  | register (x : UInt8)
  /-- An immediate byte. -/
  | byte (kk : UInt8)
  /-- An address. -/
  | address (addr : UInt16)
  /-- A sprite height. -/
  | rows (n : UInt8)
  /-- An instruction word as data. -/
  | data (opcode : UInt16)
  /-- The index register. -/
  | index
  /-- The memory at the index register. -/
  | atIndex
  /-- The delay timer. -/
  | delayTimer
  /-- The sound timer. -/
  | soundTimer
  /-- The keypad. -/
  | key
  /-- The glyph of a digit. -/
  | glyph
  /-- The decimal digits of a number. -/
  | decimal
  deriving DecidableEq

/-- The text of an operand. -/
def Operand.text : Operand → String
  | .register x => "V" ++ Hex.digits x.toNat
  | .byte kk => Hex.padded 2 kk.toNat
  | .address addr => Hex.padded 3 addr.toNat
  | .rows n => toString n.toNat
  | .data opcode => Hex.padded 4 opcode.toNat
  | .index => "I"
  | .atIndex => "[I]"
  | .delayTimer => "DT"
  | .soundTimer => "ST"
  | .key => "K"
  | .glyph => "F"
  | .decimal => "B"

namespace Instruction

/-- The mnemonic of an instruction. -/
def mnemonic : Instruction → String
  | .clearScreen => "CLS"
  | .ret => "RET"
  | .hostCall _ => "SYS"
  | .jump _ | .jumpOffset _ => "JP"
  | .call _ => "CALL"
  | .skipIfByte _ _ | .skipIfSame _ _ => "SE"
  | .skipUnlessByte _ _ | .skipUnlessSame _ _ => "SNE"
  | .setByte _ _ | .copy _ _ | .setIndex _ | .getDelay _ | .waitKey _ | .setDelay _
  | .setSound _ | .glyph _ | .storeDecimal _ | .storeRegisters _ | .loadRegisters _ => "LD"
  | .addByte _ _ | .add _ _ | .addIndex _ => "ADD"
  | .or _ _ => "OR"
  | .and _ _ => "AND"
  | .xor _ _ => "XOR"
  | .sub _ _ => "SUB"
  | .shiftRight _ => "SHR"
  | .subFrom _ _ => "SUBN"
  | .shiftLeft _ => "SHL"
  | .random _ _ => "RND"
  | .draw _ _ _ => "DRW"
  | .skipIfKey _ => "SKP"
  | .skipUnlessKey _ => "SKNP"
  | .unassigned _ => "DW"

/-- The operands of an instruction in the order in which they are written. -/
def operands : Instruction → List Operand
  | .clearScreen | .ret => []
  | .hostCall addr | .jump addr | .call addr => [.address addr]
  | .skipIfByte x kk | .skipUnlessByte x kk | .setByte x kk | .addByte x kk
  | .random x kk => [.register x, .byte kk]
  | .skipIfSame x y | .skipUnlessSame x y | .copy x y | .or x y | .and x y | .xor x y
  | .add x y | .sub x y | .subFrom x y => [.register x, .register y]
  | .shiftRight x | .shiftLeft x | .skipIfKey x | .skipUnlessKey x => [.register x]
  | .setIndex addr => [.index, .address addr]
  | .jumpOffset addr => [.register 0, .address addr]
  | .draw x y n => [.register x, .register y, .rows n]
  | .waitKey x => [.register x, .key]
  | .getDelay x => [.register x, .delayTimer]
  | .setDelay x => [.delayTimer, .register x]
  | .setSound x => [.soundTimer, .register x]
  | .addIndex x => [.index, .register x]
  | .glyph x => [.glyph, .register x]
  | .storeDecimal x => [.decimal, .register x]
  | .storeRegisters x => [.atIndex, .register x]
  | .loadRegisters x => [.register x, .atIndex]
  | .unassigned opcode => [.data opcode]

/-- The operand texts, set apart by a comma and a blank. -/
def operandsText (operands : List Operand) : String :=
  ", ".intercalate (operands.map Operand.text)

/-- The assembly text of an instruction. -/
def text (ins : Instruction) : String :=
  match ins.operands with
  | [] => ins.mnemonic
  | operands => ins.mnemonic ++ " " ++ operandsText operands

end Instruction

end Chip8
