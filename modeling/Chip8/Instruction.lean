/-!
# Instructions

The instruction set as data.  Registers are numbered by `x` and `y`, an
immediate byte is `kk`, a sprite height is `n`, and an address is `addr`.  The
fields are plain machine words: decoding keeps register numbers and heights below
sixteen and addresses below 4096, and the type does not.
-/

namespace Chip8

/-- One instruction of the machine. -/
inductive Instruction where
  /-- Clear the screen. -/
  | clearScreen
  /-- Return from a subroutine. -/
  | ret
  /-- Call a host routine; ignored. -/
  | hostCall (addr : UInt16)
  /-- Continue at an address. -/
  | jump (addr : UInt16)
  /-- Call a subroutine. -/
  | call (addr : UInt16)
  /-- Skip the next instruction if Vx is `kk`. -/
  | skipIfByte (x kk : UInt8)
  /-- Skip the next instruction unless Vx is `kk`. -/
  | skipUnlessByte (x kk : UInt8)
  /-- Skip the next instruction if Vx is Vy. -/
  | skipIfSame (x y : UInt8)
  /-- Skip the next instruction unless Vx is Vy. -/
  | skipUnlessSame (x y : UInt8)
  /-- Put `kk` into Vx. -/
  | setByte (x kk : UInt8)
  /-- Add `kk` to Vx without a flag. -/
  | addByte (x kk : UInt8)
  /-- Copy Vy to Vx. -/
  | copy (x y : UInt8)
  /-- Put the bitwise or of Vx and Vy into Vx. -/
  | or (x y : UInt8)
  /-- Put the bitwise and of Vx and Vy into Vx. -/
  | and (x y : UInt8)
  /-- Put the bitwise exclusive or of Vx and Vy into Vx. -/
  | xor (x y : UInt8)
  /-- Add Vy to Vx; the flag is the carry. -/
  | add (x y : UInt8)
  /-- Take Vy from Vx; the flag is set if nothing is borrowed. -/
  | sub (x y : UInt8)
  /-- Halve Vx; the flag is the bit shifted out. -/
  | shiftRight (x : UInt8)
  /-- Put Vy less Vx into Vx; the flag is set if Vy is above the result. -/
  | subFrom (x y : UInt8)
  /-- Double Vx; the flag is the bit shifted out. -/
  | shiftLeft (x : UInt8)
  /-- Put an address into the index register. -/
  | setIndex (addr : UInt16)
  /-- Continue V0 bytes past an address. -/
  | jumpOffset (addr : UInt16)
  /-- Put a random byte masked by `kk` into Vx. -/
  | random (x kk : UInt8)
  /-- Draw the `n` sprite rows at the index register at column Vx and row Vy; the
  flag is set if a lit pixel was hit. -/
  | draw (x y n : UInt8)
  /-- Skip the next instruction if the key numbered by Vx is held. -/
  | skipIfKey (x : UInt8)
  /-- Skip the next instruction unless the key numbered by Vx is held. -/
  | skipUnlessKey (x : UInt8)
  /-- Wait until a key is held and put its number into Vx. -/
  | waitKey (x : UInt8)
  /-- Put the delay timer into Vx. -/
  | getDelay (x : UInt8)
  /-- Set the delay timer to Vx. -/
  | setDelay (x : UInt8)
  /-- Set the sound timer to Vx. -/
  | setSound (x : UInt8)
  /-- Add Vx to the index register. -/
  | addIndex (x : UInt8)
  /-- Point the index register at the glyph of Vx. -/
  | glyph (x : UInt8)
  /-- Write the three decimal digits of Vx from the index register on. -/
  | storeDecimal (x : UInt8)
  /-- Write V0 to Vx from the index register on. -/
  | storeRegisters (x : UInt8)
  /-- Read V0 to Vx from the index register on. -/
  | loadRegisters (x : UInt8)
  /-- A word that stands for no instruction; ignored. -/
  | unassigned (opcode : UInt16)
  deriving DecidableEq

/-- Whether the instruction is passed over without effect. -/
def Instruction.isIgnored : Instruction → Bool
  | .hostCall _ | .unassigned _ => true
  | _ => false

end Chip8
