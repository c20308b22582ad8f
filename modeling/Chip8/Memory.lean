import Chip8.Fault
import Chip8.Glyphs

/-!
# Memory

The machine has 4096 bytes.  Addresses are 16-bit words of which only the low
twelve bits select a cell, so that a block that runs past the end continues at
the beginning.  Programs start at address 0x200 and may fill everything above.

Main results:

- Theorem `Memory.read_write`: a write is seen at the addresses of its cell and
  nowhere else.
- Theorem `Memory.loadProgram_eq_error_iff`: exactly the images of more than
  3584 bytes are refused.
-/

namespace Chip8

/-- The bytes of the machine. -/
structure Memory where
  /-- The cells in address order. -/
  cells : Vector UInt8 4096
  deriving DecidableEq

namespace Memory

/-- How many bytes there are. -/
def size : Nat := 4096

/-- Where programs start. -/
def programStart : UInt16 := 0x200

/-- How many bytes fit between the start of programs and the end of memory. -/
def maxProgramSize : Nat := size - programStart.toNat

/-! ## Single cells -/

/-- The byte at an address. -/
def read (mem : Memory) (addr : UInt16) : UInt8 :=
  mem.cells[addr.toNat % 4096]

/-- The memory with the byte at an address replaced. -/
def write (mem : Memory) (addr : UInt16) (byte : UInt8) : Memory :=
  { cells := mem.cells.set (addr.toNat % 4096) byte }

/-- The 16-bit word at an address, high byte first. -/
def readWord (mem : Memory) (addr : UInt16) : UInt16 :=
  (mem.read addr).toUInt16 <<< 8 ||| (mem.read (addr + 1)).toUInt16

/-- A write is seen at the addresses of its cell and nowhere else. -/
theorem read_write (mem : Memory) (a b : UInt16) (byte : UInt8) :
    (mem.write a byte).read b =
      if a.toNat % 4096 = b.toNat % 4096 then byte else mem.read b := by
  simp [read, write, Vector.getElem_set]

/-! ## Blocks -/

/-- The `n` bytes from an address on. -/
def readBlock (mem : Memory) (addr : UInt16) : Nat → List UInt8
  | 0 => []
  | n + 1 => mem.read addr :: readBlock mem (addr + 1) n

/-- The memory with a block of bytes written from an address on. -/
def load (mem : Memory) (addr : UInt16) : List UInt8 → Memory
  | [] => mem
  | byte :: rest => (mem.write addr byte).load (addr + 1) rest

/-- A block is as long as was asked for. -/
@[simp]
theorem length_readBlock (mem : Memory) (addr : UInt16) (n : Nat) :
    (mem.readBlock addr n).length = n := by
  induction n generalizing addr with
  | zero => rfl
  | succ n ih => simp [readBlock, ih]

/-- Loading nothing changes nothing. -/
@[simp]
theorem load_nil (mem : Memory) (addr : UInt16) : mem.load addr [] = mem := rfl

/-- Loading writes the first byte and then loads the rest one address on. -/
@[simp]
theorem load_cons (mem : Memory) (addr : UInt16) (byte : UInt8) (rest : List UInt8) :
    mem.load addr (byte :: rest) = (mem.write addr byte).load (addr + 1) rest := rfl

/-! ## Whole memories -/

/-- The memory at power-on: zeros, and the glyphs in their place. -/
def powerOn : Memory :=
  ({ cells := .replicate 4096 0 } : Memory).load Glyphs.start Glyphs.rows

/-- The memory with a program image in place; an image that does not fit is
refused. -/
def loadProgram (mem : Memory) (image : List UInt8) : Except Fault Memory :=
  if image.length ≤ maxProgramSize then
    let bytes := image.toArray
    .ok { cells := .ofFn fun k =>
      if k.val < programStart.toNat then mem.cells[k]
      else bytes[k.val - programStart.toNat]?.getD mem.cells[k] }
  else
    .error (.programTooLarge image.length maxProgramSize)

/-- Exactly the images of more than 3584 bytes are refused. -/
theorem loadProgram_eq_error_iff (mem : Memory) (image : List UInt8) :
    mem.loadProgram image = .error (.programTooLarge image.length 3584) ↔
      3584 < image.length := by
  simp [loadProgram, maxProgramSize, size, programStart]

end Memory

end Chip8
