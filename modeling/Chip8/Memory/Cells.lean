import Chip8.Checked
import Chip8.Memory

/-!
# Memory by cell number

The processor reaches memory through the number of a cell: the low twelve bits of
the address.  A cell number past the table would be a crash; since the mask
leaves none, every access is the plain one.

Main results:

- Theorem `Memory.cell_eq`: the low twelve bits are the remainder by 4096.
- Theorems `Memory.readCell_eq`, `Memory.writeCell_eq`, `Memory.readCellWord_eq`,
  `Memory.readCells_eq` and `Memory.writeCells_eq`: no access crashes, and each is
  the plain one.
-/

namespace Chip8.Memory

/-! ## Access -/

/-- The number of the cell that an address selects. -/
def cell (addr : UInt16) : Nat := (addr &&& 0x0FFF).toNat

/-- The byte in the cell of an address. -/
def readCell (mem : Memory) (addr : UInt16) : Checked UInt8 :=
  Checked.index mem.cells (cell addr)

/-- The memory with the byte in the cell of an address replaced. -/
def writeCell (mem : Memory) (addr : UInt16) (byte : UInt8) : Checked Memory := do
  let cells ← Checked.update mem.cells (cell addr) byte
  return { cells }

/-- The word in the cells of an address and the next, high byte first. -/
def readCellWord (mem : Memory) (addr : UInt16) : Checked UInt16 := do
  let high ← mem.readCell addr
  let low ← mem.readCell (addr + 1)
  return high.toUInt16 <<< 8 ||| low.toUInt16

/-- The bytes in the cells of `n` addresses in a row. -/
def readCells (mem : Memory) (addr : UInt16) : Nat → Checked (List UInt8)
  | 0 => return []
  | n + 1 => do
    let byte ← mem.readCell addr
    let rest ← mem.readCells (addr + 1) n
    return byte :: rest

/-- The memory with bytes put into the cells of as many addresses in a row. -/
def writeCells (mem : Memory) (addr : UInt16) : List UInt8 → Checked Memory
  | [] => return mem
  | byte :: rest => do
    let written ← mem.writeCell addr byte
    written.writeCells (addr + 1) rest

/-! ## No cell number leaves the table -/

/-- The low twelve bits of an address are its remainder by 4096. -/
theorem cell_eq (addr : UInt16) : cell addr = addr.toNat % 4096 := by
  rw [cell, UInt16.toNat_and]
  exact Nat.and_two_pow_sub_one_eq_mod addr.toNat 12

/-- Reading a cell never crashes and is reading its address. -/
theorem readCell_eq (mem : Memory) (addr : UInt16) :
    mem.readCell addr = .ok (mem.read addr) := by
  have hlt : addr.toNat % 4096 < 4096 := Nat.mod_lt _ (by decide)
  rw [readCell, cell_eq, Checked.index_of_lt mem.cells hlt]
  rfl

/-- Writing a cell never crashes and is writing to its address. -/
theorem writeCell_eq (mem : Memory) (addr : UInt16) (byte : UInt8) :
    mem.writeCell addr byte = .ok (mem.write addr byte) := by
  have hlt : addr.toNat % 4096 < 4096 := Nat.mod_lt _ (by decide)
  rw [writeCell, cell_eq, Checked.update_of_lt mem.cells byte hlt]
  rfl

/-- Reading a word by cells never crashes and is reading it at its address. -/
theorem readCellWord_eq (mem : Memory) (addr : UInt16) :
    mem.readCellWord addr = .ok (mem.readWord addr) := by
  rw [readCellWord, readCell_eq, Checked.ok_bind, readCell_eq, Checked.ok_bind]
  rfl

/-- Reading a block by cells never crashes and is reading it at its address. -/
theorem readCells_eq (mem : Memory) (addr : UInt16) (n : Nat) :
    mem.readCells addr n = .ok (mem.readBlock addr n) := by
  induction n generalizing addr with
  | zero => rfl
  | succ n ih =>
      rw [readCells, readCell_eq, Checked.ok_bind, ih, Checked.ok_bind]
      rfl

/-- Writing a block by cells never crashes and is loading it at its address. -/
theorem writeCells_eq (mem : Memory) (addr : UInt16) (bytes : List UInt8) :
    mem.writeCells addr bytes = .ok (mem.load addr bytes) := by
  induction bytes generalizing mem addr with
  | nil => rfl
  | cons byte rest ih =>
      rw [writeCells, writeCell_eq, Checked.ok_bind, ih, load_cons]

end Chip8.Memory
