import Chip8.Memory.Cells

/-!
# Addresses of the same cell

Memory looks at twelve of the sixteen bits of an address.  Two addresses that agree
in them select the same cell, and so do the addresses an equal distance further on;
no access to memory can tell them apart.

Main results:

- Theorem `Memory.SameCell.add`: addresses of the same cell stay so when the same
  word is added.
- Theorems `Memory.SameCell.readBlock` and `Memory.SameCell.load`: blocks are read
  from and loaded to the same cells.
-/

namespace Chip8.Memory

/-- Two addresses select the same cell. -/
def SameCell (a b : UInt16) : Prop := a.toNat % 4096 = b.toNat % 4096

instance (a b : UInt16) : Decidable (SameCell a b) :=
  inferInstanceAs (Decidable (a.toNat % 4096 = b.toNat % 4096))

namespace SameCell

theorem refl (a : UInt16) : SameCell a a := rfl

theorem trans {a b c : UInt16} (hab : SameCell a b) (hbc : SameCell b c) : SameCell a c :=
  Eq.trans hab hbc

/-- Adding wraps at 65536, a multiple of the number of cells. -/
theorem add {a b : UInt16} (h : SameCell a b) (c : UInt16) : SameCell (a + c) (b + c) := by
  unfold SameCell at h ⊢
  rw [UInt16.toNat_add, UInt16.toNat_add]
  omega

theorem sub {a b : UInt16} (h : SameCell a b) (c : UInt16) : SameCell (a - c) (b - c) := by
  rw [UInt16.sub_eq_add_neg, UInt16.sub_eq_add_neg]
  exact h.add (-c)

/-- Dropping the upper four bits keeps the cell. -/
theorem mask (a : UInt16) : SameCell a (a &&& 0x0FFF) := by
  have hcell : (a &&& 0x0FFF).toNat = a.toNat % 4096 := cell_eq a
  rw [SameCell, hcell]
  omega

/-! ## Access -/

theorem read {a b : UInt16} (h : SameCell a b) (mem : Memory) : mem.read a = mem.read b := by
  unfold SameCell at h
  simp only [Memory.read, h]

theorem write {a b : UInt16} (h : SameCell a b) (mem : Memory) (byte : UInt8) :
    mem.write a byte = mem.write b byte := by
  unfold SameCell at h
  simp only [Memory.write, h]

theorem readWord {a b : UInt16} (h : SameCell a b) (mem : Memory) :
    mem.readWord a = mem.readWord b := by
  rw [Memory.readWord, h.read, (h.add 1).read]
  rfl

/-- Blocks from addresses of the same cell are the same. -/
theorem readBlock {a b : UInt16} (h : SameCell a b) (mem : Memory) (n : Nat) :
    mem.readBlock a n = mem.readBlock b n := by
  induction n generalizing a b with
  | zero => rfl
  | succ n ih => rw [Memory.readBlock, Memory.readBlock, h.read, ih (h.add 1)]

/-- Loading a block at addresses of the same cell comes to the same. -/
theorem load {a b : UInt16} (h : SameCell a b) (mem : Memory) (bytes : List UInt8) :
    mem.load a bytes = mem.load b bytes := by
  induction bytes generalizing mem a b with
  | nil => rfl
  | cons byte rest ih => rw [load_cons, load_cons, h.write, ih (h.add 1)]

end SameCell

end Chip8.Memory
