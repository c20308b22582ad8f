import Chip8.Memory

/-!
# Blocks cell by cell

A block that is loaded goes round the end of memory, so that a long one may put several
bytes into one cell.  Each cell then holds the last of them, and a cell that none of them
goes to keeps what it held.

Main results:

- Theorem `Memory.read_load_of_untouched`: a block leaves the other cells alone.
- Theorem `Memory.read_load_of_last`: a cell holds the last byte of the block that goes there.
- Theorem `Memory.Holds.readBlock_eq`: the block that cells hold is the block read from them.
- Theorem `Memory.loadProgram_eq_load`: a program that fits is a block loaded at the start
  of programs.
-/

namespace Chip8.Memory

variable {mem : Memory} {addr a : UInt16} {bytes : List UInt8} {k : Nat}

/-- The byte at an address is that of its cell. -/
theorem getElem_cells (mem : Memory) {c : Nat} (h : c < 4096) :
    mem.cells[c] = mem.read (UInt16.ofNat c) := by
  have hcell : c % 65536 % 4096 = c := by omega
  simp only [read, UInt16.toNat_ofNat', Nat.reducePow, hcell]

/-- Memories that read the same at every address are the same. -/
theorem eq_of_read_eq {mem' : Memory} (h : ∀ a, mem.read a = mem'.read a) : mem = mem' := by
  obtain ⟨cells⟩ := mem
  obtain ⟨cells'⟩ := mem'
  congr 1
  apply Vector.ext
  intro c hc
  have hread := h (UInt16.ofNat c)
  rwa [← getElem_cells _ hc, ← getElem_cells _ hc] at hread

/-- The cell of the byte `k` places after the next address is that of the byte after it. -/
theorem cell_succ (addr : UInt16) (k : Nat) :
    ((addr + 1).toNat + k) % 4096 = (addr.toNat + (k + 1)) % 4096 := by
  rw [UInt16.toNat_add, UInt16.toNat_one]
  omega

/-- A block leaves every cell alone that none of its bytes goes to. -/
theorem read_load_of_untouched
    (h : ∀ k < bytes.length, (addr.toNat + k) % 4096 ≠ a.toNat % 4096) :
    (mem.load addr bytes).read a = mem.read a := by
  induction bytes generalizing mem addr with
  | nil => rfl
  | cons byte rest ih =>
      have hfirst : addr.toNat % 4096 ≠ a.toNat % 4096 := h 0 (Nat.succ_pos _)
      rw [load_cons, ih, read_write, if_neg hfirst]
      intro k hk
      rw [cell_succ]
      exact h (k + 1) (Nat.succ_lt_succ hk)

/-- A cell holds the last byte of a block that goes there: the first byte, if no other does,
else the last of the rest. -/
theorem read_load_of_last (mem : Memory) (hk : k < bytes.length)
    (hcell : (addr.toNat + k) % 4096 = a.toNat % 4096)
    (hlast : ∀ j, k < j → j < bytes.length → (addr.toNat + j) % 4096 ≠ a.toNat % 4096) :
    bytes[k]? = some ((mem.load addr bytes).read a) := by
  induction bytes generalizing mem addr k with
  | nil => exact absurd hk (Nat.not_lt_zero k)
  | cons byte rest ih =>
      rw [List.length_cons] at hk hlast
      cases k with
      | zero =>
          have hrest : ∀ j < rest.length, ((addr + 1).toNat + j) % 4096 ≠ a.toNat % 4096 := by
            intro j hj
            rw [cell_succ]
            exact hlast (j + 1) (Nat.succ_pos j) (Nat.succ_lt_succ hj)
          rw [Nat.add_zero] at hcell
          rw [load_cons, read_load_of_untouched hrest, read_write, if_pos hcell]
          rfl
      | succ k =>
          rw [← cell_succ] at hcell
          refine ih (mem.write addr byte) (Nat.lt_of_succ_lt_succ hk) hcell ?_
          intro j hkj hj
          rw [cell_succ]
          exact hlast (j + 1) (Nat.succ_lt_succ hkj) (Nat.succ_lt_succ hj)

/-- A block no longer than memory puts every byte into a cell of its own. -/
theorem read_load_of_length_le (mem : Memory) (hlength : bytes.length ≤ 4096) (hk : k < bytes.length)
    (hcell : (addr.toNat + k) % 4096 = a.toNat % 4096) :
    bytes[k]? = some ((mem.load addr bytes).read a) := by
  apply read_load_of_last mem hk hcell
  intro j hkj hj
  omega

/-- The cells from an address on hold the given bytes. -/
def Holds (mem : Memory) (addr : UInt16) (bytes : List UInt8) : Prop :=
  ∀ k a, k < bytes.length → (addr.toNat + k) % 4096 = a.toNat % 4096 →
    bytes[k]? = some (mem.read a)

theorem holds_load (mem : Memory) (addr : UInt16) (hlength : bytes.length ≤ 4096) :
    (mem.load addr bytes).Holds addr bytes :=
  fun _ _ => read_load_of_length_le mem hlength

/-- Cells that read the same hold the same. -/
theorem Holds.congr {mem' : Memory} (h : mem.Holds addr bytes)
    (hread : ∀ k a, k < bytes.length → (addr.toNat + k) % 4096 = a.toNat % 4096 →
      mem'.read a = mem.read a) : mem'.Holds addr bytes := by
  intro k a hk hcell
  rw [hread k a hk hcell]
  exact h k a hk hcell

/-- The cells from an address on hold only one block of a given length. -/
theorem Holds.unique {bytes' : List UInt8} (h : mem.Holds addr bytes)
    (h' : mem.Holds addr bytes') (hlength : bytes.length = bytes'.length) : bytes = bytes' := by
  apply List.ext_getElem?
  intro k
  by_cases hk : k < bytes.length
  · have hcell : (addr.toNat + k) % 4096 = (addr + UInt16.ofNat k).toNat % 4096 := by
      rw [UInt16.toNat_add, UInt16.toNat_ofNat']
      omega
    rw [h k _ hk hcell, h' k _ (hlength ▸ hk) hcell]
  · rw [List.getElem?_eq_none (Nat.le_of_not_lt hk),
      List.getElem?_eq_none (hlength ▸ Nat.le_of_not_lt hk)]

/-- A part of what is held from an address on is held from that much further on. -/
theorem Holds.slice (h : mem.Holds addr bytes) (j n : Nat) :
    mem.Holds (addr + UInt16.ofNat j) ((bytes.drop j).take n) := by
  intro k a hk hcell
  rw [List.length_take, List.length_drop] at hk
  rw [UInt16.toNat_add, UInt16.toNat_ofNat'] at hcell
  rw [List.getElem?_take_of_lt (by omega), List.getElem?_drop]
  exact h (j + k) a (by omega) (by omega)

/-- The cells from an address on hold the block that is read there. -/
theorem holds_readBlock (mem : Memory) (addr : UInt16) (n : Nat) :
    mem.Holds addr (mem.readBlock addr n) := by
  intro k a hk hcell
  induction n generalizing addr k with
  | zero => exact absurd hk (Nat.not_lt_zero k)
  | succ n ih =>
      cases k with
      | zero =>
          rw [Nat.add_zero] at hcell
          simp only [readBlock, List.getElem?_cons_zero, read, hcell]
      | succ k =>
          rw [← cell_succ] at hcell
          exact ih (addr + 1) k (Nat.lt_of_succ_lt_succ hk) hcell

/-- What is held from an address on is what is read there. -/
theorem Holds.readBlock_eq (h : mem.Holds addr bytes) :
    mem.readBlock addr bytes.length = bytes :=
  (holds_readBlock mem addr bytes.length).unique h (length_readBlock mem addr bytes.length)

/-- A program that fits is a block loaded at the start of programs. -/
theorem loadProgram_eq_load (mem : Memory) {image : List UInt8}
    (h : image.length ≤ maxProgramSize) :
    mem.loadProgram image = .ok (mem.load programStart image) := by
  have hmax : maxProgramSize = 3584 := rfl
  have hstart : programStart.toNat = 512 := rfl
  rw [loadProgram, if_pos h]
  refine congrArg Except.ok (eq_of_read_eq fun a => ?_)
  have hcell : a.toNat % 4096 < 4096 := Nat.mod_lt _ (by decide)
  simp only [read, Vector.getElem_ofFn, List.getElem?_toArray]
  change _ = (mem.load programStart image).read a
  split
  next hbelow =>
    rw [read_load_of_untouched]
    · rfl
    · intro k hk
      omega
  next habove =>
    by_cases hk : a.toNat % 4096 - programStart.toNat < image.length
    · have hplace : (programStart.toNat + (a.toNat % 4096 - programStart.toNat)) % 4096 =
          a.toNat % 4096 := by omega
      rw [read_load_of_length_le mem (by omega) hk hplace]
      rfl
    · rw [List.getElem?_eq_none (Nat.le_of_not_lt hk), read_load_of_untouched]
      · rfl
      · intro k hk'
        omega

end Chip8.Memory
