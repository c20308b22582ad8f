import Mathlib.Data.Nat.SuccPred
import Mathlib.Order.SuccPred.Archimedean
import Chip8.Console.Operation
import Chip8.Memory.Blocks
import Chip8.Memory.Cells

/-!
# Bytes put into memory

A block of bytes may be loaded at any address and may be of any length.  The address counts on
as a 16-bit word, of which each cell takes the low twelve bits; a long block goes round memory,
and the last byte that goes to a cell stays there.  A program is the same block loaded at the
start of programs, except that one is refused as a whole that does not fit above.

Main results:

- Theorem `Memory.receives_load`: what a block leaves in each cell.
- Theorem `Memory.toNat_readWord`: the value of the word in two cells.
- Theorems `Machine.takesProgram` and `Console.takesProgram`: a program put into a machine or
  a console changes its memory or nothing.
- Theorem `Memory.loading_law`: so it is for every memory, address and block.
-/

namespace Chip8

namespace Memory

variable {mem : Memory} {addr : UInt16} {bytes : List UInt8} {c : Fin 4096} {k : Nat}

/-! ## The last byte that goes to a cell -/

/-- The places of the bytes that go to a cell, in a block of length `n` at an address. -/
def places (addr : UInt16) (n : Nat) (c : Fin 4096) : Set Nat :=
  {k | k < n ∧ (addr.toNat + k) % 4096 = c.val}

/-- A block has been put into memory: each cell holds the last byte that goes there, or what
it held before if none does. -/
def Receives (mem : Memory) (addr : UInt16) (bytes : List UInt8) (after : Memory) : Prop :=
  ∀ c : Fin 4096,
    (∃ k, IsGreatest (places addr bytes.length c) k ∧
      bytes[k]? = some (after.cells.get c)) ∨
    places addr bytes.length c = ∅ ∧ after.cells.get c = mem.cells.get c

theorem cells_get_eq_read (mem : Memory) (c : Fin 4096) :
    mem.cells.get c = mem.read (UInt16.ofNat c) :=
  getElem_cells mem c.isLt

theorem toNat_ofNat_cell (c : Fin 4096) : (UInt16.ofNat c).toNat % 4096 = c.val := by
  rw [UInt16.toNat_ofNat']
  omega

/-- Only as many bytes as there are go to a cell. -/
theorem bddAbove_places (addr : UInt16) (n : Nat) (c : Fin 4096) : BddAbove (places addr n c) :=
  ⟨n, fun _ hk => Nat.le_of_lt hk.1⟩

/-- A cell holds the last of the bytes that go to it. -/
theorem cells_get_load_of_isGreatest (mem : Memory)
    (h : IsGreatest (places addr bytes.length c) k) :
    bytes[k]? = some ((mem.load addr bytes).cells.get c) := by
  rcases h with ⟨⟨hk, hcell⟩, hupper⟩
  rw [cells_get_eq_read]
  apply read_load_of_last mem hk
  · rw [toNat_ofNat_cell, hcell]
  · intro j hkj hj hcell
    rw [toNat_ofNat_cell] at hcell
    exact Nat.not_le_of_lt hkj (hupper ⟨hj, hcell⟩)

/-- A cell that no byte goes to keeps its byte. -/
theorem cells_get_load_of_empty (h : places addr bytes.length c = ∅) :
    (mem.load addr bytes).cells.get c = mem.cells.get c := by
  rw [cells_get_eq_read, cells_get_eq_read]
  apply read_load_of_untouched
  intro k hk hcell
  rw [toNat_ofNat_cell] at hcell
  exact Set.notMem_empty k (h ▸ ⟨hk, hcell⟩)

/-- After a block is loaded, each cell holds the last byte that goes there, or what it held
before. -/
theorem receives_load (mem : Memory) (addr : UInt16) (bytes : List UInt8) :
    mem.Receives addr bytes (mem.load addr bytes) := by
  intro c
  rcases (places addr bytes.length c).eq_empty_or_nonempty with hempty | hnonempty
  · exact Or.inr ⟨hempty, cells_get_load_of_empty hempty⟩
  · rcases (bddAbove_places addr bytes.length c).exists_isGreatest_of_nonempty hnonempty with
      ⟨k, hk⟩
    exact Or.inl ⟨k, hk, cells_get_load_of_isGreatest mem hk⟩

/-! ## Looking at cells -/

/-- The byte at an address is that of its cell. -/
theorem read_eq_cell (mem : Memory) {a : UInt16} (h : c.val = a.toNat % 4096) :
    mem.read a = mem.cells.get c := by
  have hcell : mem.cells[a.toNat % 4096] = mem.cells[c.val] := by simp only [h]
  exact hcell

/-- The word at an address is the byte in its cell, 256 times, and the byte in the next cell,
which may be the first. -/
theorem toNat_readWord (mem : Memory) {a : UInt16} {here next : Fin 4096}
    (hhere : here.val = a.toNat % 4096) (hnext : next.val = (a.toNat + 1) % 4096) :
    (mem.readWord a).toNat = 256 * (mem.cells.get here).toNat + (mem.cells.get next).toNat := by
  have hlow := (mem.cells.get next).toNat_lt
  have hhigh := (mem.cells.get here).toNat_lt
  have hshift : (mem.cells.get here).toNat <<< 8 % 65536 = 2 ^ 8 * (mem.cells.get here).toNat := by
    rw [Nat.shiftLeft_eq]
    omega
  rw [readWord, mem.read_eq_cell hhere, mem.read_eq_cell (hnext.trans (cell_succ a 0).symm),
    UInt16.toNat_or, UInt16.toNat_shiftLeft, UInt8.toNat_toUInt16, UInt8.toNat_toUInt16]
  change (mem.cells.get here).toNat <<< 8 % 65536 ||| _ = _
  rw [hshift, ← Nat.two_pow_add_eq_or_of_lt hlow]

end Memory

/-! ## Programs -/

/-- A program that fits is loaded at the start of programs, and one that does not is refused;
nothing else in the machine changes. -/
structure Machine.TakesProgram {G : Type} [RandomSource G] (m : Machine G) (image : List UInt8) :
    Prop where
  fits : image.length ≤ 3584 → m.perform (.loadProgram image) =
    .ok { machine := { m with memory := m.memory.load 0x200 image }, log := #[.loaded image.length] }
  tooLarge : 3584 < image.length → m.perform (.loadProgram image) =
    .ok (.refused m (.programTooLarge image.length 3584))

/-- A program that fits is loaded at the start of programs, and one that does not is refused;
nothing else in the console changes. -/
structure Console.TakesProgram (console : Console) (image : List UInt8) : Prop where
  fits : image.length ≤ 3584 →
    ∃ outcome, console.perform (.loadProgram image) = .ok outcome ∧ outcome.result = .ok none ∧
      outcome.console = { console with
        machine := { console.machine with
          memory := console.machine.memory.load 0x200 image } }
  tooLarge : 3584 < image.length →
    ∃ outcome, console.perform (.loadProgram image) = .ok outcome ∧
      outcome.result = .error (.programTooLarge image.length 3584) ∧ outcome.console = console

/-- A machine takes a program that fits and rejects a larger one. -/
theorem Machine.takesProgram {G : Type} [RandomSource G] (m : Machine G) (image : List UInt8) :
    m.TakesProgram image := by
  constructor
  · intro hfits
    exact congrArg Except.ok (loadProgram_of_ok (m.memory.loadProgram_eq_load hfits))
  · intro hlarge
    have herror := (m.memory.loadProgram_eq_error_iff image).mpr hlarge
    exact congrArg Except.ok (loadProgram_of_error herror)

/-- A console takes what its machine takes. -/
theorem Console.takesProgram (console : Console) (image : List UInt8) :
    console.TakesProgram image := by
  have htakes := console.machine.takesProgram image
  constructor
  · intro hfits
    have hloaded : console.machine.loadProgram image = _ := Except.ok.inj (htakes.fits hfits)
    refine ⟨console.afterMachine (console.machine.loadProgram image), rfl, ?_, ?_⟩ <;>
      rw [hloaded] <;> rfl
  · intro hlarge
    have hrefused : console.machine.loadProgram image = _ := Except.ok.inj (htakes.tooLarge hlarge)
    refine ⟨console.afterMachine (console.machine.loadProgram image), rfl, ?_, ?_⟩ <;>
      rw [hrefused] <;> rfl

namespace Memory

/-- A block that does not pass the end of memory leaves the cells before and after it
alone. -/
theorem cells_get_load_of_outside (mem : Memory) {addr : UInt16} {bytes : List UInt8}
    {c : Fin 4096} (hend : addr.toNat + bytes.length ≤ 4096)
    (houtside : c.val < addr.toNat ∨ addr.toNat + bytes.length ≤ c.val) :
    (mem.load addr bytes).cells.get c = mem.cells.get c := by
  apply cells_get_load_of_empty
  apply Set.eq_empty_of_forall_notMem
  rintro k ⟨hk, hcell⟩
  omega

/-- Loading a block never crashes and leaves in each cell the last byte that goes there,
which is what is read there as a byte and as a part of a word. A program is loaded in the
same way where it fits, and refused where it does not; so it is in every machine and
console. -/
theorem loading_law (mem : Memory) (addr : UInt16) (bytes : List UInt8) :
    (∃ after, mem.writeCells addr bytes = .ok after ∧ after = mem.load addr bytes ∧
      mem.Receives addr bytes after ∧
      ∀ (a : UInt16) (here next : Fin 4096), here.val = a.toNat % 4096 →
        next.val = (a.toNat + 1) % 4096 →
        after.readCell a = .ok (after.cells.get here) ∧
          ∃ word, after.readCellWord a = .ok word ∧
            word.toNat = 256 * (after.cells.get here).toNat + (after.cells.get next).toNat) ∧
    (bytes.length ≤ 3584 → mem.loadProgram bytes = .ok (mem.load 0x200 bytes) ∧
      ∀ c : Fin 4096, c.val < 0x200 ∨ 0x200 + bytes.length ≤ c.val →
        (mem.load 0x200 bytes).cells.get c = mem.cells.get c) ∧
    (3584 < bytes.length →
      mem.loadProgram bytes = .error (.programTooLarge bytes.length 3584)) ∧
    (∀ (G : Type) [RandomSource G] (m : Machine G), m.TakesProgram bytes) ∧
    ∀ console : Console, console.TakesProgram bytes := by
  refine ⟨⟨_, mem.writeCells_eq addr bytes, rfl, receives_load mem addr bytes, ?_⟩, ?_, ?_, ?_, ?_⟩
  · intro a here next hhere hnext
    refine ⟨?_, _, readCellWord_eq _ a, toNat_readWord _ hhere hnext⟩
    rw [readCell_eq, read_eq_cell _ hhere]
  · intro hfits
    refine ⟨mem.loadProgram_eq_load hfits, ?_⟩
    intro c houtside
    have hstart : (0x200 : UInt16).toNat = 0x200 := rfl
    exact mem.cells_get_load_of_outside (by omega) houtside
  · exact (mem.loadProgram_eq_error_iff bytes).mpr
  · intro G _ m
    exact m.takesProgram bytes
  · intro console
    exact console.takesProgram bytes

/-- A block one byte longer than memory. -/
def wholeRound : List UInt8 := .replicate 4096 1 ++ [2]

/-- The image is one byte longer than memory. -/
theorem length_wholeRound : wholeRound.length = 4097 := by
  rw [wholeRound, List.length_append, List.length_replicate]
  rfl

/-- Its second byte is 1 and its last is 2. -/
theorem getElem?_wholeRound : wholeRound[1]? = some 1 ∧ wholeRound[4096]? = some 2 := by
  have hlength : (List.replicate 4096 (1 : UInt8)).length = 4096 := List.length_replicate
  constructor
  · rw [wholeRound, List.getElem?_append_left (by rw [hlength]; decide)]
    exact List.getElem?_replicate_of_lt (by decide)
  · rw [wholeRound, List.getElem?_append_right hlength.le, hlength]
    rfl

/-- The last byte takes the place of the first, and the others stay. As a program the block
is refused, and nothing changes in a console. -/
theorem loading_law_wholeRound :
    (powerOn.load 0xFFFF wholeRound).cells.get 4095 = 2 ∧
      (powerOn.load 0xFFFF wholeRound).cells.get 0 = 1 ∧
      ∃ outcome, (Console.new {}).perform (.loadProgram wholeRound) = .ok outcome ∧
        outcome.result = .error (.programTooLarge 4097 3584) ∧ outcome.console = .new {} := by
  have hlength := length_wholeRound
  have haddr : (0xFFFF : UInt16).toNat = 0xFFFF := rfl
  rcases loading_law powerOn 0xFFFF wholeRound with
    ⟨⟨_, -, hafter, hreceives, -⟩, -, -, -, hconsole⟩
  rw [hafter] at hreceives
  have hlarge := (hconsole (.new {})).tooLarge (by omega)
  rw [hlength] at hlarge
  refine ⟨?_, ?_, hlarge⟩
  · have hlast : 4096 ∈ places 0xFFFF wholeRound.length 4095 := ⟨by omega, rfl⟩
    rcases hreceives 4095 with ⟨k, ⟨⟨hk, -⟩, hupper⟩, hbyte⟩ | ⟨hempty, -⟩
    · have hle : 4096 ≤ k := hupper hlast
      have hk : k = 4096 := by omega
      rw [hk, getElem?_wholeRound.2] at hbyte
      exact (Option.some.inj hbyte).symm
    · exact absurd hlast (hempty ▸ Set.notMem_empty _)
  · have hsecond : 1 ∈ places 0xFFFF wholeRound.length 0 := ⟨by omega, rfl⟩
    have hzero : (0 : Fin 4096).val = 0 := rfl
    rcases hreceives 0 with ⟨k, ⟨⟨hk, hcell⟩, -⟩, hbyte⟩ | ⟨hempty, -⟩
    · have hk : k = 1 := by omega
      rw [hk, getElem?_wholeRound.1] at hbyte
      exact (Option.some.inj hbyte).symm
    · exact absurd hsecond (hempty ▸ Set.notMem_empty _)

end Memory

end Chip8
