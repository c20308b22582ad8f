import Chip8.Proofs.Footprint

/-!
# Registers in memory

The first registers are stored in as many cells from the index register on, and loaded from
there.  At most sixteen cells follow one another round the end of memory, so that no two
registers share one: what has been stored is loaded back, by whatever machine finds the same
cells at the same index, and what has been loaded is stored again without a change.

Main results:

- Theorems `Machine.stores_stepped` and `Machine.loads_stepped`: what the two instructions do.
- Theorem `Machine.Loads.get_eq_of_stores`: the registers stored are the registers loaded.
- Theorem `Machine.Stores.memory_eq_of_loads`: what was loaded is stored without a change.
- Theorem `Machine.register_block_law`: so it is for every machine and every index.
-/

namespace Chip8

namespace Machine

variable {G : Type} {m n : Machine G} {x y : UInt8} {outcome : Outcome G}

/-! ## Cells from the index register on -/

/-- The address selects the cell that lies `k` places after the index register. -/
def SelectsCell (m : Machine G) (k : Nat) (addr : UInt16) : Prop :=
  (m.registers.i.toNat + k) % 4096 = addr.toNat % 4096

/-- The index registers are the same, and so are the cells for the registers up to `x`. -/
structure SameBlock (m n : Machine G) (x : UInt8) : Prop where
  index : n.registers.i = m.registers.i
  cells : ∀ (k : Fin 16) addr, k.val ≤ x.toNat → m.SelectsCell k addr →
    n.memory.read addr = m.memory.read addr

/-- The registers up to `x` have been put into the cells from the index register on. -/
structure Stores (m : Machine G) (x : UInt8) (outcome : Outcome G) : Prop where
  success : outcome.fault = none
  stored : ∀ (k : Fin 16) addr, k.val ≤ x.toNat → m.SelectsCell k addr →
    outcome.machine.memory.read addr = m.registers.v.get k
  /-- No other cell changes. -/
  others : ∀ addr, (∀ k ≤ x.toNat, ¬m.SelectsCell k addr) →
    outcome.machine.memory.read addr = m.memory.read addr
  index : outcome.machine.registers.i = m.registers.i

/-- The registers up to `x` have been taken from the cells from the index register on. -/
structure Loads (m : Machine G) (x : UInt8) (outcome : Outcome G) : Prop where
  success : outcome.fault = none
  loaded : ∀ (k : Fin 16) addr, k.val ≤ x.toNat → m.SelectsCell k addr →
    outcome.machine.registers.v.get k = m.memory.read addr
  /-- No other register changes. -/
  others : ∀ k : Fin 16, x.toNat < k.val →
    outcome.machine.registers.v.get k = m.registers.v.get k
  index : outcome.machine.registers.i = m.registers.i
  memory : outcome.machine.memory = m.memory

theorem exists_selectsCell (m : Machine G) (k : Nat) : ∃ addr, m.SelectsCell k addr := by
  refine ⟨m.registers.i + UInt16.ofNat k, ?_⟩
  rw [SelectsCell, UInt16.toNat_add, UInt16.toNat_ofNat']
  omega

theorem SelectsCell.congr {k : Nat} {addr : UInt16} (h : m.SelectsCell k addr)
    (hindex : n.registers.i = m.registers.i) : n.SelectsCell k addr := by
  rwa [SelectsCell, hindex]

/-- A register that is loaded takes the byte from the cell as far on as its number. -/
theorem get_loaded_of_le (m : Machine G) {k : Fin 16} {addr : UInt16} (hk : k.val ≤ x.toNat)
    (hcell : m.SelectsCell k addr) : (m.loaded x).get k = m.memory.read addr := by
  have hlength : k.val < (m.memory.readBlock m.registers.i (x.toNat + 1)).length := by
    rw [Memory.length_readBlock]
    exact Nat.lt_succ_of_le hk
  have hbyte := Memory.holds_readBlock m.memory m.registers.i (x.toNat + 1) k addr hlength hcell
  have hentry : (m.loaded x).get k =
      (m.memory.readBlock m.registers.i (x.toNat + 1))[k.val]?.getD (m.registers.v.get k) :=
    Vector.getElem_ofFn k.isLt
  rw [hentry, hbyte]
  rfl

/-! ## The two instructions -/

/-- The word Fx55 is fetched as the instruction that stores registers. -/
theorem FetchesDevice.fetched_storeRegisters (h : m.FetchesDevice x 0x55) :
    m.fetched = .storeRegisters x := by
  rw [h.fetched_eq, Instruction.decodeDevice, h.low, h.register]
  rfl

/-- The word Fx65 is fetched as the instruction that loads registers. -/
theorem FetchesDevice.fetched_loadRegisters (h : m.FetchesDevice x 0x65) :
    m.fetched = .loadRegisters x := by
  rw [h.fetched_eq, Instruction.decodeDevice, h.low, h.register]
  rfl

variable [RandomSource G]

/-- A step on Fx55 stores the registers up to Vx and changes no other cell. -/
theorem stores_stepped (h : m.FetchesDevice x 0x55) : m.Stores x m.stepped := by
  rcases stepped_of_fetched h.fetched_storeRegisters rfl with ⟨hsuccess, hmachine⟩
  refine { success := hsuccess, stored := ?_, others := ?_, index := ?_ } <;> rw [hmachine]
  · intro k addr hk hcell
    exact m.afterFetch.read_storeRegisters hk hcell
  · intro addr hother
    have huntouched : ¬m.afterFetch.Touches (.storeRegisters x) (.cell addr) := by
      rintro ⟨k, hk, hcell⟩
      exact hother k hk hcell
    exact read_nextMemory huntouched
  · rfl

/-- A step on Fx65 loads the registers up to Vx and changes no other register. -/
theorem loads_stepped (h : m.FetchesDevice x 0x65) : m.Loads x m.stepped := by
  rcases stepped_of_fetched h.fetched_loadRegisters rfl with ⟨hsuccess, hmachine⟩
  refine { success := hsuccess, loaded := ?_, others := ?_, index := ?_, memory := ?_ } <;>
    rw [hmachine]
  · intro k addr hk hcell
    exact m.afterFetch.get_loaded_of_le hk hcell
  · intro k hk
    exact m.afterFetch.get_loaded_of_lt hk
  · rfl
  · rfl

theorem step_of_storeRegisters (h : m.FetchesDevice x 0x55) (hfull : ¬m.Full) :
    m.step = .ok m.stepped :=
  step_of_fetched h.fetched_storeRegisters (by simp) hfull

theorem step_of_loadRegisters (h : m.FetchesDevice x 0x65) (hfull : ¬m.Full) :
    m.step = .ok m.stepped :=
  step_of_fetched h.fetched_loadRegisters (by simp) hfull

/-! ## One after the other -/

omit [RandomSource G] in
/-- What has been stored is loaded back, wherever the same cells are found at the same
index: any one address of the cell will do for all three machines. -/
theorem Loads.get_eq_of_stores {stored : Outcome G} (hstores : m.Stores x stored)
    (hsame : SameBlock stored.machine n x) (hloads : n.Loads y outcome) (hyx : y ≤ x) {k : Fin 16}
    (hk : k.val ≤ y.toNat) : outcome.machine.registers.v.get k = m.registers.v.get k := by
  have hkx : k.val ≤ x.toNat := Nat.le_trans hk (UInt8.le_iff_toNat_le.mp hyx)
  rcases m.exists_selectsCell k with ⟨addr, hcell⟩
  have hstored := hcell.congr hstores.index
  calc outcome.machine.registers.v.get k
      = n.memory.read addr := hloads.loaded k addr hk (hstored.congr hsame.index)
    _ = stored.machine.memory.read addr := hsame.cells k addr hkx hstored
    _ = m.registers.v.get k := hstores.stored k addr hkx hcell

omit [RandomSource G] in
/-- Registers that hold what was loaded from the same cells are stored without a change. -/
theorem Stores.memory_eq_of_loads {loaded : Outcome G} (hx : x.toNat < 16)
    (hloads : m.Loads x loaded) (hindex : n.registers.i = loaded.machine.registers.i)
    (hregisters : ∀ k : Fin 16, k.val ≤ x.toNat →
      n.registers.v.get k = loaded.machine.registers.v.get k)
    (hmemory : n.memory = loaded.machine.memory) (hstores : n.Stores x outcome) :
    outcome.machine.memory = m.memory := by
  have hindex : m.registers.i = n.registers.i := (hindex.trans hloads.index).symm
  have hmemory : n.memory = m.memory := hmemory.trans hloads.memory
  apply Memory.eq_of_read_eq
  intro addr
  by_cases hcell : ∃ k ≤ x.toNat, n.SelectsCell k addr
  · rcases hcell with ⟨k, hk, hcell⟩
    let register : Fin 16 := ⟨k, Nat.lt_of_le_of_lt hk hx⟩
    calc outcome.machine.memory.read addr
        = n.registers.v.get register := hstores.stored register addr hk hcell
      _ = loaded.machine.registers.v.get register := hregisters register hk
      _ = m.memory.read addr := hloads.loaded register addr hk (hcell.congr hindex)
  · have hother : ∀ k ≤ x.toNat, ¬n.SelectsCell k addr :=
      fun k hk hk' => hcell ⟨k, hk, hk'⟩
    rw [hstores.others addr hother, hmemory]

/-- Whatever the index register is, the registers up to one are stored in the cells from
there on and nowhere else. Every machine that finds these cells at the same index loads from
them, up to that register, what was stored. And what has been loaded is stored again, from
the same index, without a change of memory. -/
theorem register_block_law (m : Machine G) (x : UInt8) :
    (m.FetchesDevice x 0x55 → m.Full ∨ ∃ stored, m.step = .ok stored ∧ m.Stores x stored ∧
      ∀ (n : Machine G) (y : UInt8), n.FetchesDevice y 0x65 → y ≤ x →
        SameBlock stored.machine n x →
        n.Full ∨ ∃ loaded, n.step = .ok loaded ∧ n.Loads y loaded ∧
          ∀ k : Fin 16, k.val ≤ y.toNat →
            loaded.machine.registers.v.get k = m.registers.v.get k) ∧
    (m.FetchesDevice x 0x65 → m.Full ∨ ∃ loaded, m.step = .ok loaded ∧ m.Loads x loaded ∧
      ∀ n : Machine G, n.FetchesDevice x 0x55 →
        n.registers.i = loaded.machine.registers.i →
        (∀ k : Fin 16, k.val ≤ x.toNat →
          n.registers.v.get k = loaded.machine.registers.v.get k) →
        n.memory = loaded.machine.memory →
        n.Full ∨ ∃ stored, n.step = .ok stored ∧ stored.fault = none ∧
          stored.machine.memory = m.memory) := by
  constructor
  · intro hword
    by_cases hfull : m.Full
    · exact Or.inl hfull
    have hstores := stores_stepped hword
    refine Or.inr ⟨m.stepped, step_of_storeRegisters hword hfull, hstores, ?_⟩
    intro n y hword' hyx hsame
    by_cases hfull' : n.Full
    · exact Or.inl hfull'
    have hloads := loads_stepped hword'
    exact Or.inr ⟨n.stepped, step_of_loadRegisters hword' hfull', hloads,
      fun k hk => hloads.get_eq_of_stores hstores hsame hyx hk⟩
  · intro hword
    by_cases hfull : m.Full
    · exact Or.inl hfull
    have hrange : x.toNat < 16 := inRange_of_fetched hword.fetched_loadRegisters
    have hloads := loads_stepped hword
    refine Or.inr ⟨m.stepped, step_of_loadRegisters hword hfull, hloads, ?_⟩
    intro n hword' hindex hregisters hmemory
    by_cases hfull' : n.Full
    · exact Or.inl hfull'
    have hstores := stores_stepped hword'
    exact Or.inr ⟨n.stepped, step_of_storeRegisters hword' hfull', hstores.success,
      hstores.memory_eq_of_loads hrange hloads hindex hregisters hmemory⟩

/-- A machine with some registers set and the index register so that they go round the end of
memory, about to execute one of three words. -/
def roundTheEnd (pc : UInt16) : Machine Lcg :=
  { powerOn Lcg.standard with
    registers := { ((Registers.zero.set 1 7).set 2 8).set 3 9 with i := 0xFFFE, pc }
    memory := Memory.powerOn.load 0x200 [0xF3, 0x55, 0xF2, 0x65, 0xF2, 0x55] }

/-- The program stores the registers up to V3, loads those up to V2 and stores these again.
-/
theorem readWord_roundTheEnd (pc : UInt16) :
    (roundTheEnd pc).memory.readWord 0x200 = 0xF355 ∧
      (roundTheEnd pc).memory.readWord 0x202 = 0xF265 ∧
      (roundTheEnd pc).memory.readWord 0x204 = 0xF255 := by
  refine ⟨?_, ?_, ?_⟩ <;> simp [roundTheEnd, Memory.readWord, Memory.read_write] <;> rfl

/-- The words are not among the cells stored into. -/
theorem Stores.readWord_roundTheEnd {pc : UInt16} {outcome : Outcome Lcg}
    (h : (roundTheEnd pc).Stores 3 outcome) (addr : UInt16) (hlow : 0x200 ≤ addr.toNat)
    (hhigh : addr.toNat < 0x300) :
    outcome.machine.memory.readWord addr = (roundTheEnd pc).memory.readWord addr := by
  have hindex : (roundTheEnd pc).registers.i.toNat = 0xFFFE := rfl
  have hthree : (3 : UInt8).toNat = 3 := rfl
  have hnext : (addr + 1).toNat = addr.toNat + 1 := by
    rw [UInt16.toNat_add, UInt16.toNat_one]
    omega
  rw [Memory.readWord, Memory.readWord, h.others addr, h.others (addr + 1)]
  all_goals
    intro k hk hcell
    rw [SelectsCell, hindex] at hcell
    omega

/-- The machine with all byte registers zero, about to execute the second word. -/
def wiped (m : Machine Lcg) : Machine Lcg :=
  { m with registers := { Registers.zero with i := 0xFFFE, pc := 0x202 } }

/-- Four registers are stored round the end of memory; after all registers are wiped, three
of them come back and the fourth does not. What these cells hold at first is stored again,
once loaded, without a change. -/
theorem register_block_law_roundTheEnd :
    (∃ stored loaded, (roundTheEnd 0x200).step = .ok stored ∧
      stored.machine.memory.read 0x0001 = 9 ∧ stored.machine.wiped.step = .ok loaded ∧
      loaded.machine.registers.v.get 2 = 8 ∧ loaded.machine.registers.v.get 3 = 0) ∧
    ∃ loaded stored, (roundTheEnd 0x202).step = .ok loaded ∧
      (loaded.machine.setPc 0x204).step = .ok stored ∧
      stored.machine.memory = (roundTheEnd 0x202).memory := by
  constructor
  · have hopcode : (roundTheEnd 0x200).opcodeAt = 0xF355 := (readWord_roundTheEnd 0x200).1
    have hword : (roundTheEnd 0x200).FetchesDevice 3 0x55 := by
      constructor <;> rw [hopcode] <;> rfl
    rcases ((register_block_law (roundTheEnd 0x200) 3).1 hword).resolve_left (by decide) with
      ⟨stored, hstep, hstores, hback⟩
    have hopcode' : stored.machine.wiped.opcodeAt = 0xF265 :=
      (hstores.readWord_roundTheEnd 0x202 (by decide) (by decide)).trans
        (readWord_roundTheEnd 0x200).2.1
    have hword' : stored.machine.wiped.FetchesDevice 2 0x65 := by
      constructor <;> rw [hopcode'] <;> rfl
    have hsame : SameBlock stored.machine stored.machine.wiped 3 :=
      { index := hstores.index.symm, cells := fun _ _ _ _ => rfl }
    have hfull : ¬stored.machine.wiped.Full := by
      rw [Full, wiped, ticks_of_step hstep]
      decide
    rcases (hback _ 2 hword' (by decide) hsame).resolve_left hfull with
      ⟨loaded, hstep', hloads, hvalues⟩
    have hlast : (roundTheEnd 0x200).SelectsCell 3 0x0001 := by
      unfold SelectsCell
      rfl
    exact ⟨stored, loaded, hstep, hstores.stored 3 0x0001 (by decide) hlast, hstep',
      hvalues 2 (by decide), hloads.others 3 (by decide)⟩
  · have hopcode : (roundTheEnd 0x202).opcodeAt = 0xF265 := (readWord_roundTheEnd 0x202).2.1
    have hword : (roundTheEnd 0x202).FetchesDevice 2 0x65 := by
      constructor <;> rw [hopcode] <;> rfl
    rcases ((register_block_law (roundTheEnd 0x202) 2).2 hword).resolve_left (by decide) with
      ⟨loaded, hstep, hloads, hback⟩
    have hopcode' : (loaded.machine.setPc 0x204).opcodeAt = 0xF255 := by
      rw [← (readWord_roundTheEnd 0x202).2.2, ← hloads.memory]
      rfl
    have hword' : (loaded.machine.setPc 0x204).FetchesDevice 2 0x55 := by
      constructor <;> rw [hopcode'] <;> rfl
    have hfull : ¬(loaded.machine.setPc 0x204).Full := by
      rw [Full, setPc, ticks_of_step hstep]
      decide
    rcases (hback _ hword' rfl (fun _ _ => rfl) rfl).resolve_left hfull with
      ⟨stored, hstep', -, hmemory⟩
    exact ⟨loaded, stored, hstep, hstep', hmemory⟩

end Machine

end Chip8
