import Chip8.Memory.Blocks
import Chip8.Proofs.Step
import Chip8.Random.Lcg

/-!
# The footprint of an instruction

An instruction that is not refused changes the program counter and the parts of the machine
that the table `Machine.Touches` lists for it, and leaves everything else as it was.  The
three decimal digits and the registers that are stored go round the end of memory.

Main results:

- Theorem `Machine.kept_effect`: an instruction keeps every part that it does not touch.
- Theorem `Machine.footprint_law`: what a step that is not refused keeps, and what it puts
  into the screen, the call stack and the memory.
-/

namespace Chip8

/-- The parts of a machine that an instruction may touch or not, the program counter
apart. -/
inductive Machine.Part where
  | register (k : Fin 16)
  | index
  | slot (k : Fin 16)
  | depth
  | cell (addr : UInt16)
  | screen
  | delay
  | sound
  | random

namespace Machine

variable {G : Type}

/-- The part is the same in two machines. -/
def Part.Kept (m n : Machine G) : Part → Prop
  | .register k => n.registers.v.get k = m.registers.v.get k
  | .index => n.registers.i = m.registers.i
  | .slot k => n.registers.stack.slots.get k = m.registers.stack.slots.get k
  | .depth => n.registers.stack.depth = m.registers.stack.depth
  | .cell addr => n.memory.read addr = m.memory.read addr
  | .screen => n.screen = m.screen
  | .delay => n.timers.delay = m.timers.delay
  | .sound => n.timers.sound = m.timers.sound
  | .random => n.random = m.random

/-- The parts that an instruction may change. -/
def Touches (m : Machine G) : Instruction → Part → Prop
  | .setByte x _, .register k | .addByte x _, .register k | .copy x _, .register k
  | .or x _, .register k | .and x _, .register k | .xor x _, .register k
  | .random x _, .register k | .getDelay x, .register k => k.val = x.toNat
  | .waitKey x, .register k => m.keypad.firstPressed?.isSome ∧ k.val = x.toNat
  | .add x _, .register k | .sub x _, .register k | .subFrom x _, .register k
  | .shiftRight x, .register k | .shiftLeft x, .register k => k.val = x.toNat ∨ k.val = 15
  | .draw _ _ _, .register k => k.val = 15
  | .loadRegisters x, .register k => k.val ≤ x.toNat
  | .setIndex _, .index | .addIndex _, .index | .glyph _, .index => True
  | .call _, .slot k => k.val = m.registers.stack.depth.toNat
  | .call _, .depth | .ret, .depth => True
  | .storeDecimal _, .cell addr => ∃ k < 3, (m.registers.i.toNat + k) % 4096 = addr.toNat % 4096
  | .storeRegisters x, .cell addr =>
    ∃ k ≤ x.toNat, (m.registers.i.toNat + k) % 4096 = addr.toNat % 4096
  | .clearScreen, .screen | .draw _ _ _, .screen => True
  | .setDelay _, .delay => True
  | .setSound _, .sound => True
  | .random _ _, .random => True
  | _, _ => False

/-! ## Byte registers -/

/-- Writing one register keeps the others. -/
theorem get_set_of_ne (regs : Registers) {x : UInt8} (byte : UInt8) {k : Fin 16}
    (hx : x.toNat < 16) (h : k.val ≠ x.toNat) : (regs.set x byte).v.get k = regs.v.get k := by
  have hne : x.toNat % 16 ≠ k.val := by omega
  exact Vector.getElem_set_ne (Nat.mod_lt _ (by decide)) k.isLt hne

/-- Writing the flag keeps every register but the last. -/
theorem get_writeFlag_of_ne (regs : Registers) (flag : Bool) {k : Fin 16} (h : k.val ≠ 15) :
    (regs.writeFlag flag).v.get k = regs.v.get k :=
  Vector.getElem_set_ne (by decide) k.isLt (Ne.symm h)

/-- The flag is written after the result, into another register or over it. -/
theorem get_set_writeFlag_of_ne (regs : Registers) {x : UInt8} (byte : UInt8) (flag : Bool)
    {k : Fin 16} (hx : x.toNat < 16) (h : ¬(k.val = x.toNat ∨ k.val = 15)) :
    ((regs.set x byte).writeFlag flag).v.get k = regs.v.get k := by
  rw [not_or] at h
  rw [get_writeFlag_of_ne _ _ h.2, get_set_of_ne _ _ hx h.1]

/-- A load keeps the registers beyond its operand. -/
theorem get_loaded_of_lt (m : Machine G) {x : UInt8} {k : Fin 16} (h : x.toNat < k.val) :
    (m.loaded x).get k = m.registers.v.get k := by
  have hnone : (m.memory.readBlock m.registers.i (x.toNat + 1))[k.val]? = none := by
    apply List.getElem?_eq_none
    rw [Memory.length_readBlock]
    exact h
  have hentry : (m.loaded x).get k =
      (m.memory.readBlock m.registers.i (x.toNat + 1))[k.val]?.getD (m.registers.v.get k) :=
    Vector.getElem_ofFn k.isLt
  rw [hentry, hnone]
  rfl

variable [RandomSource G] {m : Machine G} {ins : Instruction}

/-- A register that an instruction does not touch keeps its byte. -/
theorem get_nextBytes {k : Fin 16} (hins : ins.InRange) (h : ¬m.Touches ins (.register k)) :
    (m.nextBytes ins).get k = m.registers.v.get k := by
  cases ins with
  | setByte x kk => exact get_set_of_ne _ _ hins h
  | addByte x kk => exact get_set_of_ne _ _ hins h
  | copy x y => exact get_set_of_ne _ _ hins.1 h
  | or x y => exact get_set_of_ne _ _ hins.1 h
  | and x y => exact get_set_of_ne _ _ hins.1 h
  | xor x y => exact get_set_of_ne _ _ hins.1 h
  | random x kk => exact get_set_of_ne _ _ hins h
  | getDelay x => exact get_set_of_ne _ _ hins h
  | add x y => exact get_set_writeFlag_of_ne _ _ _ hins.1 h
  | sub x y => exact get_set_writeFlag_of_ne _ _ _ hins.1 h
  | subFrom x y => exact get_set_writeFlag_of_ne _ _ _ hins.1 h
  | shiftRight x => exact get_set_writeFlag_of_ne _ _ _ hins h
  | shiftLeft x => exact get_set_writeFlag_of_ne _ _ _ hins h
  | draw x y n => exact get_writeFlag_of_ne _ _ h
  | waitKey x =>
      rw [nextBytes]
      cases hkey : m.keypad.firstPressed? with
      | none => rfl
      | some key => exact get_set_of_ne _ _ hins fun hk => h ⟨by rw [hkey]; rfl, hk⟩
  | loadRegisters x => exact get_loaded_of_lt m (Nat.lt_of_not_le h)
  | _ => rfl

/-! ## Memory -/

omit [RandomSource G] in
/-- A cell that an instruction does not touch keeps its byte. -/
theorem read_nextMemory {addr : UInt16} (h : ¬m.Touches ins (.cell addr)) :
    (m.nextMemory ins).read addr = m.memory.read addr := by
  cases ins with
  | storeDecimal x =>
      apply Memory.read_load_of_untouched
      intro k hk hcell
      exact h ⟨k, hk, hcell⟩
  | storeRegisters x =>
      apply Memory.read_load_of_untouched
      intro k hk hcell
      rw [List.length_take] at hk
      exact h ⟨k, Nat.le_of_lt_succ (Nat.lt_of_lt_of_le hk (Nat.min_le_left _ _)), hcell⟩
  | _ => rfl

/-! ## All parts -/

/-- An instruction keeps every part that it does not touch. -/
theorem kept_effect (hins : ins.InRange) {part : Part} (h : ¬m.Touches ins part) :
    part.Kept m (m.effect ins) := by
  cases part with
  | register k => exact get_nextBytes hins h
  | cell addr => exact read_nextMemory h
  | index =>
      change m.nextIndex ins = m.registers.i
      cases ins with
      | setIndex addr => exact absurd trivial h
      | addIndex x => exact absurd trivial h
      | glyph x => exact absurd trivial h
      | _ => rfl
  | slot k =>
      change (m.nextStack ins).slots.get k = m.registers.stack.slots.get k
      cases ins with
      | call addr => exact Vector.getElem_setIfInBounds_ne k.isLt (Ne.symm h)
      | _ => rfl
  | depth =>
      change (m.nextStack ins).depth = m.registers.stack.depth
      cases ins with
      | call addr => exact absurd trivial h
      | ret => exact absurd trivial h
      | _ => rfl
  | screen =>
      change m.nextScreen ins = m.screen
      cases ins with
      | clearScreen => exact absurd trivial h
      | draw x y n => exact absurd trivial h
      | _ => rfl
  | delay =>
      change (m.nextTimers ins).delay = m.timers.delay
      cases ins with
      | setDelay x => exact absurd trivial h
      | _ => rfl
  | sound =>
      change (m.nextTimers ins).sound = m.timers.sound
      cases ins with
      | setSound x => exact absurd trivial h
      | _ => rfl
  | random =>
      change m.nextRandom ins = m.random
      cases ins with
      | random x kk => exact absurd trivial h
      | _ => rfl

/-! ## What is put into the parts -/

/-- The three bytes stored for a byte are its decimal digits. -/
theorem decimal_digits (v : UInt8) :
    (v / 100).toNat ≤ 9 ∧ (v / 10 % 10).toNat ≤ 9 ∧ (v % 10).toNat ≤ 9 ∧
      100 * (v / 100).toNat + 10 * (v / 10 % 10).toNat + (v % 10).toNat = v.toNat := by
  have hlt := v.toNat_lt
  simp only [UInt8.toNat_div, UInt8.toNat_mod, UInt8.reduceToNat]
  omega

omit [RandomSource G] in
/-- Storing registers puts each of them into the cell as far on as its number. -/
theorem read_storeRegisters (m : Machine G) {x : UInt8} {k : Fin 16} (hk : k.val ≤ x.toNat)
    {addr : UInt16} (hcell : (m.registers.i.toNat + k.val) % 4096 = addr.toNat % 4096) :
    (m.nextMemory (.storeRegisters x)).read addr = m.registers.v.get k := by
  have hlength : (m.registers.v.toList.take (x.toNat + 1)).length = min (x.toNat + 1) 16 := by
    simp
  have hfits : (m.registers.v.toList.take (x.toNat + 1)).length ≤ 4096 := by omega
  have hamong : k.val < (m.registers.v.toList.take (x.toNat + 1)).length := by omega
  have hbyte := Memory.read_load_of_length_le m.memory hfits hamong hcell
  rw [List.getElem?_take_of_lt (Nat.lt_succ_of_le hk), Vector.getElem?_toList,
    Vector.getElem?_eq_getElem k.isLt] at hbyte
  exact (Option.some.inj hbyte).symm

/-- What executing an instruction changes in a machine, the program counter apart. -/
structure Footprint (m : Machine G) (ins : Instruction) (n : Machine G) : Prop where
  /-- The word fetched is latched. -/
  opcode : n.registers.opcode = m.memory.readWord m.registers.pc
  /-- The attempt is counted. -/
  ticks : n.ticks.count.toNat = m.ticks.count.toNat + 1
  /-- Nothing but the parts in the table changes. -/
  kept : ∀ part, ¬m.Touches ins part → part.Kept m n
  /-- No instruction presses or releases a key. -/
  keypad : n.keypad = m.keypad
  /-- A cleared screen has no pixel lit. -/
  cleared : ins = .clearScreen → ∀ x y, n.screen.pixel x y = false
  /-- A call takes one more slot, for the address after it. -/
  called : ∀ addr, ins = .call addr →
    n.registers.stack.depth.toNat = m.registers.stack.depth.toNat + 1 ∧
    ∀ k : Fin 16, k.val = m.registers.stack.depth.toNat →
      n.registers.stack.slots.get k = m.registers.pc + 2
  /-- A return gives up one slot. -/
  returned : ins = .ret →
    n.registers.stack.depth.toNat + 1 = m.registers.stack.depth.toNat
  /-- The cells from the index register on get the decimal digits of a register. -/
  decimal : ∀ x, ins = .storeDecimal x → ∃ h t o : UInt8,
    h.toNat ≤ 9 ∧ t.toNat ≤ 9 ∧ o.toNat ≤ 9 ∧
    100 * h.toNat + 10 * t.toNat + o.toNat = (m.registers.get x).toNat ∧
    n.memory.Holds m.registers.i [h, t, o]
  /-- The cells from the index register on get the registers stored. -/
  stored : ∀ x (k : Fin 16) addr, ins = .storeRegisters x → k.val ≤ x.toNat →
    (m.registers.i.toNat + k.val) % 4096 = addr.toNat % 4096 →
    n.memory.read addr = m.registers.v.get k
  /-- An instruction that is ignored does no more than its fetch. -/
  ignored : ins.isIgnored = true → n = m.afterFetch
  /-- The logical instructions leave the flag alone unless it is their operand. -/
  flag : ∀ x y, ins = .or x y ∨ ins = .and x y ∨ ins = .xor x y → x.toNat ≠ 15 →
    n.registers.vf = m.registers.vf

/-- What an instruction does after its fetch stays within its footprint; the fetch itself
changes none of the parts listed there. -/
theorem footprint_effect (hfull : ¬m.Full) (hins : ins.InRange)
    (hsuccess : m.afterFetch.refusal? ins = none) :
    m.Footprint ins (m.afterFetch.effect ins) := by
  have hkept : ∀ part, ¬m.Touches ins part → part.Kept m (m.afterFetch.effect ins) := by
    intro part h
    have htouches : ¬m.afterFetch.Touches ins part := h
    have hafter := kept_effect hins htouches
    cases part <;> exact hafter
  refine
    { opcode := rfl
      ticks := Ticks.toNat_of_add (add_one_of_not_full hfull)
      kept := hkept
      keypad := rfl
      cleared := ?_
      called := ?_
      returned := ?_
      decimal := ?_
      stored := ?_
      ignored := ?_
      flag := ?_ }
  · rintro rfl
    exact Screen.pixel_blank
  · rintro addr rfl
    rw [refusal?_call_eq_none_iff] at hsuccess
    refine ⟨CallStack.toNat_depth_pushed hsuccess _, ?_⟩
    intro k hk
    exact (Vector.getElem_setIfInBounds k.isLt).trans (if_pos hk.symm)
  · rintro rfl
    rw [refusal?_ret_eq_none_iff] at hsuccess
    have hdepth := CallStack.toNat_depth_popped hsuccess
    change m.afterFetch.registers.stack.popped.depth.toNat + 1 = _
    rw [hdepth]
    exact Nat.sub_add_cancel hsuccess
  · rintro x rfl
    obtain ⟨hh, ht, ho, hsum⟩ := decimal_digits (m.registers.get x)
    exact ⟨_, _, _, hh, ht, ho, hsum, Memory.holds_load _ _ (by simp)⟩
  · rintro x k addr rfl hk hcell
    exact m.afterFetch.read_storeRegisters hk hcell
  · intro hignored
    cases ins with
    | hostCall addr => rfl
    | unassigned opcode => rfl
    | _ => cases hignored
  · rintro x y hop hx
    have hflag : ¬m.Touches ins (.register 15) := by
      rcases hop with rfl | rfl | rfl <;> exact Ne.symm hx
    exact hkept _ hflag

/-- Every step that is not refused has the footprint of the instruction fetched. -/
theorem footprint_law {outcome : Outcome G} (h : m.step = .ok outcome)
    (hsuccess : outcome.fault = none) : m.Footprint m.fetched outcome.machine := by
  obtain ⟨hfull, rfl⟩ := eq_stepped_of_step h
  rw [stepped_of_success hsuccess]
  exact footprint_effect hfull m.fetched_inRange hsuccess

/-- A machine about to store the digits of 254 from the last cell but one on. -/
def digitsAtEnd : Machine Lcg :=
  let memory := Memory.powerOn.load Memory.programStart [0xF2, 0x33]
  let registers := { Registers.zero.set 2 254 with i := 0x0FFE, pc := Memory.programStart }
  { powerOn Lcg.standard with registers, memory }

/-- The last digit goes round to cell zero, and the cell after it is left alone. -/
theorem footprint_law_digitsAtEnd :
    ∃ outcome, digitsAtEnd.step = .ok outcome ∧ outcome.fault = none ∧
      outcome.machine.memory.read 0x0FFE = 2 ∧ outcome.machine.memory.read 0x0FFF = 5 ∧
      outcome.machine.memory.read 0x0000 = 4 ∧
      outcome.machine.memory.read 0x0001 = digitsAtEnd.memory.read 0x0001 := by
  have hstart : digitsAtEnd.registers.stack.depth.toNat ≤ 16 ∧ ¬digitsAtEnd.Full := by decide
  have hfetched : digitsAtEnd.fetched = .storeDecimal 2 := by decide +kernel
  have hsuccess : digitsAtEnd.stepped.fault = none := by rw [fault_stepped, hfetched]; rfl
  have hstep := step_eq hstart.1 hstart.2
  have hfootprint := footprint_law hstep hsuccess
  obtain ⟨h, t, o, hh, ht, ho, hsum, hholds⟩ := hfootprint.decimal 2 hfetched
  have hvalue : (digitsAtEnd.registers.get 2).toNat = 254 := rfl
  have htwo : h = 2 := UInt8.toNat_inj.mp (by change h.toNat = 2; omega)
  have hfive : t = 5 := UInt8.toNat_inj.mp (by change t.toNat = 5; omega)
  have hfour : o = 4 := UInt8.toNat_inj.mp (by change o.toNat = 4; omega)
  subst htwo hfive hfour
  refine ⟨_, hstep, hsuccess, ?_, ?_, ?_, ?_⟩
  · exact (Option.some.inj (hholds 0 0x0FFE (by decide) (by decide))).symm
  · exact (Option.some.inj (hholds 1 0x0FFF (by decide) (by decide))).symm
  · exact (Option.some.inj (hholds 2 0x0000 (by decide) (by decide))).symm
  · apply hfootprint.kept (.cell 0x0001)
    rw [hfetched]
    rintro ⟨k, hk, hcell⟩
    have hindex : digitsAtEnd.registers.i.toNat = 4094 := rfl
    have haddr : (0x0001 : UInt16).toNat = 1 := rfl
    omega

end Machine

end Chip8
