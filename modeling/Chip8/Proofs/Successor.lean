import Chip8.Proofs.Step
import Chip8.Random.Lcg

/-!
# Where the program goes on

Every instruction finds the program counter two bytes past itself.  A skip whose condition
holds adds two more, an instruction that waits for a key takes the two back, and a jump, a
call or a return puts another address there.  All sums are of 16-bit words, so that the
program goes round the end of the address space.  Nothing else moves the program counter.

Main results:

- Theorem `Machine.skipsNext_iff`: which skips have a condition that holds.
- Theorem `Machine.pc_stepped_of_diverts`: an instruction that goes on elsewhere does so.
- Theorem `Machine.diverts_or_pc_stepped_eq`: every other one goes on at the next.
- Theorem `Machine.Opposes.skips_eq`: of two words with opposite conditions one skips.
- Theorem `Machine.successor_law`: so it is for every machine and every word.
-/

namespace Chip8

/-- Whether the instruction may skip the next one. -/
def Instruction.isSkip : Instruction → Bool
  | .skipIfByte _ _ | .skipUnlessByte _ _ | .skipIfSame _ _ | .skipUnlessSame _ _
  | .skipIfKey _ | .skipUnlessKey _ => true
  | _ => false

namespace Machine

variable {G : Type} {m n : Machine G}

/-! ## Instructions that go on elsewhere -/

/-- The instruction at the program counter is a skip whose condition holds. -/
inductive SkipsNext (m : Machine G) : Prop
  | ifByte (x kk : UInt8) (hins : m.fetched = .skipIfByte x kk) (hvx : m.register x = .ok kk)
  | unlessByte (x kk vx : UInt8) (hins : m.fetched = .skipUnlessByte x kk)
      (hvx : m.register x = .ok vx) (hne : vx ≠ kk)
  | ifSame (x y v : UInt8) (hins : m.fetched = .skipIfSame x y) (hvx : m.register x = .ok v)
      (hvy : m.register y = .ok v)
  | unlessSame (x y vx vy : UInt8) (hins : m.fetched = .skipUnlessSame x y)
      (hvx : m.register x = .ok vx) (hvy : m.register y = .ok vy) (hne : vx ≠ vy)
  | ifKey (x key : UInt8) (hins : m.fetched = .skipIfKey x) (hvx : m.register x = .ok key)
      (hheld : m.keypad.isPressed key = true)
  | unlessKey (x key : UInt8) (hins : m.fetched = .skipUnlessKey x)
      (hvx : m.register x = .ok key) (hup : m.keypad.isPressed key = false)

/-- The instruction at the program counter does not go on at the next one but at the given
address. -/
inductive Diverts (m : Machine G) : UInt16 → Prop
  | jump (addr : UInt16) (hins : m.fetched = .jump addr ∨ m.fetched = .call addr) :
      Diverts m addr
  /-- The sum keeps all of its bits. -/
  | offset (addr pc : UInt16) (v0 : UInt8) (hins : m.fetched = .jumpOffset addr)
      (hv0 : m.register 0 = .ok v0) (hpc : pc.toNat = addr.toNat + v0.toNat) : Diverts m pc
  /-- A return goes on at the address in the newest slot in use. -/
  | ret (k : Fin 16) (hins : m.fetched = .ret)
      (hdepth : m.registers.stack.depth.toNat = k.val + 1) :
      Diverts m (m.registers.stack.slots.get k)
  /-- Without a key held, the instruction that waits for one is fetched again. -/
  | wait (x : UInt8) (hins : m.fetched = .waitKey x)
      (hidle : ∀ key, m.keypad.isPressed key = false) : Diverts m m.registers.pc
  | skip (h : m.SkipsNext) : Diverts m (m.registers.pc + 4)

/-- The words at the two program counters are skips with opposite conditions on the same
operands: 3xkk and 4xkk, 5xy? and 9xy?, or Ex?E and Ex?1 with a key of the pad in Vx. -/
inductive Opposes (m n : Machine G) : Prop
  | byte (hm : Opcode.family m.opcodeAt = 0x3) (hn : Opcode.family n.opcodeAt = 0x4)
      (hx : Opcode.x n.opcodeAt = Opcode.x m.opcodeAt)
      (hkk : Opcode.kk n.opcodeAt = Opcode.kk m.opcodeAt)
  | registers (hm : Opcode.family m.opcodeAt = 0x5) (hn : Opcode.family n.opcodeAt = 0x9)
      (hx : Opcode.x n.opcodeAt = Opcode.x m.opcodeAt)
      (hy : Opcode.y n.opcodeAt = Opcode.y m.opcodeAt)
  | key (key : UInt8) (hm : Opcode.family m.opcodeAt = 0xE)
      (hn : Opcode.family n.opcodeAt = 0xE) (hlow : Opcode.n m.opcodeAt = 0xE)
      (hlow' : Opcode.n n.opcodeAt = 0x1) (hx : Opcode.x n.opcodeAt = Opcode.x m.opcodeAt)
      (hkey : m.register (Opcode.x m.opcodeAt) = .ok key) (hrange : key ≤ 15)

/-- Only a skip has a condition that holds. -/
theorem SkipsNext.isSkip (h : m.SkipsNext) : m.fetched.isSkip = true := by
  cases h with
  | ifByte _ _ hins | unlessByte _ _ _ hins | ifSame _ _ _ hins | unlessSame _ _ _ _ hins
  | ifKey _ _ hins | unlessKey _ _ hins =>
      rw [hins]
      rfl

/-- The condition of a skip holds exactly if it is computed to hold. -/
theorem skipsNext_iff : m.SkipsNext ↔ m.skips m.fetched = true := by
  constructor
  · intro h
    cases h with
    | ifByte x kk hins hvx =>
        simp [hins, skips, get_of_register (inRange_of_fetched hins) hvx]
    | unlessByte x kk vx hins hvx hne =>
        simp [hins, skips, get_of_register (inRange_of_fetched hins) hvx, hne]
    | ifSame x y v hins hvx hvy =>
        have hrange := inRange_of_fetched hins
        simp [hins, skips, get_of_register hrange.1 hvx, get_of_register hrange.2 hvy]
    | unlessSame x y vx vy hins hvx hvy hne =>
        have hrange := inRange_of_fetched hins
        simp [hins, skips, get_of_register hrange.1 hvx, get_of_register hrange.2 hvy, hne]
    | ifKey x key hins hvx hheld =>
        simp [hins, skips, get_of_register (inRange_of_fetched hins) hvx, hheld]
    | unlessKey x key hins hvx hup =>
        simp [hins, skips, get_of_register (inRange_of_fetched hins) hvx, hup]
  · intro h
    have hrange := m.fetched_inRange
    cases hins : m.fetched with
    | skipIfByte x kk =>
        rw [hins] at h hrange
        have hvx := m.register_of_lt hrange
        rw [skips, beq_iff_eq] at h
        exact .ifByte x kk hins (h ▸ hvx)
    | skipUnlessByte x kk =>
        rw [hins] at h hrange
        rw [skips, bne_iff_ne] at h
        exact .unlessByte x kk _ hins (m.register_of_lt hrange) h
    | skipIfSame x y =>
        rw [hins] at h hrange
        have hvy := m.register_of_lt hrange.2
        rw [skips, beq_iff_eq] at h
        exact .ifSame x y _ hins (m.register_of_lt hrange.1) (h ▸ hvy)
    | skipUnlessSame x y =>
        rw [hins] at h hrange
        rw [skips, bne_iff_ne] at h
        exact .unlessSame x y _ _ hins (m.register_of_lt hrange.1) (m.register_of_lt hrange.2) h
    | skipIfKey x =>
        rw [hins] at h hrange
        exact .ifKey x _ hins (m.register_of_lt hrange) h
    | skipUnlessKey x =>
        rw [hins] at h hrange
        rw [skips, Bool.not_eq_true'] at h
        exact .unlessKey x _ hins (m.register_of_lt hrange) h
    | _ => simp [hins, skips] at h

/-! ## Words of the families that skip -/

/-- A word of family 3 skips if its register holds its low byte. -/
theorem fetched_of_family_skipIfByte (h : Opcode.family m.opcodeAt = 0x3) :
    m.fetched = .skipIfByte (Opcode.x m.opcodeAt) (Opcode.kk m.opcodeAt) := by
  rw [fetched, Instruction.decode, h]
  rfl

/-- A word of family 4 skips unless its register holds its low byte. -/
theorem fetched_of_family_skipUnlessByte (h : Opcode.family m.opcodeAt = 0x4) :
    m.fetched = .skipUnlessByte (Opcode.x m.opcodeAt) (Opcode.kk m.opcodeAt) := by
  rw [fetched, Instruction.decode, h]
  rfl

/-- A word of family 5 compares two registers, whatever its lowest nibble is. -/
theorem fetched_of_family_skipIfSame (h : Opcode.family m.opcodeAt = 0x5) :
    m.fetched = .skipIfSame (Opcode.x m.opcodeAt) (Opcode.y m.opcodeAt) := by
  rw [fetched, Instruction.decode, h]
  rfl

/-- So does a word of family 9. -/
theorem fetched_of_family_skipUnlessSame (h : Opcode.family m.opcodeAt = 0x9) :
    m.fetched = .skipUnlessSame (Opcode.x m.opcodeAt) (Opcode.y m.opcodeAt) := by
  rw [fetched, Instruction.decode, h]
  rfl

/-- A word of family E is decoded by its lowest nibble. -/
theorem fetched_of_family_key (h : Opcode.family m.opcodeAt = 0xE) :
    m.fetched = .decodeKey m.opcodeAt := by
  rw [fetched, Instruction.decode, h]
  rfl

/-- On the same registers and keys, two skips with opposite conditions are not refused, and
the condition of one of them holds. -/
theorem Opposes.skips_eq (h : m.Opposes n) (hregisters : n.registers = m.registers)
    (hkeypad : n.keypad = m.keypad) :
    (m.fetched.isSkip = true ∧ m.afterFetch.refusal? m.fetched = none) ∧
      (n.fetched.isSkip = true ∧ n.afterFetch.refusal? n.fetched = none) ∧
      n.skips n.fetched = !m.skips m.fetched := by
  cases h with
  | byte hm hn hx hkk =>
      have hfetched := fetched_of_family_skipIfByte hm
      have hfetched' := fetched_of_family_skipUnlessByte hn
      rw [hx, hkk] at hfetched'
      rw [hfetched, hfetched']
      refine ⟨⟨rfl, rfl⟩, ⟨rfl, rfl⟩, ?_⟩
      simp only [skips, hregisters, bne]
  | registers hm hn hx hy =>
      have hfetched := fetched_of_family_skipIfSame hm
      have hfetched' := fetched_of_family_skipUnlessSame hn
      rw [hx, hy] at hfetched'
      rw [hfetched, hfetched']
      refine ⟨⟨rfl, rfl⟩, ⟨rfl, rfl⟩, ?_⟩
      simp only [skips, hregisters, bne]
  | key key hm hn hlow hlow' hx hkey hrange =>
      have hfetched : m.fetched = .skipIfKey (Opcode.x m.opcodeAt) := by
        rw [fetched_of_family_key hm, Instruction.decodeKey, hlow]
        rfl
      have hfetched' : n.fetched = .skipUnlessKey (Opcode.x m.opcodeAt) := by
        rw [fetched_of_family_key hn, Instruction.decodeKey, hlow', hx]
        rfl
      have hvx := get_of_register (Opcode.x_lt m.opcodeAt) hkey
      have hlt : (m.registers.get (Opcode.x m.opcodeAt)).toNat < 16 := by
        rw [hvx]
        exact Nat.lt_succ_of_le (UInt8.le_iff_toNat_le.mp hrange)
      rw [hfetched, hfetched']
      refine ⟨⟨rfl, if_pos hlt⟩, ⟨rfl, if_pos ?_⟩, ?_⟩
      · rw [get_afterFetch, hregisters]
        exact hlt
      · simp only [skips, hregisters, hkeypad]

/-! ## The program counter after a step -/

/-- The fetch changes nothing that a condition is about. -/
@[simp]
theorem skips_afterFetch (m : Machine G) (ins : Instruction) :
    m.afterFetch.skips ins = m.skips ins := by
  cases ins <;> rfl

/-- The sum of an address of twelve bits and a byte is an address. -/
theorem toNat_addr_add {addr : UInt16} (h : addr.toNat < 4096) (v : UInt8) :
    (addr + v.toUInt16).toNat = addr.toNat + v.toNat := by
  have hv := v.toNat_lt
  rw [UInt16.toNat_add, UInt8.toNat_toUInt16]
  exact Nat.mod_eq_of_lt (by omega)

/-- A skip moves the program counter by its condition alone. -/
theorem nextPc_of_isSkip (m : Machine G) {ins : Instruction} (h : ins.isSkip = true) :
    m.nextPc ins = if m.skips ins then m.registers.pc + 2 else m.registers.pc := by
  cases ins with
  | skipIfByte _ _ | skipUnlessByte _ _ | skipIfSame _ _ | skipUnlessSame _ _ | skipIfKey _
  | skipUnlessKey _ => rfl
  | _ => simp [Instruction.isSkip] at h

variable [RandomSource G]

/-- A step that is not refused goes on where its instruction leaves the program counter. -/
theorem pc_stepped (hsuccess : m.stepped.fault = none) :
    m.stepped.machine.registers.pc = m.afterFetch.nextPc m.fetched := by
  rw [stepped_of_success hsuccess]
  rfl

/-- A skip whose condition holds passes over the next instruction, and any other skip goes on
there. -/
theorem pc_stepped_of_isSkip (hsuccess : m.stepped.fault = none)
    (h : m.fetched.isSkip = true) :
    m.stepped.machine.registers.pc =
      if m.skips m.fetched then m.registers.pc + 4 else m.registers.pc + 2 := by
  have hnext : m.afterFetch.registers.pc = m.registers.pc + 2 := rfl
  have hfour : m.registers.pc + 2 + 2 = m.registers.pc + 4 :=
    UInt16.add_assoc m.registers.pc 2 2
  rw [pc_stepped hsuccess, nextPc_of_isSkip _ h, skips_afterFetch, hnext, hfour]

/-- An instruction that goes on elsewhere does so. -/
theorem pc_stepped_of_diverts {pc : UInt16} (hsuccess : m.stepped.fault = none)
    (h : m.Diverts pc) : m.stepped.machine.registers.pc = pc := by
  cases h with
  | jump addr hins =>
      rw [pc_stepped hsuccess]
      rcases hins with hins | hins <;> rw [hins, nextPc]
  | offset addr pc v0 hins hv0 hpc =>
      have hvalue : m.afterFetch.registers.get 0 = v0 := get_of_register (by decide) hv0
      rw [pc_stepped hsuccess, hins, nextPc, hvalue]
      apply UInt16.toNat_inj.mp
      rw [toNat_addr_add (inRange_of_fetched hins), hpc]
  | ret k hins hdepth =>
      have hlimit : m.registers.stack.depth.toNat ≤ 16 := by omega
      have hpos : 0 < m.registers.stack.depth.toNat := by omega
      rw [pc_stepped hsuccess, hins, nextPc, stack_afterFetch,
        CallStack.newest_eq_getElem hlimit hpos]
      simp only [hdepth]
      rfl
  | wait x hins hidle =>
      have hnone : m.afterFetch.keypad.firstPressed? = none :=
        (Keypad.firstPressed?_eq_none_iff _).mpr hidle
      rw [pc_stepped hsuccess, hins, nextPc, hnone]
      exact UInt16.add_sub_cancel m.registers.pc 2
  | skip h => rw [pc_stepped_of_isSkip hsuccess h.isSkip, if_pos (skipsNext_iff.mp h)]

/-- A step that is not refused goes on elsewhere or at the next instruction. -/
theorem diverts_or_pc_stepped_eq (hsuccess : m.stepped.fault = none)
    (hdepth : m.fetched = .ret → m.registers.stack.depth.toNat ≤ 16) :
    m.Diverts m.stepped.machine.registers.pc ∨
      m.stepped.machine.registers.pc = m.registers.pc + 2 := by
  by_cases hskip : m.fetched.isSkip = true
  · rw [pc_stepped_of_isSkip hsuccess hskip]
    by_cases hholds : m.SkipsNext
    · rw [if_pos (skipsNext_iff.mp hholds)]
      exact Or.inl (.skip hholds)
    · rw [if_neg (mt skipsNext_iff.mpr hholds)]
      exact Or.inr rfl
  rw [pc_stepped hsuccess]
  cases hins : m.fetched with
  | jump addr => exact Or.inl (.jump addr (Or.inl hins))
  | call addr => exact Or.inl (.jump addr (Or.inr hins))
  | jumpOffset addr =>
      have hv0 : m.register 0 = .ok (m.registers.get 0) := m.register_of_lt (by decide)
      exact Or.inl (.offset addr _ _ hins hv0 (toNat_addr_add (inRange_of_fetched hins) _))
  | ret =>
      have hpos : 0 < m.registers.stack.depth.toNat := by
        rw [fault_stepped, hins] at hsuccess
        exact (refusal?_ret_eq_none_iff m.afterFetch).mp hsuccess
      have hlimit := hdepth hins
      have hlast : m.registers.stack.depth.toNat - 1 < 16 := by omega
      rw [nextPc, stack_afterFetch, CallStack.newest_eq_getElem hlimit hpos]
      exact Or.inl (.ret ⟨m.registers.stack.depth.toNat - 1, hlast⟩ hins
        (Nat.sub_add_cancel hpos).symm)
  | waitKey x =>
      cases hkey : m.keypad.firstPressed? with
      | none =>
          have hidle := (Keypad.firstPressed?_eq_none_iff _).mp hkey
          have hback := pc_stepped_of_diverts hsuccess (.wait x hins hidle)
          rw [pc_stepped hsuccess, hins] at hback
          rw [hback]
          exact Or.inl (.wait x hins hidle)
      | some key =>
          have hsome : m.afterFetch.keypad.firstPressed? = some key := hkey
          rw [nextPc, hsome]
          exact Or.inr rfl
  | skipIfByte _ _ | skipUnlessByte _ _ | skipIfSame _ _ | skipUnlessSame _ _ | skipIfKey _
  | skipUnlessKey _ => exact absurd rfl (hins ▸ hskip)
  | _ => exact Or.inr rfl

/-- What the address is at which a step goes on that is not refused. -/
structure Continues (m : Machine G) (pc : UInt16) : Prop where
  /-- An instruction that goes on elsewhere does so. -/
  elsewhere : ∀ addr, m.Diverts addr → pc = addr
  /-- Every other instruction goes on at the next one. -/
  straight : (∀ addr, ¬m.Diverts addr) → pc = m.registers.pc + 2
  /-- A jump with an offset may pass the end of memory, by less than the largest byte. -/
  offset : ∀ addr, m.fetched = .jumpOffset addr → pc.toNat ≤ 0x10FE
  /-- What is ignored is passed over. -/
  ignored : m.fetched.isIgnored = true → pc = m.registers.pc + 2
  /-- A word of family 5 skips if its registers are the same, whatever its lowest nibble. -/
  same : Opcode.family m.opcodeAt = 0x5 → pc =
    if m.registers.get (Opcode.x m.opcodeAt) = m.registers.get (Opcode.y m.opcodeAt) then
      m.registers.pc + 4
    else m.registers.pc + 2
  /-- A word of family 9 skips unless its registers are the same, whatever its lowest
  nibble. -/
  different : Opcode.family m.opcodeAt = 0x9 → pc =
    if m.registers.get (Opcode.x m.opcodeAt) = m.registers.get (Opcode.y m.opcodeAt) then
      m.registers.pc + 2
    else m.registers.pc + 4

/-- A step that is not refused goes on where it should; the bound on the depth is needed for
returns only. -/
theorem continues_stepped (hsuccess : m.stepped.fault = none)
    (hdepth : m.fetched = .ret → m.registers.stack.depth.toNat ≤ 16) :
    m.Continues m.stepped.machine.registers.pc where
  elsewhere _ := pc_stepped_of_diverts hsuccess
  straight hnone := (diverts_or_pc_stepped_eq hsuccess hdepth).resolve_left (hnone _)
  offset addr hins := by
    have haddr : addr.toNat < 4096 := inRange_of_fetched hins
    have hv0 := (m.registers.get 0).toNat_lt
    have hpc : m.stepped.machine.registers.pc = addr + (m.registers.get 0).toUInt16 := by
      rw [pc_stepped hsuccess, hins]
      rfl
    rw [hpc, toNat_addr_add haddr]
    omega
  ignored hignored := by
    rw [pc_stepped hsuccess]
    cases hins : m.fetched with
    | hostCall _ | unassigned _ => rfl
    | _ => simp [hins, Instruction.isIgnored] at hignored
  same hfamily := by
    have hins := fetched_of_family_skipIfSame hfamily
    rw [pc_stepped_of_isSkip hsuccess (by rw [hins]; rfl), hins]
    simp only [skips, beq_iff_eq]
  different hfamily := by
    have hins := fetched_of_family_skipUnlessSame hfamily
    rw [pc_stepped_of_isSkip hsuccess (by rw [hins]; rfl), hins]
    simp only [skips, bne_iff_ne, ite_not]

/-- A skip that is not refused goes on at one of the two addresses. -/
theorem step_of_isSkip (hskip : m.fetched.isSkip = true)
    (hsuccess : m.afterFetch.refusal? m.fetched = none) (hfull : ¬m.Full) :
    m.step = .ok m.stepped ∧ m.stepped.fault = none ∧ m.stepped.machine.registers.pc =
      if m.skips m.fetched then m.registers.pc + 4 else m.registers.pc + 2 := by
  have hret : m.fetched ≠ .ret := by
    intro hins
    rw [hins] at hskip
    cases hskip
  exact ⟨step_of_fetched rfl hret hfull, hsuccess, pc_stepped_of_isSkip hsuccess hskip⟩

/-! ## Every machine and every word -/

/-- A step that is not refused goes on where its instruction says, and at the next
instruction if it says nothing. Of two words with opposite conditions, put before the same
machine, exactly one skips. -/
theorem successor_law (m : Machine G) :
    (∀ outcome, m.step = .ok outcome → outcome.fault = none →
      m.Continues outcome.machine.registers.pc) ∧
    ∀ n : Machine G, n = { m with memory := n.memory } → m.Opposes n →
      m.Full ∨ ∃ first second, m.step = .ok first ∧ n.step = .ok second ∧
        first.fault = none ∧ second.fault = none ∧
        (first.machine.registers.pc = m.registers.pc + 4 ∧
            second.machine.registers.pc = m.registers.pc + 2 ∨
          first.machine.registers.pc = m.registers.pc + 2 ∧
            second.machine.registers.pc = m.registers.pc + 4) := by
  constructor
  · intro outcome hstep hsuccess
    have hdepth : m.fetched = .ret → m.registers.stack.depth.toNat ≤ 16 :=
      depth_le_of_step_ret hstep
    rcases eq_stepped_of_step hstep with ⟨-, rfl⟩
    exact continues_stepped hsuccess hdepth
  · intro n hsame hopposes
    by_cases hfull : m.Full
    · exact Or.inl hfull
    have hregisters : n.registers = m.registers := by rw [hsame]
    have hkeypad : n.keypad = m.keypad := by rw [hsame]
    have hticks : n.ticks = m.ticks := by rw [hsame]
    have hfull' : ¬n.Full := by
      rw [Full, hticks]
      exact hfull
    rcases hopposes.skips_eq hregisters hkeypad with
      ⟨⟨hskip, hsuccess⟩, ⟨hskip', hsuccess'⟩, hopposite⟩
    rcases step_of_isSkip hskip hsuccess hfull with ⟨hstep, hfault, hpc⟩
    rcases step_of_isSkip hskip' hsuccess' hfull' with ⟨hstep', hfault', hpc'⟩
    refine Or.inr ⟨m.stepped, n.stepped, hstep, hstep', hfault, hfault', ?_⟩
    rw [hpc, hpc', hopposite, hregisters]
    cases m.skips m.fetched with
    | true => exact Or.inl ⟨rfl, rfl⟩
    | false => exact Or.inr ⟨rfl, rfl⟩

/-- A machine about to execute a word in the last two cells of the address space. -/
def beforeEnd (high low : UInt8) : Machine Lcg :=
  { powerOn Lcg.standard with memory := Memory.powerOn.load 0x0FFE [high, low] }.setPc 0xFFFE

/-- Two bytes before the end of the address space are fetched as one word. -/
theorem opcodeAt_beforeEnd (high low : UInt8) :
    (beforeEnd high low).opcodeAt = high.toUInt16 <<< 8 ||| low.toUInt16 := by
  simp [opcodeAt, beforeEnd, setPc, Memory.readWord, Memory.read_write]

/-- With V0 and V1 the same, the word of family 5 skips the instruction at the first address,
and the word of family 9 goes on with it; their lowest nibbles do not matter. -/
theorem successor_law_beforeEnd :
    ∃ first second, (beforeEnd 0x50 0x1A).step = .ok first ∧
      (beforeEnd 0x90 0x17).step = .ok second ∧
      first.machine.registers.pc = 0x0002 ∧ second.machine.registers.pc = 0x0000 := by
  have hword : (beforeEnd 0x50 0x1A).opcodeAt = 0x501A := opcodeAt_beforeEnd 0x50 0x1A
  have hword' : (beforeEnd 0x90 0x17).opcodeAt = 0x9017 := opcodeAt_beforeEnd 0x90 0x17
  have hopposes : (beforeEnd 0x50 0x1A).Opposes (beforeEnd 0x90 0x17) := by
    refine .registers ?_ ?_ ?_ ?_
    · rw [hword]
      rfl
    · rw [hword']
      rfl
    · rw [hword, hword']
      rfl
    · rw [hword, hword']
      rfl
  rcases successor_law (beforeEnd 0x50 0x1A) with ⟨hcontinues, hopposite⟩
  rcases (hopposite (beforeEnd 0x90 0x17) rfl hopposes).resolve_left (by decide) with
    ⟨first, second, hfirst, hsecond, hsuccess, -, hpc⟩
  have hskips := (hcontinues first hfirst hsuccess).same (by rw [hword]; rfl)
  rw [hword] at hskips
  refine ⟨first, second, hfirst, hsecond, hskips, ?_⟩
  rcases hpc with ⟨-, hpc⟩ | ⟨hpc, -⟩
  · exact hpc
  · rw [hskips] at hpc
    cases hpc

end Machine

end Chip8
