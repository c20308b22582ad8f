import Mathlib.Data.List.Forall2
import Chip8.Proofs.History
import Chip8.Proofs.SameCell
import Chip8.Random.Lcg

/-!
# Sixteen-bit addresses behave as twelve-bit ones

The program counter and the index register keep all sixteen bits, and only memory
reduces an address to twelve.  Two machines that agree up to the upper four bits of
their addresses agree so for ever, whatever is done to both, and so does the machine
that drops these bits at every write.  Nor does anything depend on the word latched
by the last fetch, on the tick count below its limit, or on what is left in stack
slots not in use.

Main results:

- Theorem `Machine.Alike.effect`: an instruction has alike effects on machines that
  are alike.
- Theorem `Machine.Alike.performed`: so has every operation.
- Theorem `Machine.outcomes_alike`: so have whole lists of operations, and dropping
  the upper bits at every write makes no difference.
-/

namespace Chip8

open Memory (SameCell)

/-! ## What is alike -/

/-- Two faults that differ at most in the upper four bits of the address. -/
inductive Fault.Alike : Fault → Fault → Prop
  | programTooLarge (size max : Nat) :
      Alike (.programTooLarge size max) (.programTooLarge size max)
  | stackOverflow {p q : UInt16} (h : SameCell p q) : Alike (.stackOverflow p) (.stackOverflow q)
  | stackUnderflow {p q : UInt16} (h : SameCell p q) :
      Alike (.stackUnderflow p) (.stackUnderflow q)
  | invalidKey (key : UInt8) {p q : UInt16} (h : SameCell p q) :
      Alike (.invalidKey key p) (.invalidKey key q)

/-- Two machines that differ at most in the upper four bits of their addresses, in
the word latched last, in the tick count and in stack slots not in use. -/
structure Machine.Alike {G : Type} (m n : Machine G) : Prop where
  v : m.registers.v = n.registers.v
  depth : m.registers.stack.depth = n.registers.stack.depth
  depth_le : m.registers.stack.depth.toNat ≤ 16
  memory : m.memory = n.memory
  screen : m.screen = n.screen
  keypad : m.keypad = n.keypad
  timers : m.timers = n.timers
  random : m.random = n.random
  index : SameCell m.registers.i n.registers.i
  pc : SameCell m.registers.pc n.registers.pc
  slots : ∀ k (hk : k < 16), k < m.registers.stack.depth.toNat →
    SameCell m.registers.stack.slots[k] n.registers.stack.slots[k]

/-- Two outcomes with alike machines and alike faults. -/
structure Outcome.Alike {G : Type} (o p : Outcome G) : Prop where
  machine : o.machine.Alike p.machine
  fault : Option.Rel Fault.Alike o.fault p.fault

/-- Every fault is alike to itself. -/
theorem Fault.Alike.refl (fault : Fault) : fault.Alike fault := by
  cases fault with
  | programTooLarge size max => exact .programTooLarge size max
  | stackOverflow p => exact .stackOverflow (.refl p)
  | stackUnderflow p => exact .stackUnderflow (.refl p)
  | invalidKey key p => exact .invalidKey key (.refl p)

namespace Machine

variable {G : Type} {m n : Machine G}

/-- A machine with a stack within bounds is alike to itself. -/
theorem Alike.refl (hdepth : m.registers.stack.depth.toNat ≤ 16) : m.Alike m where
  v := rfl
  depth := rfl
  depth_le := hdepth
  memory := rfl
  screen := rfl
  keypad := rfl
  timers := rfl
  random := rfl
  index := .refl m.registers.i
  pc := .refl m.registers.pc
  slots := fun k _ _ => .refl m.registers.stack.slots[k]

/-- An outcome without a fault is alike to any other with an alike machine. -/
theorem Alike.done (h : m.Alike n) : (Outcome.done m).Alike (.done n) :=
  ⟨h, .none⟩

/-! ## Parts of alike machines -/

/-- Alike machines hold the same byte in every register. -/
theorem Alike.get (h : m.Alike n) (x : UInt8) : m.registers.get x = n.registers.get x := by
  simp only [Registers.get, h.v]

/-- Alike machines take the same sprite from memory: the upper address bits select nothing.
-/
theorem Alike.sprite (h : m.Alike n) (rows : UInt8) : m.sprite rows = n.sprite rows := by
  rw [Machine.sprite, Machine.sprite, h.memory, h.index.readBlock]

/-- A drawing instruction comes to the same screen and the same collision on alike machines.
-/
theorem Alike.drawn (h : m.Alike n) (x y rows : UInt8) : m.drawn x y rows = n.drawn x y rows := by
  rw [Machine.drawn, Machine.drawn, h.screen, h.get, h.get, h.sprite]

theorem Alike.loaded (h : m.Alike n) (x : UInt8) : m.loaded x = n.loaded x := by
  simp only [Machine.loaded, h.memory, h.index.readBlock, h.v]

/-- Alike machines agree on whether an instruction skips. -/
theorem Alike.skips (h : m.Alike n) (ins : Instruction) : m.skips ins = n.skips ins := by
  cases ins <;> simp only [Machine.skips, h.get, h.keypad]

/-- Unless the instruction is refused, alike machines go on at the same cell; a refused
return has no address to go to. -/
theorem Alike.nextPc (h : m.Alike n) {ins : Instruction} (hins : m.refusal? ins = none) :
    SameCell (m.nextPc ins) (n.nextPc ins) := by
  have hskip : SameCell (if m.skips ins then m.registers.pc + 2 else m.registers.pc)
      (if n.skips ins then n.registers.pc + 2 else n.registers.pc) := by
    rw [h.skips]
    split
    · exact h.pc.add 2
    · exact h.pc
  cases ins with
  | ret =>
      have hpos := (refusal?_ret_eq_none_iff m).mp hins
      have hle := h.depth_le
      have hslot := h.slots (m.registers.stack.depth.toNat - 1) (by omega) (by omega)
      rw [Machine.nextPc, Machine.nextPc, CallStack.newest_eq_getElem hle hpos,
        CallStack.newest_eq_getElem (h.depth ▸ hle) (h.depth ▸ hpos)]
      simpa only [h.depth] using hslot
  | jump addr => exact .refl addr
  | call addr => exact .refl addr
  | jumpOffset addr =>
      rw [Machine.nextPc, Machine.nextPc, h.get]
      exact .refl _
  | waitKey x =>
      simp only [Machine.nextPc, h.keypad]
      split
      · exact h.pc
      · exact h.pc.sub 2
  | _ => exact hskip

/-- The index registers of alike machines still select the same cell after an instruction. -/
theorem Alike.nextIndex (h : m.Alike n) (ins : Instruction) :
    SameCell (m.nextIndex ins) (n.nextIndex ins) := by
  cases ins with
  | setIndex addr => exact .refl addr
  | addIndex x =>
      rw [Machine.nextIndex, Machine.nextIndex, h.get]
      exact h.index.add _
  | glyph x =>
      rw [Machine.nextIndex, Machine.nextIndex, h.get]
      exact .refl _
  | _ => exact h.index

/-- An instruction stores the same bytes in the same cells of alike machines. -/
theorem Alike.nextMemory (h : m.Alike n) (ins : Instruction) :
    m.nextMemory ins = n.nextMemory ins := by
  cases ins with
  | storeDecimal x => simp only [Machine.nextMemory, h.get, h.memory, h.index.load]
  | storeRegisters x => simp only [Machine.nextMemory, h.v, h.memory, h.index.load]
  | _ => exact h.memory

theorem Alike.nextScreen (h : m.Alike n) (ins : Instruction) :
    m.nextScreen ins = n.nextScreen ins := by
  cases ins with
  | clearScreen => rfl
  | draw x y rows => rw [Machine.nextScreen, Machine.nextScreen, h.drawn]
  | _ => exact h.screen

theorem Alike.nextTimers (h : m.Alike n) (ins : Instruction) :
    m.nextTimers ins = n.nextTimers ins := by
  cases ins with
  | setDelay x => rw [Machine.nextTimers, Machine.nextTimers, h.timers, h.get]
  | setSound x => rw [Machine.nextTimers, Machine.nextTimers, h.timers, h.get]
  | _ => exact h.timers

theorem Alike.nextDepth (h : m.Alike n) (ins : Instruction) :
    (m.nextStack ins).depth = (n.nextStack ins).depth := by
  cases ins with
  | ret => simp only [nextStack, CallStack.popped, h.depth]
  | call addr => simp only [nextStack, CallStack.pushed, h.depth]
  | _ => exact h.depth

/-- The slots in use still hold the same cells after an instruction: a call stores the
program counter, of which only the upper bits may differ. -/
theorem Alike.nextSlots (h : m.Alike n) {ins : Instruction} (hins : m.refusal? ins = none)
    (k : Nat) (hk : k < 16) (hlive : k < (m.nextStack ins).depth.toNat) :
    SameCell (m.nextStack ins).slots[k] (n.nextStack ins).slots[k] := by
  cases ins with
  | ret =>
      have hpos := (refusal?_ret_eq_none_iff m).mp hins
      rw [nextStack, CallStack.toNat_depth_popped hpos] at hlive
      exact h.slots k hk (by omega)
  | call addr =>
      have hlt := (refusal?_call_eq_none_iff m addr).mp hins
      rw [nextStack, CallStack.toNat_depth_pushed hlt] at hlive
      simp only [nextStack, CallStack.pushed, Vector.getElem_setIfInBounds, ← h.depth]
      split
      · exact h.pc
      · exact h.slots k hk (by omega)
  | _ => exact h.slots k hk hlive

/-- Alike machines refuse the same instructions, with faults that differ at most in the
upper bits of the address. -/
theorem Alike.refusal (h : m.Alike n) (ins : Instruction) :
    Option.Rel Fault.Alike (m.refusal? ins) (n.refusal? ins) := by
  have haddr : SameCell m.instructionAddress n.instructionAddress := h.pc.sub 2
  cases ins with
  | ret =>
      rw [refusal?, refusal?, h.depth]
      split
      · exact .some (.stackUnderflow haddr)
      · exact .none
  | call addr =>
      rw [refusal?, refusal?, h.depth]
      split
      · exact .none
      · exact .some (.stackOverflow haddr)
  | skipIfKey x =>
      rw [refusal?, refusal?, h.get]
      split
      · exact .none
      · exact .some (.invalidKey _ haddr)
  | skipUnlessKey x =>
      rw [refusal?, refusal?, h.get]
      split
      · exact .none
      · exact .some (.invalidKey _ haddr)
  | _ => exact .none

theorem Alike.afterFetch (h : m.Alike n) : m.afterFetch.Alike n.afterFetch :=
  { h with pc := h.pc.add 2 }

/-- Alike machines fetch the same instruction. -/
theorem Alike.fetched (h : m.Alike n) : m.fetched = n.fetched := by
  rw [Machine.fetched, Machine.fetched, opcodeAt, opcodeAt, h.memory, h.pc.readWord]

theorem Alike.tickTimers (h : m.Alike n) : m.tickTimers.Alike n.tickTimers :=
  { h with timers := by rw [Machine.tickTimers, Machine.tickTimers, h.timers] }

variable [RandomSource G]

/-- An instruction leaves the same bytes in the registers of alike machines. -/
theorem Alike.nextBytes (h : m.Alike n) (ins : Instruction) :
    m.nextBytes ins = n.nextBytes ins := by
  cases ins <;> simp only [Machine.nextBytes, Registers.set, Registers.writeFlag, h.v, h.get,
    h.random, h.drawn, h.keypad, h.timers, h.loaded]

theorem Alike.nextRandom (h : m.Alike n) (ins : Instruction) :
    m.nextRandom ins = n.nextRandom ins := by
  cases ins <;> simp only [Machine.nextRandom, h.random]

/-- An instruction that is not refused has alike effects on alike machines. -/
theorem Alike.effect (h : m.Alike n) {ins : Instruction} (hins : m.refusal? ins = none) :
    (m.effect ins).Alike (n.effect ins) where
  v := h.nextBytes ins
  depth := h.nextDepth ins
  depth_le := depth_effect_le h.depth_le hins
  memory := h.nextMemory ins
  screen := h.nextScreen ins
  keypad := h.keypad
  timers := h.nextTimers ins
  random := h.nextRandom ins
  index := h.nextIndex ins
  pc := h.nextPc hins
  slots := h.nextSlots hins

/-- An instruction comes to alike outcomes on alike machines. -/
theorem Alike.executed (h : m.Alike n) (ins : Instruction) :
    (m.executed ins).Alike (n.executed ins) where
  machine := by
    have hrel := h.refusal ins
    rw [Machine.executed, Machine.executed]
    cases hm : m.refusal? ins <;> cases hn : n.refusal? ins <;> rw [hm, hn] at hrel
    · exact h.effect hm
    · cases hrel
    · cases hrel
    · exact h
  fault := h.refusal ins

/-! ## Operations on alike machines -/

/-- A step comes to alike outcomes on alike machines. -/
theorem Alike.stepped (h : m.Alike n) : m.stepped.Alike n.stepped := by
  have hexecuted : (m.afterFetch.executed m.fetched).Alike (n.afterFetch.executed n.fetched) := by
    rw [← h.fetched]
    exact h.afterFetch.executed m.fetched
  exact ⟨hexecuted.machine, hexecuted.fault⟩

end Machine

/-- Of two alike outcomes both report a fault or neither does. -/
theorem Outcome.Alike.isSome_fault {G : Type} {o p : Outcome G} (h : o.Alike p) :
    o.fault.isSome = p.fault.isSome := by
  obtain ⟨-, hfault⟩ := h
  generalize o.fault = refusal at hfault ⊢
  generalize p.fault = refusal' at hfault ⊢
  cases hfault with
  | none => rfl
  | some _ => rfl

/-- Alike outcomes stay alike when the timers tick after a success. -/
theorem Outcome.Alike.ticked {G : Type} {o p : Outcome G} (h : o.Alike p) :
    o.ticked.Alike p.ticked := by
  unfold Outcome.ticked
  rw [h.isSome_fault]
  split
  · exact h
  · exact ⟨h.machine.tickTimers, h.fault⟩

namespace Machine

variable {G : Type} {m n : Machine G}

/-- A program is loaded into alike machines with alike outcomes; one that is too large is
rejected by both. -/
theorem Alike.loadProgram (h : m.Alike n) (image : List UInt8) :
    (m.loadProgram image).Alike (n.loadProgram image) := by
  rw [Machine.loadProgram, Machine.loadProgram, h.memory]
  cases hload : n.memory.loadProgram image with
  | ok memory => exact ⟨{ h with memory := rfl }, .none⟩
  | error fault => exact ⟨h, .some (.refl fault)⟩

/-- Machines that are given the same stack stay alike. -/
theorem Alike.setStack (h : m.Alike n) {stack : CallStack} (hdepth : stack.depth.toNat ≤ 16) :
    (m.setStack stack).Alike (n.setStack stack) :=
  { h with
    depth := rfl
    depth_le := hdepth
    slots := fun k _ _ => .refl stack.slots[k] }

/-- An operation comes to alike outcomes on alike machines. -/
theorem Alike.performed [RandomSource G] (h : m.Alike n) (op : Operation) :
    (m.performed op).Alike (n.performed op) := by
  cases op with
  | step => exact h.stepped
  | cycle => exact h.stepped.ticked
  | tickTimers => exact h.tickTimers.done
  | reset =>
      rw [Machine.performed, Machine.performed, reboot, reboot, reset, reset, h.random]
      exact ⟨.refl (depth_powerOn_le n.random), .none⟩
  | loadProgram image => exact h.loadProgram image
  | load addr bytes => exact Alike.done { h with memory := by rw [h.memory] }
  | write addr byte => exact Alike.done { h with memory := by rw [h.memory] }
  | keypad event => exact Alike.done { h with keypad := by rw [h.keypad] }
  | setPc pc => exact Alike.done { h with pc := .refl pc }
  | setIndex i => exact Alike.done { h with index := .refl i }
  | setRegister x byte => exact Alike.done { h with v := by simp only [Registers.set, h.v] }
  | setStack entries => exact (h.setStack (CallStack.depth_ofEntries_le entries)).done
  | setTimers delay sound => exact Alike.done { h with timers := rfl }

/-! ## Dropping the upper bits at every write -/

/-- The machine with the upper four bits of both addresses dropped. -/
def masked (m : Machine G) : Machine G :=
  { m with
    registers :=
      { m.registers with i := m.registers.i &&& 0x0FFF, pc := m.registers.pc &&& 0x0FFF } }

/-- A machine is alike to what dropping the upper bits makes of another that it is alike to.
-/
theorem Alike.masked (h : m.Alike n) : m.Alike n.masked :=
  { h with index := h.index.trans (.mask _), pc := h.pc.trans (.mask _) }

end Machine

/-- The outcome with the upper four bits of both addresses dropped. -/
def Outcome.masked {G : Type} (outcome : Outcome G) : Outcome G :=
  { outcome with machine := outcome.machine.masked }

/-- Both addresses of the machine are numbers of memory cells. -/
def Outcome.FitsMemory {G : Type} (outcome : Outcome G) : Prop :=
  outcome.machine.registers.pc.toNat < 4096 ∧ outcome.machine.registers.i.toNat < 4096

theorem Outcome.Alike.masked {G : Type} {o p : Outcome G} (h : o.Alike p) :
    o.Alike p.masked :=
  ⟨h.machine.masked, h.fault⟩

namespace Machine

variable {G : Type} {m n : Machine G} [RandomSource G]

/-- A step that drops the upper bits of both addresses when the fetch writes them and
when the instruction does. -/
def maskedStep (m : Machine G) : Checked (Outcome G) := do
  let pc := m.registers.pc
  let opcode ← m.memory.readCellWord pc
  let ins := Instruction.decode opcode
  let ticks ← m.ticks.add .one
  let fetched : Machine G :=
    { m with registers := { m.registers with opcode, pc := pc + 2 }, ticks }
  let outcome ← fetched.masked.execute ins
  let warnings := (outcome.fault.map Log.Entry.refused).toArray
  return { outcome.masked with log := #[.fetched pc opcode ins] ++ outcome.log ++ warnings }

/-- What an operation comes to if the upper bits of both addresses are dropped at
every write. -/
def maskedPerform (m : Machine G) : Operation → Checked (Outcome G)
  | .step => m.maskedStep
  | .cycle => return (← m.maskedStep).ticked
  | op => return (← m.perform op).masked

/-- The outcomes of operations one after another if the upper bits of both addresses
are dropped at every write. -/
def maskedOutcomes (m : Machine G) : List Operation → Checked (List (Outcome G))
  | [] => return []
  | op :: rest => do
    let outcome ← m.maskedPerform op
    let later ← outcome.machine.maskedOutcomes rest
    return outcome :: later

/-- What a step that drops the upper bits comes to. -/
def maskedStepped (m : Machine G) : Outcome G :=
  let outcome := m.afterFetch.masked.executed m.fetched
  let warnings := (outcome.fault.map Log.Entry.refused).toArray
  { outcome.masked with
    log := #[.fetched m.registers.pc m.opcodeAt m.fetched] ++ outcome.log ++ warnings }

/-- What an operation that drops the upper bits comes to. -/
def maskedPerformed (m : Machine G) : Operation → Outcome G
  | .step => m.maskedStepped
  | .cycle => m.maskedStepped.ticked
  | op => (m.performed op).masked

/-- Below the limit of the tick count a step that drops the upper bits never crashes. -/
theorem maskedStep_eq (hdepth : m.registers.stack.depth.toNat ≤ 16) (hfull : ¬m.Full) :
    m.maskedStep = .ok m.maskedStepped := by
  have hexecute := execute_eq (m := m.afterFetch.masked) (fetched_inRange m) hdepth
  rw [maskedStep, Memory.readCellWord_eq, Checked.ok_bind, add_one_of_not_full hfull,
    Checked.ok_bind]
  change ((m.afterFetch.masked.execute m.fetched >>= _) : Checked (Outcome G)) = _
  rw [hexecute]
  rfl

/-- Below the limit of the tick count no operation that drops the upper bits crashes. -/
theorem maskedPerform_eq {op : Operation} (hdepth : m.registers.stack.depth.toNat ≤ 16)
    (hcount : op.isAttempt = true → ¬m.Full) :
    m.maskedPerform op = .ok (m.maskedPerformed op) := by
  cases op with
  | step => exact maskedStep_eq hdepth (hcount rfl)
  | cycle =>
      rw [maskedPerform, maskedStep_eq hdepth (hcount rfl)]
      rfl
  | _ =>
      rw [maskedPerform, perform_eq hdepth hcount]
      · rfl
      all_goals simp

/-- A step is alike to one that drops the upper bits, taken from an alike machine. -/
theorem Alike.maskedStepped (h : m.Alike n) : m.stepped.Alike n.maskedStepped := by
  have hexecuted : (m.afterFetch.executed m.fetched).Alike
      (n.afterFetch.masked.executed n.fetched).masked := by
    rw [← h.fetched]
    exact (h.afterFetch.masked.executed m.fetched).masked
  exact ⟨hexecuted.machine, hexecuted.fault⟩

/-- Both addresses fit into twelve bits after every operation that drops the upper
ones. -/
theorem fitsMemory_maskedPerformed (m : Machine G) (op : Operation) :
    (m.maskedPerformed op).FitsMemory := by
  have hmasked (outcome : Outcome G) : outcome.masked.FitsMemory := by
    have hcell (a : UInt16) : (a &&& 0x0FFF).toNat < 4096 := by
      change Memory.cell a < 4096
      rw [Memory.cell_eq]
      exact Nat.mod_lt _ (by decide)
    exact ⟨hcell _, hcell _⟩
  cases op with
  | cycle =>
      rw [maskedPerformed, Outcome.FitsMemory, Outcome.registers_ticked]
      exact hmasked _
  | _ => exact hmasked _

/-- Dropping the upper bits comes to an alike outcome. -/
theorem Alike.maskedPerformed (h : m.Alike n) (op : Operation) :
    (m.performed op).Alike (n.maskedPerformed op) := by
  cases op with
  | step => exact h.maskedStepped
  | cycle => exact h.maskedStepped.ticked
  | _ => exact (h.performed _).masked

/-- A step that drops the upper bits is counted like any other. -/
theorem ticks_maskedStepped (m : Machine G) :
    m.maskedStepped.machine.ticks = ⟨m.ticks.count + 1⟩ :=
  ticks_executed m.afterFetch.masked m.fetched

/-- Dropping the upper bits leaves the count of attempts alone. -/
theorem ticks_maskedPerformed (m : Machine G) (op : Operation) :
    (m.maskedPerformed op).machine.ticks = op.ticksAfter m.ticks := by
  cases op with
  | step => exact ticks_maskedStepped m
  | cycle =>
      rw [maskedPerformed, Outcome.ticks_ticked]
      exact ticks_maskedStepped m
  | _ => exact ticks_performed m _

/-! ## Lists of operations on alike machines -/

/-- Operations come to alike outcomes, one by one, on alike machines. -/
theorem Alike.events (h : m.Alike n) (ops : List Operation) :
    List.Forall₂ Outcome.Alike ((m.events ops).map Event.outcome)
      ((n.events ops).map Event.outcome) := by
  induction ops generalizing m n with
  | nil => exact .nil
  | cons op rest ih =>
      have houtcome := h.performed op
      exact .cons houtcome (ih houtcome.machine)

/-- Below the limit of the tick count, dropping the upper bits at every write comes
to alike outcomes. -/
theorem Alike.maskedOutcomes (h : m.Alike n) (hticks : m.ticks = n.ticks)
    {ops : List Operation} (hover : ¬m.Overflows ops) :
    ∃ outcomes, n.maskedOutcomes ops = .ok outcomes ∧
      (∀ outcome ∈ outcomes, outcome.FitsMemory) ∧
      List.Forall₂ Outcome.Alike ((m.events ops).map Event.outcome) outcomes := by
  induction ops generalizing m n with
  | nil => exact ⟨[], rfl, List.forall_mem_nil _, .nil⟩
  | cons op rest ih =>
      rw [overflows_cons h.depth_le, not_or, not_and] at hover
      obtain ⟨hnow, hlater⟩ := hover
      have hfull : op.isAttempt = true → ¬n.Full := by
        intro hattempt
        rw [Full, ← hticks]
        exact hnow hattempt
      have hperform := maskedPerform_eq (m := n) (h.depth ▸ h.depth_le) hfull
      have houtcome := h.maskedPerformed op
      have hlaterTicks : (m.performed op).machine.ticks = (n.maskedPerformed op).machine.ticks := by
        rw [ticks_performed, ticks_maskedPerformed, hticks]
      obtain ⟨outcomes, hrest, hfit, halike⟩ := ih houtcome.machine hlaterTicks hlater
      refine ⟨n.maskedPerformed op :: outcomes, ?_, ?_, .cons houtcome halike⟩
      · rw [Machine.maskedOutcomes, hperform, Checked.ok_bind, hrest]
        rfl
      · rw [List.forall_mem_cons]
        exact ⟨n.fitsMemory_maskedPerformed op, hfit⟩

/-- Machines that are alike come to alike outcomes under every list of operations
that does not overflow the tick count, and the one that drops the upper bits of its
addresses at every write does too. -/
theorem outcomes_alike (h : m.Alike n) (ops : List Operation) (hm : ¬m.Overflows ops)
    (hn : ¬n.Overflows ops) :
    ∃ first second masked : List (Outcome G),
      m.outcomes ops = .ok first ∧ n.outcomes ops = .ok second ∧
      m.masked.maskedOutcomes ops = .ok masked ∧ (∀ outcome ∈ masked, outcome.FitsMemory) ∧
      List.Forall₂ Outcome.Alike first second ∧ List.Forall₂ Outcome.Alike first masked := by
  have hmasked : m.Alike m.masked := (Alike.refl h.depth_le).masked
  obtain ⟨masked, hmaskedOutcomes, hfit, hfollows⟩ := hmasked.maskedOutcomes rfl hm
  refine ⟨(m.events ops).map Event.outcome, (n.events ops).map Event.outcome, masked, ?_, ?_,
    hmaskedOutcomes, hfit, h.events ops, hfollows⟩
  · exact outcomes_eq h.depth_le hm
  · exact outcomes_eq (h.depth ▸ h.depth_le) hn

/-- A power-on machine whose two addresses lie whole memories further on. -/
def shiftedPowerOn : Machine Lcg := ((powerOn Lcg.standard).setPc 0x1200).setIndex 0x3000

/-- Power-on is alike to itself with both addresses moved by whole memories. -/
theorem alike_shiftedPowerOn : (powerOn Lcg.standard).Alike shiftedPowerOn :=
  { Alike.refl (depth_powerOn_le Lcg.standard) with
    index := by decide
    pc := by decide }

/-- Load a call and a return, and execute both. -/
def callAndReturn : List Operation :=
  [.loadProgram [0x22, 0x04, 0x00, 0x00, 0x00, 0xEE], .cycle, .step]

/-- A call and a return come to alike outcomes from power-on and from addresses whole
memories further on. -/
theorem outcomes_alike_shiftedPowerOn :
    (powerOn Lcg.standard).Alike shiftedPowerOn ∧
      ¬(powerOn Lcg.standard).Overflows callAndReturn ∧
      ¬shiftedPowerOn.Overflows callAndReturn ∧
      ∃ first second masked : List (Outcome Lcg),
        (powerOn Lcg.standard).outcomes callAndReturn = .ok first ∧
        shiftedPowerOn.outcomes callAndReturn = .ok second ∧
        (powerOn Lcg.standard).masked.maskedOutcomes callAndReturn = .ok masked ∧
        (∀ outcome ∈ masked, outcome.FitsMemory) ∧
        List.Forall₂ Outcome.Alike first second ∧ List.Forall₂ Outcome.Alike first masked := by
  have hfirst : ¬(powerOn Lcg.standard).Overflows callAndReturn :=
    not_overflows_of_lt (by decide) (by decide)
  have hsecond : ¬shiftedPowerOn.Overflows callAndReturn :=
    not_overflows_of_lt (by decide) (by decide)
  exact ⟨alike_shiftedPowerOn, hfirst, hsecond,
    outcomes_alike alike_shiftedPowerOn callAndReturn hfirst hsecond⟩

end Machine

end Chip8
