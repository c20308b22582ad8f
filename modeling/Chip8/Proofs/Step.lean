import Chip8.Proofs.Effect

/-!
# One step as a whole

A step fetches, counts the attempt and executes.  Unless the tick count is at its
limit it always comes to an outcome, and that outcome is computed here from the
state before it.  A cycle adds one tick of the timers to a step that was not
refused.

Main results:

- Theorems `Machine.step_eq` and `Machine.cycle_eq`: below the limit of the tick
  count a step and a cycle never crash.
- Theorems `Machine.step_of_full` and `Machine.cycle_of_full`: at the limit both
  crash in the count.
- Theorem `Machine.stepped_of_refused`: a refused step leaves the machine as its
  fetch left it.
-/

namespace Chip8

/-- The outcome with one tick of the timers added, unless it is a refusal. -/
def Outcome.ticked {G : Type} (outcome : Outcome G) : Outcome G :=
  if outcome.fault.isSome then outcome
  else { outcome with machine := outcome.machine.tickTimers }

@[simp]
theorem Outcome.registers_ticked {G : Type} (outcome : Outcome G) :
    outcome.ticked.machine.registers = outcome.machine.registers := by
  unfold Outcome.ticked
  split <;> rfl

@[simp]
theorem Outcome.memory_ticked {G : Type} (outcome : Outcome G) :
    outcome.ticked.machine.memory = outcome.machine.memory := by
  unfold Outcome.ticked
  split <;> rfl

@[simp]
theorem Outcome.screen_ticked {G : Type} (outcome : Outcome G) :
    outcome.ticked.machine.screen = outcome.machine.screen := by
  unfold Outcome.ticked
  split <;> rfl

@[simp]
theorem Outcome.ticks_ticked {G : Type} (outcome : Outcome G) :
    outcome.ticked.machine.ticks = outcome.machine.ticks := by
  unfold Outcome.ticked
  split <;> rfl

namespace Machine

variable {G : Type}

/-! ## Fetching -/

/-- The word at the program counter. -/
def opcodeAt (m : Machine G) : UInt16 := m.memory.readWord m.registers.pc

/-- The instruction at the program counter. -/
def fetched (m : Machine G) : Instruction := .decode m.opcodeAt

/-- The machine after a fetch: the word is latched, the program counter is two
bytes on, and the attempt is counted. -/
def afterFetch (m : Machine G) : Machine G :=
  { m with
    registers := { m.registers with opcode := m.opcodeAt, pc := m.registers.pc + 2 }
    ticks := ⟨m.ticks.count + 1⟩ }

/-- The tick count is at its limit. -/
def Full (m : Machine G) : Prop := m.ticks.count.toNat = UInt64.size - 1

instance (m : Machine G) : Decidable m.Full :=
  inferInstanceAs (Decidable (m.ticks.count.toNat = UInt64.size - 1))

/-- The address of the instruction under way is where it was fetched from. -/
@[simp]
theorem instructionAddress_afterFetch (m : Machine G) :
    m.afterFetch.instructionAddress = m.registers.pc := by
  simp [afterFetch, instructionAddress]

@[simp]
theorem get_afterFetch (m : Machine G) (x : UInt8) :
    m.afterFetch.registers.get x = m.registers.get x :=
  rfl

@[simp]
theorem stack_afterFetch (m : Machine G) : m.afterFetch.registers.stack = m.registers.stack :=
  rfl

/-- Whatever word is fetched, its operands are in range. -/
theorem fetched_inRange (m : Machine G) : m.fetched.InRange :=
  Instruction.decode_inRange m.opcodeAt

theorem inRange_of_fetched {m : Machine G} {ins : Instruction} (hins : m.fetched = ins) :
    ins.InRange :=
  hins ▸ m.fetched_inRange

/-- The word at the program counter is of family F, with the number of a register and a low
byte. -/
structure FetchesDevice (m : Machine G) (x low : UInt8) : Prop where
  family : Opcode.family m.opcodeAt = 0xF
  register : Opcode.x m.opcodeAt = x
  low : Opcode.kk m.opcodeAt = low

/-- The members of family F are told apart by the low byte. -/
theorem FetchesDevice.fetched_eq {m : Machine G} {x low : UInt8} (h : m.FetchesDevice x low) :
    m.fetched = .decodeDevice m.opcodeAt := by
  rw [fetched, Instruction.decode, h.family]
  rfl

/-- Below its limit the tick count takes one more. -/
theorem add_one_of_not_full {m : Machine G} (h : ¬m.Full) :
    m.ticks.add .one = .ok ⟨m.ticks.count + 1⟩ := by
  apply Ticks.add_of_lt
  have hlt := m.ticks.count.toNat_lt
  have hsize : UInt64.size = 18446744073709551616 := rfl
  have hone : Ticks.one.count.toNat = 1 := rfl
  unfold Full at h
  omega

/-- At its limit the count of one more attempt is the crash. -/
theorem add_one_of_full {m : Machine G} (h : m.Full) :
    m.ticks.add .one = .error .addOverflow := by
  apply Ticks.add_of_le
  have hsize : UInt64.size = 18446744073709551616 := rfl
  have hone : Ticks.one.count.toNat = 1 := rfl
  unfold Full at h
  omega

/-! ## Outcomes -/

variable [RandomSource G]

/-- What a step comes to. -/
def stepped (m : Machine G) : Outcome G :=
  let outcome := m.afterFetch.executed m.fetched
  let warnings := (outcome.fault.map Log.Entry.refused).toArray
  { outcome with
    log := #[.fetched m.registers.pc m.opcodeAt m.fetched] ++ outcome.log ++ warnings }

/-- What a cycle comes to. -/
def cycled (m : Machine G) : Outcome G := m.stepped.ticked

/-- Below the limit of the tick count a step never crashes, unless it returns with more than
sixteen return addresses said to be in use. -/
theorem step_eq_of_ret {m : Machine G}
    (hdepth : m.fetched = .ret → m.registers.stack.depth.toNat ≤ 16) (hfull : ¬m.Full) :
    m.step = .ok m.stepped := by
  have hexecute := execute_eq_of_ret (m := m.afterFetch) (fetched_inRange m) hdepth
  rw [step, Memory.readCellWord_eq, Checked.ok_bind, add_one_of_not_full hfull,
    Checked.ok_bind]
  change ((m.afterFetch.execute m.fetched >>= _) : Checked (Outcome G)) = _
  rw [hexecute]
  rfl

/-- Below the limit of the tick count a step never crashes. -/
theorem step_eq {m : Machine G} (hdepth : m.registers.stack.depth.toNat ≤ 16)
    (hfull : ¬m.Full) : m.step = .ok m.stepped :=
  step_eq_of_ret (fun _ => hdepth) hfull

/-- Where another instruction than a return has been fetched, no return address matters. -/
theorem step_of_fetched {m : Machine G} {ins : Instruction} (hins : m.fetched = ins)
    (hret : ins ≠ .ret) (hfull : ¬m.Full) : m.step = .ok m.stepped :=
  step_eq_of_ret (fun h => absurd (hins.symm.trans h) hret) hfull

/-- A return with more than sixteen return addresses said to be in use crashes. -/
theorem step_of_lt_depth {m : Machine G} (hins : m.fetched = .ret)
    (hdepth : 16 < m.registers.stack.depth.toNat) (hfull : ¬m.Full) :
    m.step = .error .indexOutOfRange := by
  rw [step, Memory.readCellWord_eq, Checked.ok_bind, add_one_of_not_full hfull,
    Checked.ok_bind]
  change ((m.afterFetch.execute m.fetched >>= _) : Checked (Outcome G)) = _
  rw [hins, execute, returnFromSubroutine, stack_afterFetch, CallStack.pop_of_lt hdepth]
  rfl

/-- At the limit of the tick count a step crashes in the count. -/
theorem step_of_full {m : Machine G} (hfull : m.Full) : m.step = .error .addOverflow := by
  rw [step, Memory.readCellWord_eq, Checked.ok_bind, add_one_of_full hfull]
  rfl

/-- The outcome of a step, where it has one, is the one computed without checks. -/
theorem step_eq_ok_iff {m : Machine G} (hdepth : m.registers.stack.depth.toNat ≤ 16)
    {outcome : Outcome G} : m.step = .ok outcome ↔ ¬m.Full ∧ outcome = m.stepped := by
  by_cases hfull : m.Full
  · simp [step_of_full hfull, hfull]
  · simp [step_eq hdepth hfull, hfull, eq_comm]

/-- Where a step comes to an outcome, so does its instruction after the fetch. -/
theorem exists_execute_of_step {m : Machine G} {outcome : Outcome G} (h : m.step = .ok outcome) :
    ¬m.Full ∧ ∃ executed, m.afterFetch.execute m.fetched = .ok executed ∧
      outcome =
        { executed with
          log := #[.fetched m.registers.pc m.opcodeAt m.fetched] ++ executed.log ++
            (executed.fault.map Log.Entry.refused).toArray } := by
  by_cases hfull : m.Full
  · rw [step_of_full hfull] at h
    cases h
  · rw [step, Memory.readCellWord_eq, Checked.ok_bind, add_one_of_not_full hfull,
      Checked.ok_bind] at h
    obtain ⟨executed, hexecute, h⟩ := Checked.bind_eq_ok.mp h
    exact ⟨hfull, executed, hexecute, (Except.ok.inj h).symm⟩

/-- Wherever a step comes to an outcome, it is the one computed without checks. -/
theorem eq_stepped_of_step {m : Machine G} {outcome : Outcome G} (h : m.step = .ok outcome) :
    ¬m.Full ∧ outcome = m.stepped := by
  obtain ⟨hfull, executed, hexecute, rfl⟩ := exists_execute_of_step h
  obtain rfl := eq_executed_of_execute (fetched_inRange m) hexecute
  exact ⟨hfull, rfl⟩

/-- Where a return comes to an outcome, at most sixteen return addresses are said to be in
use. -/
theorem depth_le_of_step_ret {m : Machine G} {outcome : Outcome G} (h : m.step = .ok outcome)
    (hins : m.fetched = .ret) : m.registers.stack.depth.toNat ≤ 16 := by
  obtain ⟨-, executed, hexecute, -⟩ := exists_execute_of_step h
  rw [hins] at hexecute
  have hdepth := depth_le_of_execute_ret hexecute
  rwa [stack_afterFetch] at hdepth

/-- A cycle is a step with a tick of the timers, unless the step is refused or crashes. -/
theorem cycle_eq_map_step (m : Machine G) : m.cycle = m.step.map Outcome.ticked := by
  cases hstep : m.step with
  | error crash =>
      rw [cycle, hstep]
      rfl
  | ok outcome =>
      cases hfault : outcome.fault with
      | none =>
          rw [cycle_of_success hstep hfault, Except.map, Outcome.ticked, if_neg (by simp [hfault])]
      | some fault =>
          rw [cycle_of_fault hstep hfault, Except.map, Outcome.ticked, if_pos (by simp [hfault])]

/-- Below the limit of the tick count a cycle never crashes. -/
theorem cycle_eq {m : Machine G} (hdepth : m.registers.stack.depth.toNat ≤ 16)
    (hfull : ¬m.Full) : m.cycle = .ok m.cycled := by
  rw [cycle_eq_map_step, step_eq hdepth hfull]
  rfl

/-- At the limit of the tick count a cycle crashes in the count. -/
theorem cycle_of_full {m : Machine G} (hfull : m.Full) : m.cycle = .error .addOverflow := by
  rw [cycle, step_of_full hfull]
  rfl

/-! ## Refused and successful steps -/

/-- A step reports what its instruction is refused with after the fetch. -/
theorem fault_stepped (m : Machine G) : m.stepped.fault = m.afterFetch.refusal? m.fetched :=
  rfl

/-- A cycle reports the fault of its step: the tick of the timers adds none. -/
@[simp]
theorem fault_cycled (m : Machine G) : m.cycled.fault = m.stepped.fault := by
  unfold cycled Outcome.ticked
  split <;> rfl

/-- A refused step leaves the machine as its fetch left it. -/
theorem stepped_of_refused {m : Machine G} (h : m.stepped.fault ≠ none) :
    m.stepped.machine = m.afterFetch :=
  if_pos (Option.isSome_iff_ne_none.mpr h)

/-- A step that is not refused has the effect of its instruction on the fetched
machine. -/
theorem stepped_of_success {m : Machine G} (h : m.stepped.fault = none) :
    m.stepped.machine = m.afterFetch.effect m.fetched := by
  rw [fault_stepped] at h
  exact if_neg (by simp [h])

/-- Where an instruction that is not refused has been fetched, the step has its effect. -/
theorem stepped_of_fetched {m : Machine G} {ins : Instruction} (hins : m.fetched = ins)
    (hsuccess : m.afterFetch.refusal? ins = none) :
    m.stepped.fault = none ∧ m.stepped.machine = m.afterFetch.effect ins := by
  subst hins
  exact ⟨hsuccess, stepped_of_success hsuccess⟩

/-- A refused cycle is the refused step. -/
theorem cycled_of_refused {m : Machine G} (h : m.stepped.fault ≠ none) :
    m.cycled = m.stepped :=
  if_pos (Option.isSome_iff_ne_none.mpr h)

/-- Ticking the timers leaves the registers alone, so a cycle ends with those of
the step. -/
@[simp]
theorem registers_cycled (m : Machine G) :
    m.cycled.machine.registers = m.stepped.machine.registers :=
  m.stepped.registers_ticked

/-- Executing counts nothing; only the fetch does. -/
@[simp]
theorem ticks_executed (m : Machine G) (ins : Instruction) :
    (m.executed ins).machine.ticks = m.ticks := by
  unfold executed
  split <;> rfl

/-- A step counts one attempt, refused or not. -/
@[simp]
theorem ticks_stepped (m : Machine G) : m.stepped.machine.ticks = ⟨m.ticks.count + 1⟩ :=
  ticks_executed m.afterFetch m.fetched

/-- So does every step that comes to an outcome, whatever the depth of the stack. -/
theorem ticks_of_step {m : Machine G} {outcome : Outcome G} (h : m.step = .ok outcome) :
    outcome.machine.ticks = ⟨m.ticks.count + 1⟩ := by
  rcases eq_stepped_of_step h with ⟨-, rfl⟩
  exact ticks_stepped m

/-- A cycle counts one attempt, as its step does. -/
@[simp]
theorem ticks_cycled (m : Machine G) : m.cycled.machine.ticks = ⟨m.ticks.count + 1⟩ := by
  rw [cycled, Outcome.ticks_ticked, ticks_stepped]

end Machine

end Chip8
