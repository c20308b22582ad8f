import Chip8.Proofs.Step
import Chip8.Random.Lcg

/-!
# Which instructions are refused

Three causes refuse an instruction: a return with no return address, a call with
sixteen of them, and a test of a key beyond the pad.  A refused instruction leaves
no trace but that of its fetch.

Main results:

- Theorem `Machine.refusal_law`: a step is refused exactly for these causes and
  then changes nothing beyond its fetch; a cycle is refused in the same cases and
  leaves the same machine.
-/

namespace Chip8

namespace Machine

variable {G : Type}

/-- The instruction at the program counter has a cause to be refused. -/
inductive Refuses (m : Machine G) : Fault → Prop
  /-- A return finds no return address. -/
  | emptyStack (hins : m.fetched = .ret) (hdepth : m.registers.stack.depth = 0) :
      Refuses m (.stackUnderflow m.registers.pc)
  /-- A call finds every slot in use. -/
  | fullStack (addr : UInt16) (hins : m.fetched = .call addr)
      (hdepth : m.registers.stack.depth = 16) :
      Refuses m (.stackOverflow m.registers.pc)
  /-- A key test finds a number past the pad in its register. -/
  | noSuchKey (x key : UInt8) (hins : m.fetched = .skipIfKey x ∨ m.fetched = .skipUnlessKey x)
      (hkey : m.register x = .ok key) (hrange : 15 < key) :
      Refuses m (.invalidKey key m.registers.pc)

/-- A key test is refused for the key in its register. -/
theorem refuses_key {m : Machine G} {x : UInt8} {fault : Fault}
    (hins : m.fetched = .skipIfKey x ∨ m.fetched = .skipUnlessKey x) (hx : x.toNat < 16)
    (h : m.afterFetch.refusal? (.skipIfKey x) = some fault) : m.Refuses fault := by
  simp only [refusal?, get_afterFetch, instructionAddress_afterFetch,
    Option.ite_none_left_eq_some, Option.some.injEq] at h
  obtain ⟨hkey, rfl⟩ := h
  refine .noSuchKey x (m.registers.get x) hins (register_of_lt m hx) ?_
  rw [UInt8.lt_iff_toNat_lt]
  exact Nat.lt_of_not_le fun hle => hkey (Nat.lt_succ_of_le hle)

/-- With at most sixteen return addresses, the refusal that a step computes is the
one that has a cause. -/
theorem refusal?_eq_some_iff {m : Machine G} (hdepth : m.registers.stack.depth.toNat ≤ 16)
    (fault : Fault) :
    m.afterFetch.refusal? m.fetched = some fault ↔ m.Refuses fault := by
  have hrange := m.fetched_inRange
  constructor
  · intro h
    cases hins : m.fetched with
    | ret =>
        simp only [hins, refusal?, stack_afterFetch, instructionAddress_afterFetch,
          Option.ite_none_right_eq_some, Option.some.injEq] at h
        obtain ⟨hzero, rfl⟩ := h
        exact .emptyStack hins hzero
    | call addr =>
        simp only [hins, refusal?, stack_afterFetch, instructionAddress_afterFetch,
          Option.ite_none_left_eq_some, Option.some.injEq] at h
        obtain ⟨hfull, rfl⟩ := h
        refine .fullStack addr hins ?_
        apply UInt8.toNat_inj.mp
        change m.registers.stack.depth.toNat = 16
        omega
    | skipIfKey x =>
        rw [hins] at h hrange
        exact refuses_key (Or.inl hins) hrange h
    | skipUnlessKey x =>
        rw [hins] at h hrange
        exact refuses_key (Or.inr hins) hrange h
    | _ => simp [hins, refusal?] at h
  · intro h
    cases h with
    | emptyStack hins hzero => simp [hins, refusal?, hzero]
    | fullStack addr hins hfull => simp [hins, refusal?, hfull]
    | noSuchKey x key hins hkey hlarge =>
        have hx : x.toNat < 16 := by
          rcases hins with hins | hins <;> rw [hins] at hrange <;> exact hrange
        rw [register_of_lt m hx] at hkey
        obtain rfl := Except.ok.inj hkey
        have hpast : ¬(m.registers.get x).toNat < 16 := Nat.not_lt.mpr hlarge
        rcases hins with hins | hins <;> simp [hins, refusal?, hpast]

/-- A step is refused exactly if its instruction has a cause, and with the fault
of that cause; it then changes nothing beyond its fetch.  A cycle is refused in
the same cases, with the same fault, and leaves the same machine. -/
theorem refusal_law [RandomSource G] (m : Machine G)
    (hdepth : m.registers.stack.depth.toNat ≤ 16) (hticks : m.ticks.count.toNat < UInt64.size - 1) :
    ∃ stepped cycled : Outcome G, m.step = .ok stepped ∧ m.cycle = .ok cycled ∧
      (∀ fault, stepped.fault = some fault ↔ m.Refuses fault) ∧
      (stepped.fault ≠ none →
        stepped.machine =
          { m with
            registers :=
              { m.registers with
                pc := m.registers.pc + 2
                opcode := m.memory.readWord m.registers.pc }
            ticks := ⟨m.ticks.count + 1⟩ }) ∧
      cycled.fault = stepped.fault ∧
      (stepped.fault ≠ none → cycled.machine = stepped.machine) := by
  have hfull : ¬m.Full := Nat.ne_of_lt hticks
  refine ⟨m.stepped, m.cycled, step_eq hdepth hfull, cycle_eq hdepth hfull, ?_, ?_, ?_, ?_⟩
  · intro fault
    exact refusal?_eq_some_iff hdepth fault
  · exact stepped_of_refused
  · exact fault_cycled m
  · intro hrefused
    rw [cycled_of_refused hrefused]

/-- A return at the last address, its second byte in the first cell of memory, with
an empty call stack. -/
def strandedReturn : Machine Lcg :=
  { powerOn Lcg.standard with memory := Memory.powerOn.write 0x000 0xEE }.setPc 0xFFFF

theorem refusal_law_strandedReturn :
    strandedReturn.registers.stack.depth.toNat ≤ 16 ∧
      strandedReturn.ticks.count.toNat < UInt64.size - 1 ∧
      ∃ stepped : Outcome Lcg, strandedReturn.step = .ok stepped ∧
        stepped.fault = some (.stackUnderflow 0xFFFF) ∧
        stepped.machine.registers.pc = 0x0001 := by
  have hdepth : strandedReturn.registers.stack.depth.toNat ≤ 16 := by decide
  have hticks : strandedReturn.ticks.count.toNat < UInt64.size - 1 := by decide
  obtain ⟨stepped, -, hstep, -, hfault, hmachine, -⟩ := refusal_law strandedReturn hdepth hticks
  have hcause : strandedReturn.Refuses (.stackUnderflow 0xFFFF) :=
    .emptyStack (by decide +kernel) (by decide)
  have hrefused : stepped.fault = some (.stackUnderflow 0xFFFF) := (hfault _).mpr hcause
  refine ⟨hdepth, hticks, stepped, hstep, hrefused, ?_⟩
  rw [hmachine (by simp [hrefused])]
  rfl

end Machine

end Chip8
