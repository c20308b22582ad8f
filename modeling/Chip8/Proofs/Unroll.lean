import Chip8.Console.Operation
import Chip8.Proofs.Frames
import Chip8.Proofs.Lockstep

/-!
# Console operations unrolled

A console does nothing to its machine that could not be done to the machine alone: a
frame is steps and, if none of them is refused, a tick of the timers.  Operations on a
console therefore unroll into operations on its machine, and whatever holds of every
history of a machine holds of the machine in a console.

Main results:

- Theorem `Console.exists_rest_of_frame`: what is left of a frame after the steps that are not
  refused.
- Theorem `Console.perform_unrolled`: an operation on a console leaves the machine that
  the operations it unrolls into reach.
- Theorem `Console.performAll_of_unroll`: so do operations one after another.
- Theorem `Console.lockstep_of_unroll`: the machines of two consoles stay in lockstep.
-/

namespace Chip8

namespace Machine

variable {G : Type} [RandomSource G] {m n : Machine G}

/-- What a frame of `k` steps does to a machine: all its steps and a tick, or the steps up
to the first that is refused. -/
def frameOperations (m : Machine G) : Nat → List Operation
  | 0 => [.tickTimers]
  | k + 1 =>
    .step :: if m.stepped.fault.isSome then [] else m.stepped.machine.frameOperations k

/-- A frame whose first step is refused is that step. -/
theorem frameOperations_of_fault {k : Nat} {fault : Fault} (h : m.stepped.fault = some fault) :
    m.frameOperations (k + 1) = [.step] := by
  rw [frameOperations, h]
  rfl

theorem frameOperations_of_success (k : Nat) (h : m.stepped.fault = none) :
    m.frameOperations (k + 1) = .step :: m.stepped.machine.frameOperations k := by
  rw [frameOperations, h]
  rfl

/-- A single operation overflows only as an attempt at the limit of the tick count. -/
theorem not_overflows_single (hdepth : m.registers.stack.depth.toNat ≤ 16) {op : Operation}
    (h : ¬(op.isAttempt = true ∧ m.Full)) : ¬m.Overflows [op] := by
  rw [overflows_cons hdepth, not_or]
  exact ⟨h, id⟩

/-- A frame goes on after steps that are not refused as a shorter one would. -/
theorem Advances.frameOperations {reached : Machine G} {outcomes : List (Outcome G)}
    (h : m.Advances outcomes reached) (hdepth : m.registers.stack.depth.toNat ≤ 16) (k : Nat) :
    m.reached (m.frameOperations (k + outcomes.length)) =
        reached.reached (reached.frameOperations k) ∧
      (m.Overflows (m.frameOperations (k + outcomes.length)) ↔
        reached.Overflows (reached.frameOperations k)) ∧
      ((∀ e ∈ m.events (m.frameOperations (k + outcomes.length)), e.outcome.fault = none) ↔
        ∀ e ∈ reached.events (reached.frameOperations k), e.outcome.fault = none) := by
  induction h with
  | nil m => exact ⟨rfl, Iff.rfl, Iff.rfl⟩
  | cons hstep hsuccess hlater ih =>
      obtain ⟨hfull, rfl⟩ := (step_eq_ok_iff hdepth).mp hstep
      obtain ⟨hreached, hover, hfaults⟩ := ih (depth_stepped_le hdepth)
      rw [List.length_cons, ← Nat.add_assoc, frameOperations_of_success _ hsuccess]
      refine ⟨hreached, ?_, ?_⟩
      · rw [overflows_cons hdepth, ← hover]
        exact or_iff_right fun hnow => hfull hnow.2
      · rw [events, List.forall_mem_cons, ← hfaults]
        exact and_iff_right hsuccess

/-- A frame whose steps are not refused is all of them and a tick. -/
theorem frameOperations_eq {k : Nat}
    (h : ∀ e ∈ m.events (m.frameOperations k), e.outcome.fault = none) :
    m.frameOperations k = List.replicate k .step ++ [.tickTimers] := by
  induction k generalizing m with
  | zero => rfl
  | succ k ih =>
      cases hfault : m.stepped.fault with
      | some fault =>
          rw [frameOperations_of_fault hfault, events, List.forall_mem_cons] at h
          cases hfault.symm.trans h.1
      | none =>
          rw [frameOperations_of_success k hfault, events, List.forall_mem_cons] at h
          rw [frameOperations_of_success k hfault, ih (m := m.stepped.machine) h.2]
          rfl

/-- Frames of one length keep two machines that look the same in lockstep. -/
theorem Same.lockstep_frame {view : View G} (h : m.Same view n) (hclosed : view.Closed)
    (k : Nat) : Lockstep view m (m.frameOperations k) n (n.frameOperations k) := by
  induction k generalizing m n with
  | zero => exact h.lockstep hclosed [.tickTimers]
  | succ k ih =>
      apply h.lockstep_cons hclosed .step
      intro houtcome
      have hfault : m.stepped.fault = n.stepped.fault := houtcome.fault
      rw [← hfault]
      split
      · exact houtcome.machine.lockstep_nil
      · exact ih houtcome.machine

end Machine

namespace Console

/-- What an operation on a console does to its machine. -/
def unrolled (console : Console) : Operation → List Chip8.Operation
  | .frame => console.machine.frameOperations console.ticksPerFrame.count.toNat
  | .loadProgram image => [.loadProgram image]
  | .machine op => [op]

/-- What operations on a console one after another do to its machine. -/
def unroll (console : Console) : List Operation → Checked (List Chip8.Operation)
  | [] => return []
  | op :: rest => do
    let outcome ← console.perform op
    let later ← outcome.console.unroll rest
    return console.unrolled op ++ later

/-- The events on the machine of a console under operations on the console. -/
def history (console : Console) (ops : List Operation) : Checked (List (Event Lcg)) := do
  console.machine.history (← console.unroll ops)

/-- What an operation unrolls into is complete, it reaches the machine that the operation
leaves, and none of it is refused unless the operation is. -/
structure Unrolls (console : Console) (op : Operation) (outcome : Outcome) : Prop where
  complete : ¬console.machine.Overflows (console.unrolled op)
  machine : outcome.console.machine = console.machine.reached (console.unrolled op)
  success : ∀ count, outcome.result = .ok count →
    ∀ e ∈ console.machine.events (console.unrolled op), e.outcome.fault = none

variable {console : Console}

/-- A frame is steps that are not refused and what is left of it after them: a tick of the
timers if that is nothing, and otherwise the step that is refused. -/
theorem exists_rest_of_frame {outcome : Outcome} (h : console.perform .frame = .ok outcome) :
    ∃ outcomes reached left, console.machine.Advances outcomes reached ∧
      console.ticksPerFrame.count.toNat = left + outcomes.length ∧
      (left = 0 ∧ reached.frameOperations left = [.tickTimers] ∧
          console.frames.toNat < UInt64.size - 1 ∧
          outcome =
            { console :=
                { console with machine := reached.tickTimers, frames := console.frames + 1 }
              result := .ok (some console.ticksPerFrame)
              log := Outcome.logs outcomes } ∨
        0 < left ∧ reached.frameOperations left = [.step] ∧
          reached.step = .ok reached.stepped ∧
          ∃ fault, reached.stepped.fault = some fault ∧
            outcome =
              { console := { console with machine := reached.stepped.machine }
                result := .error fault
                log := Outcome.logs outcomes ++ reached.stepped.log }) := by
  obtain ⟨frame, hframe, h⟩ := Checked.bind_eq_ok.mp h
  obtain rfl := Except.ok.inj h
  obtain ⟨outcomes, reached, hadvances, hend⟩ := runFrame_cases hframe
  rcases hend with ⟨hlength, hframes, rfl⟩ | ⟨hless, failed, fault, hstep, hfault, rfl⟩
  · refine ⟨outcomes, reached, 0, hadvances, ?_, Or.inl ⟨rfl, rfl, hframes, rfl⟩⟩
    rw [hlength, Nat.zero_add]
  · obtain ⟨left, hleft⟩ := Nat.exists_eq_add_of_lt hless
    obtain ⟨-, rfl⟩ := Machine.eq_stepped_of_step hstep
    refine ⟨outcomes, reached, left + 1, hadvances, by omega, Or.inr ⟨Nat.succ_pos left,
      Machine.frameOperations_of_fault hfault, hstep, fault, hfault, rfl⟩⟩

/-- All steps of a frame are complete, and so is what is left of it after them. -/
theorem unrolls_frame (hdepth : console.machine.registers.stack.depth.toNat ≤ 16)
    {outcome : Outcome} (h : console.perform .frame = .ok outcome) :
    console.Unrolls .frame outcome := by
  obtain ⟨outcomes, reached, left, hadvances, hcount, hrest⟩ := exists_rest_of_frame h
  have hdepth' := hadvances.depth_le hdepth
  obtain ⟨hreached, hover, hfaults⟩ := hadvances.frameOperations hdepth left
  rw [← hcount] at hreached hover hfaults
  rcases hrest with ⟨-, hops, -, rfl⟩ | ⟨-, hops, hstep, fault, hfault, rfl⟩
  · rw [hops] at hreached hover hfaults
    exact
      { complete := by
          rw [unrolled, hover]
          exact Machine.not_overflows_single hdepth' fun hnow => by cases hnow.1
        machine := hreached.symm
        success := by
          intro count _
          rw [unrolled, hfaults]
          exact List.forall_mem_singleton.mpr rfl }
  · rw [hops] at hreached hover
    have hfull := (Machine.eq_stepped_of_step hstep).1
    exact
      { complete := by
          rw [unrolled, hover]
          exact Machine.not_overflows_single hdepth' fun hnow => hfull hnow.2
        machine := hreached.symm
        success := nofun }

theorem fault_of_afterMachine {reached : Chip8.Outcome Lcg} {count : Option Ticks}
    (h : (console.afterMachine reached).result = .ok count) : reached.fault = none := by
  cases hfault : reached.fault with
  | none => rfl
  | some fault =>
      simp only [afterMachine, hfault] at h
      cases h

/-- An operation on a console leaves the machine that what it unrolls into reaches. -/
theorem perform_unrolled (hdepth : console.machine.registers.stack.depth.toNat ≤ 16)
    {op : Operation} {outcome : Outcome} (h : console.perform op = .ok outcome) :
    console.Unrolls op outcome := by
  cases op with
  | frame => exact unrolls_frame hdepth h
  | loadProgram image =>
      obtain rfl := Except.ok.inj h
      exact
        { complete := Machine.not_overflows_single hdepth fun hnow => by cases hnow.1
          machine := rfl
          success := fun count h => List.forall_mem_singleton.mpr (fault_of_afterMachine h) }
  | machine op =>
      obtain ⟨reached, hreached, h⟩ := Checked.bind_eq_ok.mp h
      obtain rfl := Except.ok.inj h
      by_cases hnow : op.isAttempt = true ∧ console.machine.Full
      · rw [Machine.perform_of_full hnow.1 hnow.2] at hreached
        cases hreached
      · rw [Machine.perform_eq hdepth fun hattempt hfull => hnow ⟨hattempt, hfull⟩] at hreached
        obtain rfl := Except.ok.inj hreached
        exact
          { complete := Machine.not_overflows_single hdepth hnow
            machine := rfl
            success := fun count h => List.forall_mem_singleton.mpr (fault_of_afterMachine h) }

/-- No operation of a console lets the stack grow past its slots. -/
theorem depth_perform_le (hdepth : console.machine.registers.stack.depth.toNat ≤ 16)
    {op : Operation} {outcome : Outcome} (h : console.perform op = .ok outcome) :
    outcome.console.machine.registers.stack.depth.toNat ≤ 16 := by
  rw [(perform_unrolled hdepth h).machine]
  exact Machine.depth_reached_le hdepth _

theorem unroll_cons_eq_ok_iff {op : Operation} {rest : List Operation}
    {ops : List Chip8.Operation} :
    console.unroll (op :: rest) = .ok ops ↔ ∃ outcome later, console.perform op = .ok outcome ∧
      outcome.console.unroll rest = .ok later ∧ ops = console.unrolled op ++ later := by
  rw [unroll, Checked.bind_eq_ok]
  simp only [Checked.bind_eq_ok]
  constructor
  · rintro ⟨outcome, houtcome, later, hlater, h⟩
    exact ⟨outcome, later, houtcome, hlater, (Except.ok.inj h).symm⟩
  · rintro ⟨outcome, later, houtcome, hlater, rfl⟩
    exact ⟨outcome, houtcome, later, hlater, rfl⟩

/-- Operations on a console lead its machine to where what they unroll into leads it. -/
theorem performAll_of_unroll (hdepth : console.machine.registers.stack.depth.toNat ≤ 16)
    {ops : List Operation} {unrolled : List Chip8.Operation}
    (h : console.unroll ops = .ok unrolled) :
    ¬console.machine.Overflows unrolled ∧
      ∃ last, console.performAll ops = .ok last ∧
        last.machine = console.machine.reached unrolled := by
  induction ops generalizing console unrolled with
  | nil =>
      obtain rfl := Except.ok.inj h
      exact ⟨id, console, rfl, rfl⟩
  | cons op rest ih =>
      obtain ⟨outcome, later, houtcome, hlater, rfl⟩ := unroll_cons_eq_ok_iff.mp h
      have hunrolls := perform_unrolled hdepth houtcome
      obtain ⟨hover, last, hlast, hreached⟩ := ih (depth_perform_le hdepth houtcome) hlater
      rw [hunrolls.machine] at hover hreached
      refine ⟨?_, last, ?_, ?_⟩
      · rw [Machine.overflows_append hdepth, not_or]
        exact ⟨hunrolls.complete, hover⟩
      · rw [performAll, houtcome]
        exact hlast
      · rw [Machine.reached_append]
        exact hreached

/-- The history of a console is that of its machine under the unrolled operations. -/
theorem history_of_unroll (hdepth : console.machine.registers.stack.depth.toNat ≤ 16)
    {ops : List Operation} {unrolled : List Chip8.Operation}
    (h : console.unroll ops = .ok unrolled) :
    console.history ops = .ok (console.machine.events unrolled) := by
  rw [history, h, Checked.ok_bind]
  exact Machine.history_eq hdepth (performAll_of_unroll hdepth h).1

/-- One list of operations keeps the machines of two consoles in lockstep. -/
theorem lockstep_of_unroll {view : View Lcg} {c d : Console} (h : c.machine.Same view d.machine)
    (hticks : c.ticksPerFrame = d.ticksPerFrame) (hclosed : view.Closed) {ops : List Operation}
    {first second : List Chip8.Operation} (hfirst : c.unroll ops = .ok first)
    (hsecond : d.unroll ops = .ok second) :
    Machine.Lockstep view c.machine first d.machine second := by
  induction ops generalizing c d first second with
  | nil =>
      obtain rfl := Except.ok.inj hfirst
      obtain rfl := Except.ok.inj hsecond
      exact h.lockstep_nil
  | cons op rest ih =>
      obtain ⟨outcome, later, houtcome, hlater, rfl⟩ := unroll_cons_eq_ok_iff.mp hfirst
      obtain ⟨outcome', later', houtcome', hlater', rfl⟩ := unroll_cons_eq_ok_iff.mp hsecond
      have hdepth : d.machine.registers.stack.depth.toNat ≤ 16 := h.registers ▸ h.depth_le
      have hnow : Machine.Lockstep view c.machine (c.unrolled op) d.machine (d.unrolled op) := by
        cases op with
        | frame =>
            rw [unrolled, unrolled, hticks]
            exact h.lockstep_frame hclosed _
        | loadProgram image => exact h.lockstep hclosed [.loadProgram image]
        | machine op => exact h.lockstep hclosed [op]
      apply hnow.append
      intro hreached
      rw [← (perform_unrolled h.depth_le houtcome).machine,
        ← (perform_unrolled hdepth houtcome').machine] at hreached ⊢
      refine ih hreached ?_ hlater hlater'
      rw [ticksPerFrame_of_perform houtcome, ticksPerFrame_of_perform houtcome', hticks]

end Console

end Chip8
