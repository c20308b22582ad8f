import Chip8.Machine.Operation
import Chip8.Proofs.Step

/-!
# Histories of operations

A history is what a list of operations comes to, one event for each operation.
Every operation has an outcome that is computed without any check; the only way
for the checked operation not to end in it is an instruction attempted while the
tick count is at its limit.

Main results:

- Theorem `Machine.perform_eq`: below the limit of the tick count an operation
  never crashes.
- Theorem `Machine.depth_performed_le`: no operation leaves more than sixteen
  return addresses.
- Theorems `Machine.history_eq` and `Machine.history_of_overflows`: a history
  without an overflow of the tick count is complete, and any other crashes in the
  count.
-/

namespace Chip8

/-- The operations that execute an instruction. -/
def Operation.isAttempt : Operation → Bool
  | .step | .cycle => true
  | _ => false

/-- The tick count after an operation: an attempt counts one, a reset starts over. -/
def Operation.ticksAfter (ticks : Ticks) : Operation → Ticks
  | .step | .cycle => ⟨ticks.count + 1⟩
  | .reset => .zero
  | _ => ticks

/-- An operation counts at most one attempt. -/
theorem Operation.ticksAfter_le (ticks : Ticks) (op : Operation) :
    (op.ticksAfter ticks).count.toNat ≤ ticks.count.toNat + 1 := by
  have hsucc : (ticks.count + 1).toNat ≤ ticks.count.toNat + 1 := by
    rw [UInt64.toNat_add]
    exact Nat.mod_le _ _
  cases op with
  | step => exact hsucc
  | cycle => exact hsucc
  | reset => exact Nat.zero_le _
  | _ => exact Nat.le_succ _

/-- One operation of a history: the machine it found and what it came to. -/
structure Event (G : Type) where
  before : Machine G
  op : Operation
  outcome : Outcome G

namespace Machine

variable {G : Type}

/-! ## The depth of the call stack -/

theorem depth_powerOn_le (random : G) :
    (powerOn random).registers.stack.depth.toNat ≤ 16 :=
  Nat.zero_le 16

/-- An instruction that is not refused keeps at most sixteen return addresses. -/
theorem depth_effect_le [RandomSource G] {m : Machine G} {ins : Instruction}
    (hdepth : m.registers.stack.depth.toNat ≤ 16) (h : m.refusal? ins = none) :
    (m.effect ins).registers.stack.depth.toNat ≤ 16 := by
  cases ins with
  | ret =>
      rw [refusal?_ret_eq_none_iff] at h
      have := CallStack.toNat_depth_popped h
      change m.registers.stack.popped.depth.toNat ≤ 16
      omega
  | call addr =>
      rw [refusal?_call_eq_none_iff] at h
      have := CallStack.toNat_depth_pushed h m.registers.pc
      change (m.registers.stack.pushed m.registers.pc).depth.toNat ≤ 16
      omega
  | _ => exact hdepth

/-- A step keeps at most sixteen return addresses. -/
theorem depth_stepped_le [RandomSource G] {m : Machine G}
    (hdepth : m.registers.stack.depth.toNat ≤ 16) :
    m.stepped.machine.registers.stack.depth.toNat ≤ 16 := by
  by_cases hfault : m.stepped.fault = none
  · rw [stepped_of_success hfault]
    exact depth_effect_le hdepth hfault
  · rw [stepped_of_refused hfault]
    exact hdepth

/-! ## Single operations -/

variable [RandomSource G]

/-- What an operation comes to. -/
def performed (m : Machine G) : Operation → Outcome G
  | .step => m.stepped
  | .cycle => m.cycled
  | .tickTimers => .done m.tickTimers
  | .reset => m.reboot
  | .loadProgram image => m.loadProgram image
  | .load addr bytes => .done { m with memory := m.memory.load addr bytes }
  | .write addr byte => .done { m with memory := m.memory.write addr byte }
  | .keypad event => .done { m with keypad := m.keypad.after event }
  | .setPc pc => .done (m.setPc pc)
  | .setIndex i => .done (m.setIndex i)
  | .setRegister x byte => .done { m with registers := m.registers.set x byte }
  | .setStack entries => .done (m.setStack (.ofEntries entries))
  | .setTimers delay sound => .done { m with timers := { delay, sound } }

/-- A cycle and a step are refused alike and leave the same registers. -/
theorem performed_of_isAttempt (m : Machine G) {op : Operation} (h : op.isAttempt = true) :
    (m.performed op).fault = m.stepped.fault ∧
      (m.performed op).machine.registers = m.stepped.machine.registers := by
  cases op with
  | step => exact ⟨rfl, rfl⟩
  | cycle => exact ⟨fault_cycled m, registers_cycled m⟩
  | _ => cases h

/-- A cycle and a step leave the same memory and the same screen. -/
theorem devices_performed_of_isAttempt (m : Machine G) {op : Operation}
    (h : op.isAttempt = true) :
    (m.performed op).machine.memory = m.stepped.machine.memory ∧
      (m.performed op).machine.screen = m.stepped.machine.screen := by
  cases op with
  | step => exact ⟨rfl, rfl⟩
  | cycle => exact ⟨m.stepped.memory_ticked, m.stepped.screen_ticked⟩
  | _ => cases h

/-- Below the limit of the tick count an operation never crashes. -/
theorem perform_eq {m : Machine G} {op : Operation}
    (hdepth : m.registers.stack.depth.toNat ≤ 16) (hcount : op.isAttempt = true → ¬m.Full) :
    m.perform op = .ok (m.performed op) := by
  cases op with
  | step => exact step_eq hdepth (hcount rfl)
  | cycle => exact cycle_eq hdepth (hcount rfl)
  | load addr bytes => rw [perform, Memory.writeCells_eq]; rfl
  | write addr byte => rw [perform, Memory.writeCell_eq]; rfl
  | _ => rfl

/-- At the limit of the tick count an attempt crashes in the count. -/
theorem perform_of_full {m : Machine G} {op : Operation} (hattempt : op.isAttempt = true)
    (hfull : m.Full) : m.perform op = .error .addOverflow := by
  cases op with
  | step => exact step_of_full hfull
  | cycle => exact cycle_of_full hfull
  | _ => cases hattempt

/-- No operation leaves more than sixteen return addresses. -/
theorem depth_performed_le {m : Machine G} (hdepth : m.registers.stack.depth.toNat ≤ 16)
    (op : Operation) : (m.performed op).machine.registers.stack.depth.toNat ≤ 16 := by
  cases op with
  | step => exact depth_stepped_le hdepth
  | cycle => simpa [performed] using depth_stepped_le hdepth
  | reset => exact Nat.zero_le 16
  | loadProgram image =>
      simp only [performed, loadProgram]
      split <;> exact hdepth
  | setStack entries => exact CallStack.depth_ofEntries_le entries
  | _ => exact hdepth

/-! ## Whole histories -/

/-- The events of operations one after another. -/
def history (m : Machine G) : List Operation → Checked (List (Event G))
  | [] => return []
  | op :: rest => do
    let outcome ← m.perform op
    let later ← outcome.machine.history rest
    return { before := m, op, outcome } :: later

/-- The history of a first operation and the rest is its event and the history of the rest.
-/
theorem history_cons {m : Machine G} {op : Operation} {outcome : Outcome G}
    {rest : List Operation} {later : List (Event G)} (h : m.perform op = .ok outcome)
    (hlater : outcome.machine.history rest = .ok later) :
    m.history (op :: rest) = .ok ({ before := m, op, outcome } :: later) := by
  rw [history, h, Checked.ok_bind, hlater]
  rfl

/-- An operation as the event it makes, computed without checks. -/
def event (m : Machine G) (op : Operation) : Event G :=
  { before := m, op, outcome := m.performed op }

/-- The events of operations one after another, computed without checks. -/
def events (m : Machine G) : List Operation → List (Event G)
  | [] => []
  | op :: rest => m.event op :: (m.performed op).machine.events rest

/-- The machine after operations one after another, computed without checks. -/
def reached (m : Machine G) : List Operation → Machine G
  | [] => m
  | op :: rest => (m.performed op).machine.reached rest

/-- Some of the operations attempts an instruction while the tick count is at its
limit. -/
def Overflows (m : Machine G) : List Operation → Prop
  | [] => False
  | op :: rest =>
    op.isAttempt = true ∧ m.Full ∨
      ∃ outcome, m.perform op = .ok outcome ∧ outcome.machine.Overflows rest

/-- A machine with at most sixteen return addresses overflows at the first
operation or after it. -/
theorem overflows_cons {m : Machine G} (hdepth : m.registers.stack.depth.toNat ≤ 16)
    (op : Operation) (rest : List Operation) :
    m.Overflows (op :: rest) ↔
      op.isAttempt = true ∧ m.Full ∨ (m.performed op).machine.Overflows rest := by
  rw [Overflows]
  by_cases hnow : op.isAttempt = true ∧ m.Full
  · exact iff_of_true (Or.inl hnow) (Or.inl hnow)
  · have hperform := perform_eq hdepth fun hattempt hfull => hnow ⟨hattempt, hfull⟩
    rw [hperform]
    simp

/-- An operation leaves the tick count that it says. -/
theorem ticks_performed (m : Machine G) (op : Operation) :
    (m.performed op).machine.ticks = op.ticksAfter m.ticks := by
  cases op with
  | step => exact ticks_stepped m
  | cycle => exact ticks_cycled m
  | loadProgram image =>
      simp only [performed, loadProgram]
      split <;> rfl
  | _ => simp only [performed, Outcome.done, setPc, setIndex, setStack, tickTimers, reboot, reset,
      Operation.ticksAfter]

/-- Whether operations overflow depends on the tick count alone. -/
theorem overflows_congr {m n : Machine G} (hdepth : m.registers.stack.depth.toNat ≤ 16)
    (hdepth' : n.registers.stack.depth.toNat ≤ 16) (hticks : m.ticks = n.ticks)
    (ops : List Operation) : m.Overflows ops ↔ n.Overflows ops := by
  induction ops generalizing m n with
  | nil => exact Iff.rfl
  | cons op rest ih =>
      have hnext : (m.performed op).machine.ticks = (n.performed op).machine.ticks := by
        rw [ticks_performed, ticks_performed, hticks]
      have hlater := ih (depth_performed_le hdepth op) (depth_performed_le hdepth' op) hnext
      rw [overflows_cons hdepth, overflows_cons hdepth', hlater, Full, Full, hticks]

/-- Operations do not overflow if there are at most as many as counts are left. -/
theorem not_overflows_of_lt {m : Machine G} (hdepth : m.registers.stack.depth.toNat ≤ 16)
    {ops : List Operation} (hcount : m.ticks.count.toNat + ops.length < UInt64.size) :
    ¬m.Overflows ops := by
  induction ops generalizing m with
  | nil => exact id
  | cons op rest ih =>
      rw [List.length_cons] at hcount
      rw [overflows_cons hdepth, not_or]
      constructor
      · rintro ⟨-, hfull⟩
        unfold Full at hfull
        omega
      · have hticks := op.ticksAfter_le m.ticks
        rw [← ticks_performed] at hticks
        exact ih (depth_performed_le hdepth op) (by omega)

/-- A history without an overflow is complete. -/
theorem history_eq {m : Machine G} (hdepth : m.registers.stack.depth.toNat ≤ 16)
    {ops : List Operation} (hover : ¬m.Overflows ops) : m.history ops = .ok (m.events ops) := by
  induction ops generalizing m with
  | nil => rfl
  | cons op rest ih =>
      rw [overflows_cons hdepth, not_or, not_and] at hover
      exact history_cons (perform_eq hdepth hover.1) (ih (depth_performed_le hdepth op) hover.2)

/-- A history with an overflow crashes in the count. -/
theorem history_of_overflows {m : Machine G} (hdepth : m.registers.stack.depth.toNat ≤ 16)
    {ops : List Operation} (hover : m.Overflows ops) :
    m.history ops = .error .addOverflow := by
  induction ops generalizing m with
  | nil => exact absurd hover id
  | cons op rest ih =>
      by_cases hnow : op.isAttempt = true ∧ m.Full
      · rw [history, perform_of_full hnow.1 hnow.2]
        rfl
      · have hlater := ((overflows_cons hdepth op rest).mp hover).resolve_left hnow
        rw [history, perform_eq hdepth fun hattempt hfull => hnow ⟨hattempt, hfull⟩,
          Checked.ok_bind, ih (depth_performed_le hdepth op) hlater]
        rfl

/-- The outcomes of operations are those of their history. -/
theorem outcomes_eq_map_history (m : Machine G) (ops : List Operation) :
    m.outcomes ops = (m.history ops).map (List.map Event.outcome) := by
  induction ops generalizing m with
  | nil => rfl
  | cons op rest ih =>
      rw [outcomes, history]
      cases m.perform op with
      | error crash => rfl
      | ok outcome =>
          rw [Checked.ok_bind, Checked.ok_bind, ih]
          cases outcome.machine.history rest <;> rfl

/-- Without an overflow there is an outcome for every operation. -/
theorem outcomes_eq {m : Machine G} (hdepth : m.registers.stack.depth.toNat ≤ 16)
    {ops : List Operation} (hover : ¬m.Overflows ops) :
    m.outcomes ops = .ok ((m.events ops).map Event.outcome) := by
  rw [outcomes_eq_map_history, history_eq hdepth hover]
  rfl

/-- Operations reach a machine exactly if their history is complete, and then it is
the one computed without checks. -/
theorem performAll_eq_map_history {m : Machine G}
    (hdepth : m.registers.stack.depth.toNat ≤ 16) (ops : List Operation) :
    m.performAll ops = (m.history ops).map fun _ => m.reached ops := by
  induction ops generalizing m with
  | nil => rfl
  | cons op rest ih =>
      rw [performAll, history]
      by_cases hnow : op.isAttempt = true ∧ m.Full
      · rw [perform_of_full hnow.1 hnow.2]
        rfl
      · rw [perform_eq hdepth fun hattempt hfull => hnow ⟨hattempt, hfull⟩, Checked.ok_bind,
          Checked.ok_bind, ih (depth_performed_le hdepth op)]
        cases (m.performed op).machine.history rest <;> rfl

/-- No list of operations leaves more than sixteen return addresses. -/
theorem depth_reached_le {m : Machine G} (hdepth : m.registers.stack.depth.toNat ≤ 16)
    (ops : List Operation) : (m.reached ops).registers.stack.depth.toNat ≤ 16 := by
  induction ops generalizing m with
  | nil => exact hdepth
  | cons op rest ih => exact ih (depth_performed_le hdepth op)

/-- Operations count at most one attempt each. -/
theorem ticks_reached_le (m : Machine G) (ops : List Operation) :
    (m.reached ops).ticks.count.toNat ≤ m.ticks.count.toNat + ops.length := by
  induction ops generalizing m with
  | nil => exact Nat.le_refl _
  | cons op rest ih =>
      have hnow := op.ticksAfter_le m.ticks
      rw [← ticks_performed] at hnow
      have hlater := ih (m.performed op).machine
      rw [reached, List.length_cons]
      omega

/-- Operations in two parts reach what the second part reaches from where the first ends. -/
theorem reached_append (m : Machine G) (ops rest : List Operation) :
    m.reached (ops ++ rest) = (m.reached ops).reached rest := by
  induction ops generalizing m with
  | nil => rfl
  | cons op ops ih => exact ih (m.performed op).machine

/-- The events of operations in two parts are those of either part. -/
theorem events_append (m : Machine G) (ops rest : List Operation) :
    m.events (ops ++ rest) = m.events ops ++ (m.reached ops).events rest := by
  induction ops generalizing m with
  | nil => rfl
  | cons op ops ih => exact congrArg (m.event op :: ·) (ih (m.performed op).machine)

/-- One more operation adds one more event. -/
theorem events_concat (m : Machine G) (ops : List Operation) (op : Operation) :
    m.events (ops ++ [op]) = m.events ops ++ [(m.reached ops).event op] :=
  m.events_append ops [op]

/-- Operations in two parts overflow the tick count in the first part or in the second. -/
theorem overflows_append {m : Machine G} (hdepth : m.registers.stack.depth.toNat ≤ 16)
    (ops rest : List Operation) :
    m.Overflows (ops ++ rest) ↔ m.Overflows ops ∨ (m.reached ops).Overflows rest := by
  induction ops generalizing m with
  | nil => simp [Overflows, reached]
  | cons op ops ih =>
      rw [List.cons_append, overflows_cons hdepth, overflows_cons hdepth,
        ih (depth_performed_le hdepth op), or_assoc]
      rfl

/-- Every event of a history is an operation on the machine that the operations
before it reach, and the events after it are those of the operations after it. -/
theorem events_eq_append_cons {m : Machine G} {ops : List Operation}
    {front back : List (Event G)} {event : Event G}
    (h : m.events ops = front ++ event :: back) :
    ∃ earlier op later, ops = earlier ++ op :: later ∧ front = m.events earlier ∧
      event = (m.reached earlier).event op ∧ back = event.outcome.machine.events later := by
  induction front generalizing m ops with
  | nil =>
      cases ops with
      | nil => cases h
      | cons op rest =>
          obtain ⟨rfl, rfl⟩ := List.cons.inj h
          exact ⟨[], op, rest, rfl, rfl, rfl, rfl⟩
  | cons first front ih =>
      cases ops with
      | nil => cases h
      | cons op rest =>
          obtain ⟨rfl, hrest⟩ := List.cons.inj h
          obtain ⟨earlier, op', later, rfl, rfl, hevent, hback⟩ := ih hrest
          exact ⟨op :: earlier, op', later, rfl, rfl, hevent, hback⟩

end Machine

end Chip8
