import Chip8.Proofs.Unroll

/-!
# Histories of consoles

What is done to a console is recorded operation by operation: the console that an
operation found, what it came to, and the events on the machine that it is made of.  A
frame is recorded as its steps and, if none of them is refused, a tick of the timers.
Only the tick count and the frame count can end a history early.

Main results:

- Theorem `Console.frame_cases`: how a frame ends, and what it is made of either way.
- Theorem `Console.perform_eq_error_iff`: an operation crashes exactly if it counts past
  the end of one of the two counts.
- Theorem `Console.exists_leads`: operations that do not are all recorded.
- Theorem `Console.Leads.machine`: the events recorded are a history of the machine.
-/

namespace Chip8

namespace Machine

variable {G : Type} [RandomSource G] {m reached : Machine G} {outcomes : List (Outcome G)}

/-- A frame is made of nothing but steps and ticks of the timers. -/
theorem mem_frameOperations (k : Nat) :
    ∀ op ∈ m.frameOperations k, op = .step ∨ op = .tickTimers := by
  induction k generalizing m with
  | zero => exact List.forall_mem_singleton.mpr (Or.inr rfl)
  | succ k ih =>
      rw [frameOperations, List.forall_mem_cons]
      refine ⟨Or.inl rfl, ?_⟩
      split
      · exact List.forall_mem_nil _
      · exact ih

theorem length_frameOperations_le (k : Nat) : (m.frameOperations k).length ≤ k + 1 := by
  induction k generalizing m with
  | zero => exact Nat.le_refl 1
  | succ k ih =>
      rw [frameOperations, List.length_cons]
      split
      · exact Nat.succ_le_succ (Nat.zero_le _)
      · exact Nat.succ_le_succ ih

/-- A frame begins with the steps that are not refused and goes on as a shorter one would. -/
theorem Advances.frameOperations_eq (h : m.Advances outcomes reached)
    (hdepth : m.registers.stack.depth.toNat ≤ 16) (k : Nat) :
    m.frameOperations (k + outcomes.length) =
      List.replicate outcomes.length .step ++ reached.frameOperations k := by
  induction h with
  | nil m => rfl
  | cons hstep hsuccess hlater ih =>
      obtain ⟨-, rfl⟩ := (step_eq_ok_iff hdepth).mp hstep
      rw [List.length_cons, ← Nat.add_assoc, frameOperations_of_success _ hsuccess,
        ih (depth_stepped_le hdepth)]
      rfl

end Machine

namespace Console

variable {console last : Console}

/-! ## The two ways a frame ends -/

/-- A frame is all of its steps and a tick, and is counted; or it is at least one step, the
last of them refused. -/
theorem frame_cases (hdepth : console.machine.registers.stack.depth.toNat ≤ 16)
    {outcome : Outcome} (h : console.perform .frame = .ok outcome) :
    (outcome.result = .ok (some console.ticksPerFrame) ∧
        outcome.console.frames.toNat = console.frames.toNat + 1 ∧
        console.unrolled .frame =
          List.replicate console.ticksPerFrame.count.toNat .step ++ [.tickTimers]) ∨
      ∃ fault steps, outcome.result = .error fault ∧ outcome.console.frames = console.frames ∧
        console.unrolled .frame = List.replicate steps .step ∧
        1 ≤ steps ∧ steps ≤ console.ticksPerFrame.count.toNat := by
  obtain ⟨outcomes, reached, left, hadvances, hcount, hrest⟩ := exists_rest_of_frame h
  have hsteps := hadvances.frameOperations_eq hdepth left
  rw [← hcount] at hsteps
  rcases hrest with ⟨hnone, hops, hframes, rfl⟩ | ⟨hsome, hops, -, fault, -, rfl⟩
  · refine Or.inl ⟨rfl, ?_, ?_⟩
    · rw [UInt64.toNat_add]
      exact Nat.mod_eq_of_lt (Nat.add_lt_of_lt_sub hframes)
    · have hlength : outcomes.length = console.ticksPerFrame.count.toNat := by omega
      rwa [hops, hlength] at hsteps
  · have hlength : outcomes.length + 1 ≤ console.ticksPerFrame.count.toNat := by omega
    refine Or.inr ⟨fault, outcomes.length + 1, rfl, rfl, ?_, Nat.succ_pos _, hlength⟩
    rwa [hops, ← List.replicate_succ'] at hsteps

/-- A frame in which the timers tick has come to its end. -/
theorem result_of_tick_mem (hdepth : console.machine.registers.stack.depth.toNat ≤ 16)
    {outcome : Outcome} (h : console.perform .frame = .ok outcome)
    (htick : .tickTimers ∈ console.unrolled .frame) :
    outcome.result = .ok (some console.ticksPerFrame) := by
  rcases frame_cases hdepth h with ⟨hresult, -⟩ | ⟨fault, steps, -, -, hops, -⟩
  · exact hresult
  · rw [hops] at htick
    cases List.eq_of_mem_replicate htick

/-! ## The two counts that can overflow -/

/-- An operation goes on past the end of the tick count or of the frame count. -/
def CountsPast (console : Console) : Operation → Prop
  | .frame =>
    ∃ outcomes reached, console.machine.Advances outcomes reached ∧
      (outcomes.length < console.ticksPerFrame.count.toNat ∧ reached.Full ∨
        outcomes.length = console.ticksPerFrame.count.toNat ∧
          console.frames.toNat = UInt64.size - 1)
  | .loadProgram _ => False
  | .machine op => op.isAttempt = true ∧ console.machine.Full

/-- Some of the operations goes on past the end of one of the two counts. -/
def Overflows (console : Console) : List Operation → Prop
  | [] => False
  | op :: rest =>
    console.CountsPast op ∨
      ∃ outcome, console.perform op = .ok outcome ∧ outcome.console.Overflows rest

/-- An operation crashes exactly if it goes on past the end of one of the two counts. -/
theorem perform_eq_error_iff (hdepth : console.machine.registers.stack.depth.toNat ≤ 16)
    (op : Operation) (crash : Crash) :
    console.perform op = .error crash ↔ crash = .addOverflow ∧ console.CountsPast op := by
  cases op with
  | frame =>
      have hcrash : console.perform .frame = .error crash ↔ console.runFrame = .error crash := by
        rw [perform]
        cases console.runFrame with
        | error other => rw [Checked.error_bind, Except.error.injEq, Except.error.injEq]
        | ok frame => exact iff_of_false (fun h => by cases h) fun h => by cases h
      rw [hcrash, runFrame_eq_error_iff hdepth, CountsPast]
  | loadProgram image => exact iff_of_false (fun h => by cases h) fun h => h.2
  | machine op =>
      rw [CountsPast, perform]
      by_cases hnow : op.isAttempt = true ∧ console.machine.Full
      · rw [Machine.perform_of_full hnow.1 hnow.2, Checked.error_bind, Except.error.injEq,
          and_iff_left hnow]
        exact eq_comm
      · rw [Machine.perform_eq hdepth fun hattempt hfull => hnow ⟨hattempt, hfull⟩]
        exact iff_of_false (fun h => by cases h) fun h => hnow h.2

/-- An operation that does not go on past the end of a count comes to an outcome. -/
theorem exists_perform (hdepth : console.machine.registers.stack.depth.toNat ≤ 16)
    {op : Operation} (h : ¬console.CountsPast op) :
    ∃ outcome, console.perform op = .ok outcome := by
  cases houtcome : console.perform op with
  | error crash => exact absurd ((perform_eq_error_iff hdepth op crash).mp houtcome).2 h
  | ok outcome => exact ⟨outcome, rfl⟩

/-! ## Records -/

/-- One operation of the history of a console. -/
structure Record where
  /-- The console that the operation found. -/
  before : Console
  op : Operation
  outcome : Outcome
  /-- What the operation did to the machine. -/
  events : List (Event Lcg)

/-- The operation is a frame that did not end early. -/
def Record.completesFrame (record : Record) : Bool :=
  decide (record.op = .frame) && record.outcome.result.isOk

/-- Operations on a console one after another, each with its record, lead to another
console. -/
inductive Leads : Console → List Record → Console → Prop
  | nil (console : Console) : Leads console [] console
  | cons {console last : Console} {op : Operation} {outcome : Outcome}
      {events : List (Event Lcg)} {later : List Record}
      (hperform : console.perform op = .ok outcome)
      (hevents : console.machine.history (console.unrolled op) = .ok events)
      (hlater : Leads outcome.console later last) :
      Leads console ({ before := console, op, outcome, events } :: later) last

namespace Leads

variable {record : Record} {records front back : List Record}

theorem cons_iff :
    console.Leads (record :: records) last ↔
      record.before = console ∧ console.perform record.op = .ok record.outcome ∧
        console.machine.history (console.unrolled record.op) = .ok record.events ∧
        record.outcome.console.Leads records last := by
  constructor
  · rintro (_ | ⟨hperform, hevents, hlater⟩)
    exact ⟨rfl, hperform, hevents, hlater⟩
  · rintro ⟨rfl, hperform, hevents, hlater⟩
    exact .cons hperform hevents hlater

/-- A history splits at the console that its first part leads to. -/
theorem append_iff :
    console.Leads (front ++ back) last ↔
      ∃ middle, console.Leads front middle ∧ middle.Leads back last := by
  induction front generalizing console with
  | nil =>
      constructor
      · intro h
        exact ⟨console, .nil console, h⟩
      · rintro ⟨_, ⟨⟩, h⟩
        exact h
  | cons record front ih =>
      rw [List.cons_append, cons_iff, ih]
      constructor
      · rintro ⟨hbefore, hperform, hevents, middle, hfront, hback⟩
        exact ⟨middle, cons_iff.mpr ⟨hbefore, hperform, hevents, hfront⟩, hback⟩
      · rintro ⟨middle, hfront, hback⟩
        obtain ⟨hbefore, hperform, hevents, hfront⟩ := cons_iff.mp hfront
        exact ⟨hbefore, hperform, hevents, middle, hfront, hback⟩

theorem depth_le (h : console.Leads records last)
    (hdepth : console.machine.registers.stack.depth.toNat ≤ 16) :
    last.machine.registers.stack.depth.toNat ≤ 16 := by
  induction h with
  | nil console => exact hdepth
  | cons hperform _ _ ih => exact ih (depth_perform_le hdepth hperform)

theorem ticksPerFrame_eq (h : console.Leads records last) :
    last.ticksPerFrame = console.ticksPerFrame := by
  induction h with
  | nil console => rfl
  | cons hperform _ _ ih => exact ih.trans (ticksPerFrame_of_perform hperform)

/-- Every operation recorded was performed on the console that its record names, with the
frames of the console at the start. -/
theorem of_mem (h : console.Leads records last)
    (hdepth : console.machine.registers.stack.depth.toNat ≤ 16) (hmem : record ∈ records) :
    record.before.machine.registers.stack.depth.toNat ≤ 16 ∧
      record.before.ticksPerFrame = console.ticksPerFrame ∧
      record.before.perform record.op = .ok record.outcome ∧
      record.before.machine.history (record.before.unrolled record.op) = .ok record.events := by
  obtain ⟨front, back, rfl⟩ := List.append_of_mem hmem
  obtain ⟨middle, hfront, hback⟩ := append_iff.mp h
  obtain ⟨rfl, hperform, hevents, -⟩ := cons_iff.mp hback
  exact ⟨hfront.depth_le hdepth, hfront.ticksPerFrame_eq, hperform, hevents⟩

/-- What the records tell is what performing the operations does. -/
theorem performAll_eq (h : console.Leads records last) :
    console.performAll (records.map Record.op) = .ok last := by
  induction h with
  | nil console => rfl
  | cons hperform _ _ ih =>
      rw [List.map_cons, performAll, hperform]
      exact ih

/-- The events recorded are a history of the machine, and it leads where the operations
do. -/
theorem machine (h : console.Leads records last)
    (hdepth : console.machine.registers.stack.depth.toNat ≤ 16) :
    ∃ ops, ¬console.machine.Overflows ops ∧
      records.flatMap Record.events = console.machine.events ops ∧
      last.machine = console.machine.reached ops := by
  induction h with
  | nil console => exact ⟨[], id, rfl, rfl⟩
  | @cons console last op outcome events later hperform hevents hlater ih =>
      have hunrolls := perform_unrolled hdepth hperform
      obtain ⟨ops, hover, heq, hreached⟩ := ih (depth_perform_le hdepth hperform)
      rw [hunrolls.machine] at hover heq hreached
      rw [Machine.history_eq hdepth hunrolls.complete] at hevents
      obtain rfl := Except.ok.inj hevents
      refine ⟨console.unrolled op ++ ops, ?_, ?_, ?_⟩
      · rw [Machine.overflows_append hdepth, not_or]
        exact ⟨hunrolls.complete, hover⟩
      · rw [List.flatMap_cons, heq, Machine.events_append]
      · rw [hreached, Machine.reached_append]

/-- The record of a single operation. -/
theorem eq_singleton (h : console.Leads records last)
    (hdepth : console.machine.registers.stack.depth.toNat ≤ 16) {op : Operation}
    (hops : records.map Record.op = [op]) :
    ∃ outcome, console.perform op = .ok outcome ∧
      records = [{
        before := console, op, outcome, events := console.machine.events (console.unrolled op) }] := by
  obtain ⟨record, rfl, rfl⟩ := List.map_eq_singleton_iff.mp hops
  obtain ⟨rfl, hperform, hevents, -⟩ := cons_iff.mp h
  rw [Machine.history_eq hdepth (perform_unrolled hdepth hperform).complete] at hevents
  refine ⟨record.outcome, hperform, ?_⟩
  rw [Except.ok.inj hevents]

end Leads

/-- Operations that come to an end are all recorded. -/
theorem exists_leads_of_performAll (hdepth : console.machine.registers.stack.depth.toNat ≤ 16)
    {ops : List Operation} (h : console.performAll ops = .ok last) :
    ∃ records, console.Leads records last ∧ records.map Record.op = ops := by
  induction ops generalizing console with
  | nil =>
      obtain rfl := Except.ok.inj h
      exact ⟨[], .nil console, rfl⟩
  | cons op rest ih =>
      obtain ⟨outcome, hperform, h⟩ := Checked.bind_eq_ok.mp h
      have hevents := Machine.history_eq hdepth (perform_unrolled hdepth hperform).complete
      obtain ⟨records, hlater, rfl⟩ := ih (depth_perform_le hdepth hperform) h
      exact ⟨_, .cons hperform hevents hlater, rfl⟩

/-- Operations that do not go on past the end of a count are all recorded. -/
theorem exists_leads (hdepth : console.machine.registers.stack.depth.toNat ≤ 16)
    {ops : List Operation} (hover : ¬console.Overflows ops) :
    ∃ records last, console.Leads records last ∧ records.map Record.op = ops := by
  have hlast : ∃ last, console.performAll ops = .ok last := by
    induction ops generalizing console with
    | nil => exact ⟨console, rfl⟩
    | cons op rest ih =>
        rw [Overflows, not_or] at hover
        obtain ⟨outcome, hperform⟩ := exists_perform hdepth hover.1
        rw [performAll, hperform]
        exact ih (depth_perform_le hdepth hperform) fun h => hover.2 ⟨outcome, hperform, h⟩
  obtain ⟨last, hlast⟩ := hlast
  obtain ⟨records, hleads, hops⟩ := exists_leads_of_performAll hdepth hlast
  exact ⟨records, last, hleads, hops⟩

/-! ## How far operations can count -/

/-- An operation adds one to the frame count if it is a frame that comes to its end. -/
theorem frames_perform (hdepth : console.machine.registers.stack.depth.toNat ≤ 16)
    {op : Operation} {outcome : Outcome} (events : List (Event Lcg))
    (h : console.perform op = .ok outcome) :
    outcome.console.frames.toNat =
      console.frames.toNat +
        if ({ before := console, op, outcome, events } : Record).completesFrame then 1 else 0 := by
  cases op with
  | frame =>
      rcases frame_cases hdepth h with ⟨hresult, hframes, -⟩ | ⟨fault, steps, hresult, hframes, -⟩
      · simp [Record.completesFrame, hresult, hframes, Except.isOk, Except.toBool]
      · simp [Record.completesFrame, hresult, hframes, Except.isOk, Except.toBool]
  | loadProgram image =>
      obtain rfl := Except.ok.inj h
      rfl
  | machine op =>
      obtain ⟨reached, -, h⟩ := Checked.bind_eq_ok.mp h
      obtain rfl := Except.ok.inj h
      rfl

/-- No operation attempts more than a frame of instructions. -/
theorem ticks_perform_le (hdepth : console.machine.registers.stack.depth.toNat ≤ 16)
    {op : Operation} {outcome : Outcome} (h : console.perform op = .ok outcome) :
    outcome.console.machine.ticks.count.toNat ≤
      console.machine.ticks.count.toNat + (console.ticksPerFrame.count.toNat + 1) := by
  have hlength : (console.unrolled op).length ≤ console.ticksPerFrame.count.toNat + 1 := by
    cases op with
    | frame => exact Machine.length_frameOperations_le _
    | _ => exact Nat.succ_le_succ (Nat.zero_le _)
  have hticks := console.machine.ticks_reached_le (console.unrolled op)
  rw [(perform_unrolled hdepth h).machine]
  exact Nat.le_trans hticks (Nat.add_le_add_left hlength _)

/-- Operations do not overflow if the counts leave room for as many frames. -/
theorem not_overflows_of_lt (hdepth : console.machine.registers.stack.depth.toNat ≤ 16)
    {ops : List Operation}
    (hticks : console.machine.ticks.count.toNat +
      ops.length * (console.ticksPerFrame.count.toNat + 1) < UInt64.size)
    (hframes : console.frames.toNat + ops.length < UInt64.size) : ¬console.Overflows ops := by
  induction ops generalizing console with
  | nil => exact id
  | cons op rest ih =>
      rw [List.length_cons, Nat.succ_mul] at hticks
      rw [List.length_cons] at hframes
      rw [Overflows, not_or, not_exists]
      refine ⟨?_, ?_⟩
      · cases op with
        | frame =>
            rintro ⟨outcomes, reached, hadvances, ⟨hless, hfull⟩ | ⟨-, hlimit⟩⟩
            · have hsteps := hadvances.ticks_eq hdepth
              unfold Machine.Full at hfull
              omega
            · omega
        | loadProgram image => exact id
        | machine op =>
            rintro ⟨-, hfull⟩
            unfold Machine.Full at hfull
            omega
      · rintro outcome ⟨hperform, hover⟩
        have hcount := frames_perform hdepth [] hperform
        have hattempts := ticks_perform_le hdepth hperform
        refine ih (depth_perform_le hdepth hperform) ?_ ?_ hover
        · rw [ticksPerFrame_of_perform hperform]
          omega
        · split at hcount <;> omega

end Console

end Chip8
