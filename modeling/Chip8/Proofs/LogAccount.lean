import Chip8.Proofs.Counters
import Chip8.Proofs.FaultText

/-!
# The log of a run accounts for it

Every instruction attempted writes where it was fetched, the word and what the word stands for;
then, if it is passed over, that it is; then, if it is refused, why.  Nothing else writes to the
log while a machine runs, whether by steps, by cycles or by frames that may end early.  The three
addresses are computed apart from each other, before the fetch, after it and for the fault, and are
one and the same, also where the program counter wraps.

Main results:

- Theorem `Event.accounts_attempt`: what one attempt writes.
- Theorem `Event.Accounts.append`: accounts of runs one after another make up that of the whole.
- Theorem `Machine.Advances.accounts`: what the steps of a frame write.
- Theorem `Log.account_law`: so it is for all runs of every machine and every console, and the text
  of a warning tells the fault.
-/

namespace Chip8

/-! ## Messages -/

namespace Log

/-- What is captured of an entry: its level and its text. -/
abbrev Message := Level × String

/-- The message of an entry. -/
def Entry.captured (entry : Entry) : Message := (entry.level, entry.text)

/-- The messages of a log, in order. -/
def messages (log : Array Entry) : List Message := log.toList.map Entry.captured

theorem messages_append (log later : Array Entry) :
    messages (log ++ later) = messages log ++ messages later := by
  simp [messages]

/-- How many messages are of a level. -/
def count (level : Level) (messages : List Message) : Nat :=
  messages.countP fun message => message.1 = level

theorem count_append (level : Level) (messages later : List Message) :
    count level (messages ++ later) = count level messages + count level later :=
  List.countP_append

end Log

/-- The address that a fault names. -/
def Fault.address? : Fault → Option UInt16
  | .programTooLarge _ _ => none
  | .stackOverflow pc | .stackUnderflow pc | .invalidKey _ pc => some pc

namespace Event

variable {G : Type}

/-- What an attempt is to write: the word fetched, that it is passed over if it is, and why
it is refused if it is. -/
def account (event : Event G) : List Log.Message :=
  if event.op.isAttempt then
    let pc := Hex.padded 3 event.before.registers.pc.toNat
    let ins := event.before.fetched
    [(.trace, pc ++ ": " ++ Hex.fixed 4 event.before.opcodeAt.toNat ++ "  " ++ ins.text)] ++
      (if ins.isIgnored then [(.debug, "chip8: ignoring " ++ ins.text ++ " at " ++ pc)] else []) ++
      (match event.outcome.fault with
        | some fault => [(.warn, "chip8: " ++ fault.message)]
        | none => [])
  else []

/-- The messages written account for the events, which take the tick count from one value to
another and meet a number of faults. -/
structure Accounts (events : List (Event G)) (written : List Log.Message) (first last : Ticks)
    (faults : Nat) : Prop where
  /-- Each attempt writes its account and nothing else is written. -/
  messages : written = events.flatMap account
  /-- A fault names the address that its instruction was fetched from. -/
  address : ∀ e ∈ events, ∀ fault, e.outcome.fault = some fault →
    fault.address? = some e.before.registers.pc
  /-- What is passed over is not refused. -/
  apart : ∀ e ∈ events, e.before.fetched.isIgnored = true → e.outcome.fault = none
  /-- The tick count grows by the number of traces. -/
  traces : last.count.toNat = first.count.toNat + Log.count .trace written
  /-- There is one warning for every fault. -/
  warnings : Log.count .warn written = faults

theorem accounts_nil (ticks : Ticks) : Accounts ([] : List (Event G)) [] ticks ticks 0 :=
  { messages := rfl
    address := List.forall_mem_nil _
    apart := List.forall_mem_nil _
    traces := rfl
    warnings := rfl }

/-- The accounts of two runs make up the account of one after the other. -/
theorem Accounts.append {events later : List (Event G)} {written written' : List Log.Message}
    {first middle last : Ticks} {faults faults' : Nat}
    (h : Accounts events written first middle faults)
    (hlater : Accounts later written' middle last faults') :
    Accounts (events ++ later) (written ++ written') first last (faults + faults') :=
  { messages := by rw [h.messages, hlater.messages, List.flatMap_append]
    address := List.forall_mem_append.mpr ⟨h.address, hlater.address⟩
    apart := List.forall_mem_append.mpr ⟨h.apart, hlater.apart⟩
    traces := by rw [hlater.traces, h.traces, Log.count_append, Nat.add_assoc]
    warnings := by rw [Log.count_append, h.warnings, hlater.warnings] }

theorem count_trace_account {event : Event G} (h : event.op.isAttempt = true) :
    Log.count .trace event.account = 1 := by
  rw [account, if_pos h, Log.count_append, Log.count_append]
  cases event.before.fetched.isIgnored <;> cases event.outcome.fault <;> rfl

/-- An attempt leaves a warning exactly if it is refused. -/
theorem count_warn_account {event : Event G} (h : event.op.isAttempt = true) :
    Log.count .warn event.account = if event.outcome.fault.isSome then 1 else 0 := by
  rw [account, if_pos h, Log.count_append, Log.count_append]
  cases event.before.fetched.isIgnored <;> cases event.outcome.fault <;> rfl

end Event

/-! ## Single attempts -/

namespace Machine

variable {G : Type} {m : Machine G}

/-- A refusal names the address of the instruction under way. -/
theorem address_of_refusal {ins : Instruction} {fault : Fault} (h : m.refusal? ins = some fault) :
    fault.address? = some m.instructionAddress := by
  cases ins with
  | ret =>
      obtain ⟨-, h⟩ := Option.ite_none_right_eq_some.mp h
      obtain rfl := Option.some.inj h
      rfl
  | call addr =>
      obtain ⟨-, h⟩ := Option.ite_none_left_eq_some.mp h
      obtain rfl := Option.some.inj h
      rfl
  | skipIfKey x =>
      obtain ⟨-, h⟩ := Option.ite_none_left_eq_some.mp h
      obtain rfl := Option.some.inj h
      rfl
  | skipUnlessKey x =>
      obtain ⟨-, h⟩ := Option.ite_none_left_eq_some.mp h
      obtain rfl := Option.some.inj h
      rfl
  | _ => cases h

/-- What is passed over is not refused. -/
theorem refusal?_of_isIgnored {ins : Instruction} (h : ins.isIgnored = true) :
    m.refusal? ins = none := by
  cases ins with
  | hostCall addr => rfl
  | unassigned opcode => rfl
  | _ => cases h

variable [RandomSource G] {op : Operation} {outcome : Outcome G}

/-- Wherever an attempt comes to an outcome, it is the one computed without checks. -/
theorem eq_performed_of_attempt (hop : op.isAttempt = true) (h : m.perform op = .ok outcome) :
    ¬m.Full ∧ outcome = m.performed op := by
  cases op with
  | step => exact eq_stepped_of_step h
  | cycle =>
      rw [perform, cycle_eq_map_step] at h
      cases hstep : m.step with
      | error crash =>
          rw [hstep] at h
          cases h
      | ok stepped =>
          obtain ⟨hfull, rfl⟩ := eq_stepped_of_step hstep
          rw [hstep] at h
          exact ⟨hfull, (Except.ok.inj h).symm⟩
  | _ => cases hop

/-- A tick of the timers writes nothing, so a cycle writes what its step does. -/
theorem log_performed (m : Machine G) (hop : op.isAttempt = true) :
    (m.performed op).log = m.stepped.log := by
  cases op with
  | step => rfl
  | cycle =>
      simp only [performed, cycled, Outcome.ticked]
      split <;> rfl
  | _ => cases hop

/-- A step writes its account. -/
theorem messages_stepped (hop : op.isAttempt = true) (hfault : outcome.fault = m.stepped.fault) :
    Log.messages m.stepped.log = ({ before := m, op, outcome } : Event G).account := by
  have hlog : m.stepped.log = #[.fetched m.registers.pc m.opcodeAt m.fetched] ++
      m.afterFetch.remarks m.fetched ++ (m.stepped.fault.map Log.Entry.refused).toArray := rfl
  have hremarks : Log.messages (m.afterFetch.remarks m.fetched) =
      if m.fetched.isIgnored then
        [(.debug, "chip8: ignoring " ++ m.fetched.text ++ " at " ++
          Hex.padded 3 m.registers.pc.toNat)]
      else [] := by
    rw [remarks, instructionAddress_afterFetch]
    cases m.fetched.isIgnored <;> rfl
  have hwarning : Log.messages (m.stepped.fault.map Log.Entry.refused).toArray =
      match m.stepped.fault with
      | some fault => [(.warn, "chip8: " ++ fault.message)]
      | none => [] := by
    cases m.stepped.fault <;> rfl
  rw [hlog, Log.messages_append, Log.messages_append, hremarks, hwarning, Event.account, if_pos hop,
    hfault]
  rfl

end Machine

/-- What one attempt writes. -/
theorem Event.accounts_attempt {G : Type} [RandomSource G] {m : Machine G} {op : Operation}
    {outcome : Outcome G} (hop : op.isAttempt = true) (h : m.perform op = .ok outcome) :
    Accounts [{ before := m, op, outcome }] (Log.messages outcome.log) m.ticks outcome.machine.ticks
      (if outcome.fault.isSome then 1 else 0) := by
  obtain ⟨hfull, rfl⟩ := Machine.eq_performed_of_attempt hop h
  have hfault := (m.performed_of_isAttempt hop).1
  have hmessages := Machine.messages_stepped (m := m) hop hfault
  rw [m.log_performed hop, hmessages]
  refine
    { messages := (List.flatMap_singleton ..).symm
      address := List.forall_mem_singleton.mpr ?_
      apart := List.forall_mem_singleton.mpr ?_
      traces := ?_
      warnings := count_warn_account hop }
  · intro fault hsome
    rw [hfault, Machine.fault_stepped] at hsome
    rw [Machine.address_of_refusal hsome, Machine.instructionAddress_afterFetch]
  · intro hignored
    rw [hfault, Machine.fault_stepped]
    exact Machine.refusal?_of_isIgnored hignored
  · have hreset : op ≠ .reset := by
      rintro rfl
      cases hop
    rw [Machine.toNat_ticks_performed fun _ => hfull, if_neg hreset, if_pos hop,
      count_trace_account hop]

/-- A tick of the timers writes nothing. -/
theorem Event.accounts_tick {G : Type} [RandomSource G] (m : Machine G) :
    Accounts [m.event .tickTimers] [] m.ticks m.tickTimers.ticks 0 :=
  { messages := rfl
    address := List.forall_mem_singleton.mpr fun _ h => by cases h
    apart := List.forall_mem_singleton.mpr fun _ => rfl
    traces := rfl
    warnings := rfl }

/-! ## Steps and frames -/

/-- What the steps of a frame write, and what the frame goes on with. -/
theorem Machine.Advances.accounts {G : Type} [RandomSource G] {m reached : Machine G}
    {outcomes : List (Outcome G)} (h : m.Advances outcomes reached) (k : Nat) :
    ∃ events,
      (∀ later, reached.history (reached.frameOperations k) = .ok later →
        m.history (m.frameOperations (k + outcomes.length)) = .ok (events ++ later)) ∧
      Event.Accounts events (Log.messages (Outcome.logs outcomes)) m.ticks reached.ticks 0 := by
  induction h with
  | nil m => exact ⟨[], fun later hlater => hlater, Event.accounts_nil m.ticks⟩
  | @cons m reached outcome outcomes hstep hsuccess hlater ih =>
      obtain ⟨events, hhistory, haccounts⟩ := ih
      have hnow := Event.accounts_attempt (show Operation.step.isAttempt = true from rfl) hstep
      rw [hsuccess] at hnow
      obtain ⟨-, rfl⟩ := Machine.eq_stepped_of_step hstep
      refine ⟨{ before := m, op := .step, outcome := m.stepped } :: events, ?_, ?_⟩
      · intro later hrest
        rw [List.length_cons, ← Nat.add_assoc, frameOperations_of_success _ hsuccess]
        exact history_cons hstep (hhistory later hrest)
      · rw [Outcome.logs, Log.messages_append]
        exact hnow.append haccounts

namespace Console

variable {console last : Console}

/-- The operation executes instructions and does nothing else to the machine but tick its
timers. -/
def Operation.executes : Operation → Bool
  | .frame => true
  | .loadProgram _ => false
  | .machine op => op.isAttempt

/-- The operation was refused. -/
def Outcome.isRefused (outcome : Outcome) : Bool := !outcome.result.isOk

/-- What a frame writes, also one that ends early. -/
theorem accounts_frame {outcome : Outcome} (h : console.perform .frame = .ok outcome) :
    ∃ events, console.machine.history (console.unrolled .frame) = .ok events ∧
      Event.Accounts events (Log.messages outcome.log) console.machine.ticks
        outcome.console.machine.ticks (if outcome.isRefused then 1 else 0) := by
  obtain ⟨outcomes, reached, left, hadvances, hcount, hrest⟩ := exists_rest_of_frame h
  obtain ⟨events, hhistory, haccounts⟩ := hadvances.accounts left
  rw [← hcount] at hhistory
  rcases hrest with ⟨-, hops, -, rfl⟩ | ⟨-, hops, hstep, fault, hfault, rfl⟩
  · rw [hops] at hhistory
    refine ⟨events ++ [reached.event .tickTimers], hhistory _ rfl, ?_⟩
    have hframe := haccounts.append (Event.accounts_tick reached)
    rw [List.append_nil] at hframe
    exact hframe
  · rw [hops] at hhistory
    have hlast := Event.accounts_attempt (show Operation.step.isAttempt = true from rfl) hstep
    rw [hfault] at hlast
    refine ⟨_, hhistory _ (Machine.history_cons hstep rfl), ?_⟩
    rw [Log.messages_append]
    exact haccounts.append hlast

theorem isRefused_afterMachine (console : Console) (reached : Chip8.Outcome Lcg) :
    (console.afterMachine reached).isRefused = reached.fault.isSome := by
  cases hfault : reached.fault <;>
    simp [Outcome.isRefused, afterMachine, hfault, Except.isOk, Except.toBool]

/-- What an operation writes that executes instructions. -/
theorem accounts_perform {op : Operation} {outcome : Outcome} (hop : op.executes = true)
    (h : console.perform op = .ok outcome) :
    ∃ events, console.machine.history (console.unrolled op) = .ok events ∧
      Event.Accounts events (Log.messages outcome.log) console.machine.ticks
        outcome.console.machine.ticks (if outcome.isRefused then 1 else 0) := by
  cases op with
  | frame => exact accounts_frame h
  | loadProgram image => cases hop
  | machine op =>
      obtain ⟨reached, hreached, h⟩ := Checked.bind_eq_ok.mp h
      obtain rfl := Except.ok.inj h
      refine ⟨[{ before := console.machine, op, outcome := reached }],
        Machine.history_cons hreached rfl, ?_⟩
      rw [isRefused_afterMachine]
      exact Event.accounts_attempt hop hreached

end Console

/-! ## Runs -/

/-- What a machine writes while it executes instructions. -/
theorem Machine.accounts_outcomes {G : Type} [RandomSource G] {m : Machine G}
    {ops : List Operation} {outcomes : List (Outcome G)}
    (hops : ∀ op ∈ ops, op.isAttempt = true) (h : m.outcomes ops = .ok outcomes) :
    ∃ events last, m.history ops = .ok events ∧ m.performAll ops = .ok last ∧
      Event.Accounts events (Log.messages (Outcome.logs outcomes)) m.ticks last.ticks
        (outcomes.countP fun outcome => outcome.fault.isSome) := by
  induction ops generalizing m outcomes with
  | nil =>
      obtain rfl := Except.ok.inj h
      exact ⟨[], m, rfl, rfl, Event.accounts_nil m.ticks⟩
  | cons op rest ih =>
      rw [List.forall_mem_cons] at hops
      obtain ⟨outcome, hperform, h⟩ := Checked.bind_eq_ok.mp h
      obtain ⟨later, hlater, h⟩ := Checked.bind_eq_ok.mp h
      obtain rfl := Except.ok.inj h
      obtain ⟨events, last, hhistory, hlast, haccounts⟩ := ih hops.2 hlater
      refine ⟨{ before := m, op, outcome } :: events, last, history_cons hperform hhistory, ?_, ?_⟩
      · rw [performAll, hperform]
        exact hlast
      · rw [Outcome.logs, Log.messages_append, List.countP_cons, Nat.add_comm]
        exact (Event.accounts_attempt hops.1 hperform).append haccounts

namespace Console

variable {console last : Console}

/-- What operations one after another wrote to the log. -/
def Outcome.logs : List Outcome → Array Log.Entry
  | [] => #[]
  | outcome :: rest => outcome.log ++ logs rest

/-- What a console writes while it executes instructions. -/
theorem accounts_outcomes {ops : List Operation} {outcomes : List Outcome}
    (hops : ∀ op ∈ ops, op.executes = true) (h : console.outcomes ops = .ok outcomes) :
    ∃ records last, console.Leads records last ∧ records.map Record.op = ops ∧
      records.map Record.outcome = outcomes ∧
      Event.Accounts (records.flatMap Record.events) (Log.messages (Outcome.logs outcomes))
        console.machine.ticks last.machine.ticks (outcomes.countP Outcome.isRefused) := by
  induction ops generalizing console outcomes with
  | nil =>
      obtain rfl := Except.ok.inj h
      exact ⟨[], console, .nil console, rfl, rfl, Event.accounts_nil _⟩
  | cons op rest ih =>
      rw [List.forall_mem_cons] at hops
      obtain ⟨outcome, hperform, h⟩ := Checked.bind_eq_ok.mp h
      obtain ⟨later, hlater, h⟩ := Checked.bind_eq_ok.mp h
      obtain rfl := Except.ok.inj h
      obtain ⟨events, hevents, hnow⟩ := accounts_perform hops.1 hperform
      obtain ⟨records, last, hleads, rfl, rfl, haccounts⟩ := ih hops.2 hlater
      refine ⟨_ :: records, last, .cons hperform hevents hleads, rfl, rfl, ?_⟩
      rw [Outcome.logs, Log.messages_append, List.countP_cons, Nat.add_comm, List.flatMap_cons]
      exact hnow.append haccounts

/-- What was recorded are the outcomes of the operations. -/
theorem Leads.outcomes_eq {records : List Record} (h : console.Leads records last) :
    console.outcomes (records.map Record.op) = .ok (records.map Record.outcome) := by
  induction h with
  | nil console => rfl
  | cons hperform _ _ ih =>
      rw [List.map_cons, outcomes, hperform, Checked.ok_bind, ih]
      rfl

end Console

/-! ## The law -/

/-- Every run of steps and cycles of a machine, and every run of steps, cycles and frames of
a console, writes the account of its attempts and nothing else; and a warning tells the
fault. Short of an overflow of a count such a run comes to its end. -/
theorem Log.account_law {G : Type} [RandomSource G] (m : Machine G) (console : Console) :
    (∀ ops : List Operation, (∀ op ∈ ops, op.isAttempt = true) →
      (m.registers.stack.depth.toNat ≤ 16 → ¬m.Overflows ops →
        ∃ outcomes, m.outcomes ops = .ok outcomes) ∧
      ∀ outcomes, m.outcomes ops = .ok outcomes →
        ∃ events last, m.history ops = .ok events ∧ m.performAll ops = .ok last ∧
          Event.Accounts events (messages (Outcome.logs outcomes)) m.ticks last.ticks
            (outcomes.countP fun outcome => outcome.fault.isSome)) ∧
    (∀ ops : List Console.Operation, (∀ op ∈ ops, op.executes = true) →
      (console.machine.registers.stack.depth.toNat ≤ 16 → ¬console.Overflows ops →
        ∃ outcomes, console.outcomes ops = .ok outcomes) ∧
      ∀ outcomes, console.outcomes ops = .ok outcomes →
        ∃ records last, console.Leads records last ∧ records.map Console.Record.op = ops ∧
          records.map Console.Record.outcome = outcomes ∧
          Event.Accounts (records.flatMap Console.Record.events)
            (messages (Console.Outcome.logs outcomes)) console.machine.ticks last.machine.ticks
            (outcomes.countP Console.Outcome.isRefused)) ∧
    ∀ f g : Fault, (Entry.refused f).text = (Entry.refused g).text ↔ f = g := by
  refine ⟨fun ops hops => ⟨?_, ?_⟩, fun ops hops => ⟨?_, ?_⟩, ?_⟩
  · intro hdepth hover
    exact ⟨_, Machine.outcomes_eq hdepth hover⟩
  · intro outcomes
    exact Machine.accounts_outcomes hops
  · intro hdepth hover
    obtain ⟨records, last, hleads, rfl⟩ := Console.exists_leads hdepth hover
    exact ⟨_, hleads.outcomes_eq⟩
  · intro outcomes
    exact Console.accounts_outcomes hops
  · intro f g
    exact ⟨Entry.refused_text_inj, congrArg fun fault => (Entry.refused fault).text⟩

/-- A console whose first frame passes over a word below the last address and ends at the
last address, at a return with an empty call stack. -/
def Console.wrappedFrame : Console :=
  let memory := (Memory.powerOn.write 0xFFFE 0x01).write 0x000 0xEE
  { Console.new {} with machine := { Machine.powerOn Lcg.standard with memory }.setPc 0xFFFD }

/-- What that frame writes. -/
def Console.wrappedFrameMessages : List Log.Message :=
  [(.trace, "0xFFFD: 0001  SYS 0x001"),
    (.debug, "chip8: ignoring SYS 0x001 at 0xFFFD"),
    (.trace, "0xFFFF: 00EE  RET"),
    (.warn, "chip8: stack underflow: return at 0xFFFF with an empty call stack")]

/-- Two steps on either side of the end of memory leave the same messages, one by one or as
a frame. -/
theorem Log.account_law_wrappedFrame :
    (∃ outcomes, Console.wrappedFrame.machine.outcomes [.step, .step] = .ok outcomes ∧
      messages (Outcome.logs outcomes) = Console.wrappedFrameMessages) ∧
    ∃ outcomes, Console.wrappedFrame.outcomes [.frame] = .ok outcomes ∧
      messages (Console.Outcome.logs outcomes) = Console.wrappedFrameMessages := by
  let console := Console.wrappedFrame
  have hdepth : console.machine.registers.stack.depth.toNat ≤ 16 := by decide
  have hroom : ¬console.machine.Overflows [.step, .step] :=
    Machine.not_overflows_of_lt hdepth (by decide +kernel)
  have hover : ¬console.Overflows [.frame] :=
    Console.not_overflows_of_lt hdepth (by decide +kernel) (by decide +kernel)
  have hwritten : (console.machine.events [.step, .step]).flatMap Event.account =
      Console.wrappedFrameMessages := by
    decide +kernel
  obtain ⟨hmachine, hconsole, -⟩ := account_law console.machine console
  refine ⟨?_, ?_⟩
  · obtain ⟨hend, haccount⟩ := hmachine [.step, .step] (by decide)
    obtain ⟨outcomes, houtcomes⟩ := hend hdepth hroom
    obtain ⟨events, last, hhistory, -, haccounts⟩ := haccount outcomes houtcomes
    rw [Machine.history_eq hdepth hroom] at hhistory
    obtain rfl := Except.ok.inj hhistory
    exact ⟨outcomes, houtcomes, haccounts.messages.trans hwritten⟩
  · obtain ⟨hend, haccount⟩ := hconsole [.frame] (by decide)
    obtain ⟨outcomes, houtcomes⟩ := hend hdepth hover
    obtain ⟨records, last, hleads, hops, -, haccounts⟩ := haccount outcomes houtcomes
    obtain ⟨outcome, -, rfl⟩ := hleads.eq_singleton hdepth hops
    have hunrolled : console.unrolled .frame = [.step, .step] := by decide +kernel
    refine ⟨outcomes, houtcomes, haccounts.messages.trans ?_⟩
    simp only [List.flatMap_cons, List.flatMap_nil, List.append_nil]
    rw [hunrolled]
    exact hwritten

end Chip8
