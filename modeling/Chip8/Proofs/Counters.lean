import Mathlib.Data.List.DropRight
import Chip8.Proofs.ConsoleHistory

/-!
# What the counts count

Two counts have different lifetimes.  The tick count is kept by the machine: every
instruction attempted adds one, whether it is refused or not, and a reset starts it over.
The frame count is kept by the console: every frame that comes to its end adds one, and
nothing else touches it.

Main results:

- Theorem `Machine.ticks_reached`: from power-on the tick count is the number of attempts
  since the last reset.
- Theorem `Console.counter_law`: so it is in every history of a console, the frame count is
  the number of frames that were not ended early, and a frame adds its length to the tick
  count or, ended early, at least one and at most its length.
-/

namespace Chip8

variable {G : Type}

/-- The events after the last reset, all of them if there was none. -/
def Event.sinceReset (events : List (Event G)) : List (Event G) :=
  events.rtakeWhile fun event => event.op ≠ .reset

/-- How many of the events attempt an instruction. -/
def Event.countAttempts (events : List (Event G)) : Nat :=
  events.countP fun event => event.op.isAttempt

@[simp]
theorem Event.countAttempts_append (events later : List (Event G)) :
    countAttempts (events ++ later) = countAttempts events + countAttempts later :=
  List.countP_append

@[simp]
theorem Event.countAttempts_singleton (event : Event G) :
    countAttempts [event] = if event.op.isAttempt then 1 else 0 := by
  simp [countAttempts, List.countP_singleton]

/-- After a reset nothing has happened since the last one. -/
theorem Event.sinceReset_concat_of_reset (events : List (Event G)) {event : Event G}
    (h : event.op = .reset) : sinceReset (events ++ [event]) = [] := by
  apply List.rtakeWhile_concat_neg
  simp [h]

/-- Any other event is added to what has happened since the last reset. -/
theorem Event.sinceReset_concat_of_ne (events : List (Event G)) {event : Event G}
    (h : event.op ≠ .reset) : sinceReset (events ++ [event]) = sinceReset events ++ [event] := by
  apply List.rtakeWhile_concat_pos
  simp [h]

/-! ## The tick count of a machine -/

namespace Machine

variable [RandomSource G] {m : Machine G}

/-- An attempt below the limit of the tick count adds one to it, a reset starts it over, and
no other operation touches it. -/
theorem toNat_ticks_performed {op : Operation} (hcount : op.isAttempt = true → ¬m.Full) :
    (m.performed op).machine.ticks.count.toNat =
      if op = .reset then 0 else m.ticks.count.toNat + if op.isAttempt then 1 else 0 := by
  rw [ticks_performed]
  cases op with
  | step => exact Ticks.toNat_of_add (add_one_of_not_full (hcount rfl))
  | cycle => exact Ticks.toNat_of_add (add_one_of_not_full (hcount rfl))
  | _ => rfl

/-- A history has as many attempts as its operations have steps and cycles. -/
theorem countAttempts_events (m : Machine G) (ops : List Operation) :
    Event.countAttempts (m.events ops) = ops.countP Operation.isAttempt := by
  induction ops generalizing m with
  | nil => rfl
  | cons op rest ih =>
      rw [events, Event.countAttempts, List.countP_cons, List.countP_cons]
      exact congrArg (· + _) (ih (m.performed op).machine)

/-- From power-on the tick count is the number of attempts since the last reset. The
induction is from the end, where that reset is met first. -/
theorem ticks_reached (g : G) {ops : List Operation} (hover : ¬(powerOn g).Overflows ops) :
    ((powerOn g).reached ops).ticks.count.toNat =
      Event.countAttempts (Event.sinceReset ((powerOn g).events ops)) := by
  induction ops using List.reverseRecOn with
  | nil => rfl
  | append_singleton ops op ih =>
      rw [overflows_append (depth_powerOn_le g), not_or] at hover
      have hnow : op.isAttempt = true → ¬((powerOn g).reached ops).Full := by
        intro hattempt hfull
        exact hover.2 (Or.inl ⟨hattempt, hfull⟩)
      have hlast : (powerOn g).reached (ops ++ [op]) =
          (((powerOn g).reached ops).performed op).machine := reached_append _ ops [op]
      rw [hlast, toNat_ticks_performed hnow, events_concat, ih hover.1]
      split
      next hreset => rw [Event.sinceReset_concat_of_reset _ hreset]; rfl
      next hother =>
        rw [Event.sinceReset_concat_of_ne _ hother, Event.countAttempts_append,
          Event.countAttempts_singleton]
        rfl

/-- Without a reset the tick count grows by the number of attempts. -/
theorem ticks_reached_of_no_reset (hdepth : m.registers.stack.depth.toNat ≤ 16)
    {ops : List Operation} (hops : ∀ op ∈ ops, op ≠ .reset) (hover : ¬m.Overflows ops) :
    (m.reached ops).ticks.count.toNat =
      m.ticks.count.toNat + ops.countP Operation.isAttempt := by
  induction ops generalizing m with
  | nil => rfl
  | cons op rest ih =>
      rw [List.forall_mem_cons] at hops
      rw [overflows_cons hdepth, not_or, not_and] at hover
      rw [reached, ih (depth_performed_le hdepth op) hops.2 hover.2,
        toNat_ticks_performed hover.1, if_neg hops.1, List.countP_cons]
      omega

end Machine

/-! ## The counts of a console -/

namespace Console

variable {console last : Console} {records : List Record}

/-- The frame counter has gone up by one for each frame completed on the way. -/
theorem Leads.frames_eq (h : console.Leads records last)
    (hdepth : console.machine.registers.stack.depth.toNat ≤ 16) :
    last.frames.toNat = console.frames.toNat + records.countP Record.completesFrame := by
  induction h with
  | nil console => rfl
  | @cons console last op outcome events later hperform hevents hlater ih =>
      rw [ih (depth_perform_le hdepth hperform),
        frames_perform hdepth events hperform, List.countP_cons]
      omega

/-- A frame adds its length to the tick count if it comes to its end; if it is ended early
it adds at least one and at most its length. -/
structure Record.CountsTicks (record : Record) (length : Ticks) : Prop where
  complete : ∀ count, record.outcome.result = .ok count →
    count = some length ∧
      record.outcome.console.machine.ticks.count.toNat =
        record.before.machine.ticks.count.toNat + length.count.toNat
  refused : ∀ fault, record.outcome.result = .error fault →
    ∃ attempts, 1 ≤ attempts ∧ attempts ≤ length.count.toNat ∧
      record.outcome.console.machine.ticks.count.toNat =
        record.before.machine.ticks.count.toNat + attempts

/-- A frame counts the attempts of its steps: all of its length if none is refused, else
those up to the refusal. -/
theorem countsTicks_of_frame (hdepth : console.machine.registers.stack.depth.toNat ≤ 16)
    {outcome : Outcome} (events : List (Event Lcg)) (h : console.perform .frame = .ok outcome) :
    ({ before := console, op := .frame, outcome, events } : Record).CountsTicks
      console.ticksPerFrame := by
  have hunrolls := perform_unrolled hdepth h
  have hreset : ∀ op ∈ console.unrolled .frame, op ≠ .reset := by
    intro op hop
    rcases Machine.mem_frameOperations _ op hop with rfl | rfl <;> exact nofun
  have hticks := Machine.ticks_reached_of_no_reset hdepth hreset hunrolls.complete
  rw [← hunrolls.machine] at hticks
  rcases frame_cases hdepth h with ⟨hresult, -, hops⟩ | ⟨fault, steps, hresult, -, hops, hmin, hmax⟩
  · rw [hops, List.countP_append, List.countP_replicate] at hticks
    refine ⟨?_, ?_⟩
    · intro count hcount
      exact ⟨Except.ok.inj (hcount.symm.trans hresult), hticks⟩
    · intro fault hfault
      cases hresult.symm.trans hfault
  · rw [hops, List.countP_replicate] at hticks
    refine ⟨?_, ?_⟩
    · intro count hcount
      cases hresult.symm.trans hcount
    · intro fault' _
      exact ⟨steps, hmin, hmax, hticks⟩

/-- In every history of a console, the tick count is the number of instructions attempted
since the last reset of the machine, the frame count is the number of frames that came to
their end, and the length of a frame never changes; every frame adds its length to the tick
count, or a part of it if a step of it is refused. -/
theorem counter_law (config : Config) (ops : List Operation) :
    (Console.new config).Overflows ops ∨ ∃ records last,
      (Console.new config).Leads records last ∧ records.map Record.op = ops ∧
      (Console.new config).performAll ops = .ok last ∧
      last.machine.ticks.count.toNat =
        Event.countAttempts (Event.sinceReset (records.flatMap Record.events)) ∧
      last.frames.toNat = records.countP Record.completesFrame ∧
      last.ticksPerFrame = config.ticksPerFrame ∧
      ∀ record ∈ records,
        record.outcome.console.ticksPerFrame = config.ticksPerFrame ∧
        (record.op = .frame → record.CountsTicks config.ticksPerFrame) := by
  by_cases hover : (Console.new config).Overflows ops
  · exact Or.inl hover
  · have hdepth := Machine.depth_powerOn_le config.random
    obtain ⟨records, last, hleads, rfl⟩ := exists_leads hdepth hover
    refine Or.inr ⟨records, last, hleads, rfl, hleads.performAll_eq, ?_, ?_,
      hleads.ticksPerFrame_eq, ?_⟩
    · obtain ⟨ops, hcomplete, hevents, hreached⟩ := hleads.machine hdepth
      rw [hevents, hreached]
      exact Machine.ticks_reached config.random hcomplete
    · rw [hleads.frames_eq hdepth]
      exact Nat.zero_add _
    · intro record hmem
      obtain ⟨hdepth', hlength, hperform, -⟩ := hleads.of_mem hdepth hmem
      refine ⟨(ticksPerFrame_of_perform hperform).trans hlength, ?_⟩
      intro hframe
      obtain ⟨before, op, outcome, events⟩ := record
      obtain rfl : op = .frame := hframe
      have hcounts := countsTicks_of_frame hdepth' events hperform
      rwa [hlength] at hcounts

/-- A frame of a new console, at 700 instructions and 60 frames in a second. -/
theorem counter_law_firstFrame :
    ∃ last, (Console.new {}).performAll [.frame] = .ok last ∧
      last.machine.ticks.count.toNat = 11 ∧ last.frames.toNat = 1 := by
  let console := Console.new {}
  have hdepth : console.machine.registers.stack.depth.toNat ≤ 16 := by decide
  have hover : ¬console.Overflows [.frame] :=
    not_overflows_of_lt hdepth (by decide +kernel) (by decide +kernel)
  have hunrolled : console.unrolled .frame = List.replicate 11 .step ++ [.tickTimers] := by
    decide +kernel
  rcases counter_law {} [.frame] with h | ⟨records, last, hleads, hops, hlast, hticks, hframes, -⟩
  · exact absurd h hover
  obtain ⟨outcome, hperform, rfl⟩ := hleads.eq_singleton hdepth hops
  have hresult := result_of_tick_mem hdepth hperform (by simp [hunrolled])
  refine ⟨last, hlast, hticks.trans ?_, hframes.trans ?_⟩
  · simp only [List.flatMap_cons, List.flatMap_nil, List.append_nil]
    change Event.countAttempts (Event.sinceReset (console.machine.events _)) = 11
    rw [hunrolled]
    decide +kernel
  · simp [Record.completesFrame, hresult, Except.isOk, Except.toBool]

end Console

end Chip8
