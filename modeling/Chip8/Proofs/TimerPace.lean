import Chip8.Proofs.Counters

/-!
# Timers keep the pace of frames

A timer set by a program counts down once for every frame that comes to its end, from the
frame in which it was set on, however many instructions a frame has.  The tick falls at the
end of a frame, after all of its instructions, so that a timer loses one in the very frame
that sets it, and nothing in a frame that is ended early.

Main results:

- Theorem `Machine.timer_reached`: a timer that no step sets loses one for every tick.
- Theorem `Console.Leads.timer_of_idle`: over frames that do not set a timer, it loses one
  for every frame that comes to its end.
- Theorem `Console.pacing_law`: the value of both timers after any frames, and the
  instructions that as many frames as there are in a second execute.
-/

namespace Chip8

/-! ## One timer of the two -/

/-- One of the two timers. -/
inductive Countdown where
  | delay
  | sound
  deriving DecidableEq

namespace Countdown

/-- The value of the timer. -/
def read : Countdown → Timers → UInt8
  | .delay, timers => timers.delay
  | .sound, timers => timers.sound

/-- The instruction that sets the timer to Vx. -/
def setter : Countdown → UInt8 → Instruction
  | .delay, x => .setDelay x
  | .sound, x => .setSound x

@[simp]
theorem read_tick (timer : Countdown) (timers : Timers) :
    timer.read timers.tick = Timers.countDown 1 (timer.read timers) := by
  cases timer with
  | delay => exact Timers.lower_eq_countDown timers.delay
  | sound => exact Timers.lower_eq_countDown timers.sound

theorem lt_of_fetched {G : Type} {m : Machine G} {timer : Countdown} {x : UInt8}
    (h : m.fetched = timer.setter x) : x.toNat < 16 := by
  have hrange := Machine.inRange_of_fetched h
  cases timer <;> exact hrange

end Countdown

namespace Event

variable {G : Type}

/-- The event executes an instruction that sets the timer. -/
def Sets (event : Event G) (timer : Countdown) : Prop :=
  event.op.isAttempt = true ∧ ∃ x, event.before.fetched = timer.setter x

/-- The event executes an instruction that sets the timer to the given byte. -/
def Loads (event : Event G) (timer : Countdown) (byte : UInt8) : Prop :=
  event.op.isAttempt = true ∧
    ∃ x, event.before.fetched = timer.setter x ∧ event.before.register x = .ok byte

theorem Sets.exists_loads {event : Event G} {timer : Countdown} (h : event.Sets timer) :
    ∃ byte, event.Loads timer byte := by
  obtain ⟨hattempt, x, hins⟩ := h
  exact ⟨_, hattempt, x, hins, event.before.register_of_lt (Countdown.lt_of_fetched hins)⟩

end Event

namespace Machine

variable {G : Type} [RandomSource G] {m : Machine G} {timer : Countdown}

/-! ## Steps -/

/-- An instruction that does not set a timer leaves it as it is. -/
theorem timer_stepped_of_ne (h : ∀ x, m.fetched ≠ timer.setter x) :
    timer.read m.stepped.machine.timers = timer.read m.timers := by
  by_cases hfault : m.stepped.fault = none
  · rw [stepped_of_success hfault]
    change timer.read (m.afterFetch.nextTimers m.fetched) = timer.read m.timers
    cases hins : m.fetched with
    | setDelay x =>
        cases timer with
        | delay => exact absurd hins (h x)
        | sound => rfl
    | setSound x =>
        cases timer with
        | delay => rfl
        | sound => exact absurd hins (h x)
    | _ => rfl
  · rw [stepped_of_refused hfault]
    rfl

/-- An instruction that sets a timer puts its register there. -/
theorem timer_stepped_of_setter {x : UInt8} (h : m.fetched = timer.setter x) :
    timer.read m.stepped.machine.timers = m.registers.get x := by
  have hsuccess : m.stepped.fault = none := by
    rw [fault_stepped, h]
    cases timer <;> rfl
  rw [stepped_of_success hsuccess, h]
  cases timer <;> rfl

/-! ## Steps and ticks -/

/-- A timer that no step sets loses one for every tick. -/
theorem timer_reached {ops : List Operation} (hops : ∀ op ∈ ops, op = .step ∨ op = .tickTimers)
    (hidle : ∀ e ∈ m.events ops, ¬e.Sets timer) :
    timer.read (m.reached ops).timers =
      Timers.countDown (ops.count .tickTimers) (timer.read m.timers) := by
  induction ops generalizing m with
  | nil => exact (Timers.countDown_zero _).symm
  | cons op rest ih =>
      rw [List.forall_mem_cons] at hops
      rw [events, List.forall_mem_cons] at hidle
      rw [reached, ih hops.2 hidle.2]
      rcases hops.1 with rfl | rfl
      · have hkept : timer.read (m.performed .step).machine.timers = timer.read m.timers :=
          timer_stepped_of_ne fun x hx => hidle.1 ⟨rfl, x, hx⟩
        rw [hkept]
        rfl
      · have hticked : timer.read (m.performed .tickTimers).machine.timers =
            Timers.countDown 1 (timer.read m.timers) := timer.read_tick m.timers
        rw [hticked, Timers.countDown_countDown, Nat.add_comm 1, List.count_cons_self]

/-- After steps and then ticks, whatever follows a step includes all of the ticks. -/
theorem count_ticks_after_step {steps : Nat} {ticks earlier later : List Operation}
    (hticks : ∀ op ∈ ticks, op = .tickTimers)
    (h : List.replicate steps .step ++ ticks = earlier ++ .step :: later) :
    later.count .tickTimers = ticks.length := by
  have hstep : Operation.step ∉ ticks := fun hmem => nomatch hticks _ hmem
  rcases List.append_eq_append_iff.mp h with ⟨middle, -, rfl⟩ | ⟨middle, hsteps, hlater⟩
  · simp at hstep
  · rcases List.cons_eq_append_iff.mp hlater with ⟨-, rfl⟩ | ⟨between, rfl, rfl⟩
    · simp at hstep
    · have hnone : Operation.tickTimers ∉ between := by
        intro hmem
        have hamong : Operation.tickTimers ∈ List.replicate steps Operation.step := by
          simp [hsteps, hmem]
        cases List.eq_of_mem_replicate hamong
      rw [List.count_append, List.count_eq_zero_of_not_mem hnone, Nat.zero_add]
      exact List.count_eq_length.mpr fun op hop => (hticks op hop).symm

/-- After steps and then ticks, a timer holds what the last step to set it put there, less
one for every tick, since all of the ticks come after it. -/
theorem timer_reached_of_loads {steps : Nat} {ticks : List Operation}
    (hticks : ∀ op ∈ ticks, op = .tickTimers) {before after : List (Event G)} {event : Event G}
    (h : m.events (List.replicate steps .step ++ ticks) = before ++ event :: after) {byte : UInt8}
    (hloads : event.Loads timer byte) (hidle : ∀ e ∈ after, ¬e.Sets timer) :
    timer.read (m.reached (List.replicate steps .step ++ ticks)).timers =
      Timers.countDown ticks.length byte := by
  obtain ⟨earlier, op, later, hops, rfl, rfl, rfl⟩ := events_eq_append_cons h
  obtain ⟨hattempt, x, hins, hbyte⟩ := hloads
  have hmem : ∀ op' ∈ earlier ++ op :: later, op' = .step ∨ op' = .tickTimers := by
    intro op' hop'
    rw [← hops, List.mem_append] at hop'
    exact hop'.imp List.eq_of_mem_replicate (hticks op')
  have hop : op = .step := by
    rcases hmem op (by simp) with rfl | rfl
    · rfl
    · cases hattempt
  subst hop
  have hset : timer.read ((m.reached earlier).performed .step).machine.timers = byte := by
    have hread := (m.reached earlier).register_of_lt (Countdown.lt_of_fetched hins)
    exact (timer_stepped_of_setter hins).trans (Except.ok.inj (hread.symm.trans hbyte))
  have hrest : ∀ op' ∈ later, op' = .step ∨ op' = .tickTimers := by
    intro op' hop'
    exact hmem op' (by simp [hop'])
  have hlater := timer_reached hrest hidle
  rw [count_ticks_after_step hticks hops] at hlater
  rw [hops, reached_append, ← hset]
  exact hlater

end Machine

/-! ## Frames -/

namespace Console

variable {console last : Console} {timer : Countdown} {records : List Record}

/-- A frame is steps and then a tick, if it comes to its end, or none. -/
theorem exists_unrolled_frame (hdepth : console.machine.registers.stack.depth.toNat ≤ 16)
    {outcome : Outcome} (events : List (Event Lcg)) (h : console.perform .frame = .ok outcome) :
    ∃ steps ticks, console.unrolled .frame = List.replicate steps .step ++ ticks ∧
      (∀ op ∈ ticks, op = .tickTimers) ∧
      ticks.length =
        [({ before := console, op := .frame, outcome, events } : Record)].countP
          Record.completesFrame := by
  rcases frame_cases hdepth h with ⟨hresult, -, hops⟩ | ⟨fault, steps, hresult, -, hops, -⟩
  · refine ⟨_, [.tickTimers], hops, List.forall_mem_singleton.mpr rfl, ?_⟩
    simp [Record.completesFrame, hresult, Except.isOk, Except.toBool]
  · refine ⟨steps, [], by rw [hops, List.append_nil], List.forall_mem_nil _, ?_⟩
    simp [Record.completesFrame, hresult, Except.isOk, Except.toBool]

/-- A timer that is not set in a frame loses one if the frame comes to its end. -/
theorem timer_frame_of_idle (hdepth : console.machine.registers.stack.depth.toNat ≤ 16)
    {outcome : Outcome} {events : List (Event Lcg)} (h : console.perform .frame = .ok outcome)
    (hevents : console.machine.history (console.unrolled .frame) = .ok events)
    (hidle : ∀ e ∈ events, ¬e.Sets timer) :
    timer.read outcome.console.machine.timers =
      Timers.countDown
        ([({ before := console, op := .frame, outcome, events } : Record)].countP
          Record.completesFrame)
        (timer.read console.machine.timers) := by
  have hunrolls := perform_unrolled hdepth h
  rw [Machine.history_eq hdepth hunrolls.complete] at hevents
  obtain rfl := Except.ok.inj hevents
  have hvalue := Machine.timer_reached (Machine.mem_frameOperations _) hidle
  obtain ⟨steps, ticks, hops, hticks, hlength⟩ := exists_unrolled_frame hdepth _ h
  have hcount : (console.unrolled .frame).count .tickTimers = ticks.length := by
    rw [hops, List.count_append, List.count_replicate]
    exact (Nat.zero_add _).trans (List.count_eq_length.mpr fun op hop => (hticks op hop).symm)
  rw [hunrolls.machine, ← hlength, ← hcount]
  exact hvalue

/-- A timer holds after a frame what the last instruction of the frame to set it put there,
less one if the frame comes to its end. -/
theorem timer_frame_of_loads (hdepth : console.machine.registers.stack.depth.toNat ≤ 16)
    {outcome : Outcome} {earlier later : List (Event Lcg)} {event : Event Lcg}
    (h : console.perform .frame = .ok outcome)
    (hevents : console.machine.history (console.unrolled .frame) = .ok (earlier ++ event :: later))
    {byte : UInt8} (hloads : event.Loads timer byte) (hidle : ∀ e ∈ later, ¬e.Sets timer) :
    timer.read outcome.console.machine.timers =
      Timers.countDown
        ([({ before := console, op := .frame, outcome, events := earlier ++ event :: later } :
            Record)].countP Record.completesFrame)
        byte := by
  have hunrolls := perform_unrolled hdepth h
  rw [Machine.history_eq hdepth hunrolls.complete] at hevents
  have hsplit := Except.ok.inj hevents
  obtain ⟨steps, ticks, hops, hticks, hlength⟩ :=
    exists_unrolled_frame hdepth (earlier ++ event :: later) h
  rw [hops] at hsplit
  rw [hunrolls.machine, ← hlength, hops]
  exact Machine.timer_reached_of_loads hticks hsplit hloads hidle

/-! ## Many frames -/

/-- Over frames that do not set a timer, it loses one for every frame that comes to its
end. -/
theorem Leads.timer_of_idle (h : console.Leads records last)
    (hdepth : console.machine.registers.stack.depth.toNat ≤ 16)
    (hframes : ∀ record ∈ records, record.op = .frame)
    (hidle : ∀ record ∈ records, ∀ e ∈ record.events, ¬e.Sets timer) :
    timer.read last.machine.timers =
      Timers.countDown (records.countP Record.completesFrame)
        (timer.read console.machine.timers) := by
  induction h with
  | nil console => exact (Timers.countDown_zero _).symm
  | @cons console last op outcome events later hperform hevents hlater ih =>
      rw [List.forall_mem_cons] at hframes hidle
      obtain rfl : op = .frame := hframes.1
      rw [ih (depth_perform_le hdepth hperform) hframes.2 hidle.2,
        timer_frame_of_idle hdepth hperform hevents hidle.1, Timers.countDown_countDown,
        ← List.countP_append]
      rfl

/-- A timer holds what the last instruction to set it put there, less one for every frame
that comes to its end from then on. -/
theorem Leads.timer_of_loads {front back : List Record} {record : Record}
    (h : console.Leads (front ++ record :: back) last)
    (hdepth : console.machine.registers.stack.depth.toNat ≤ 16)
    (hframes : ∀ r ∈ record :: back, r.op = .frame)
    {earlier later : List (Event Lcg)} {event : Event Lcg}
    (hevents : record.events = earlier ++ event :: later) {byte : UInt8}
    (hloads : event.Loads timer byte) (hlater : ∀ e ∈ later, ¬e.Sets timer)
    (hback : ∀ r ∈ back, ∀ e ∈ r.events, ¬e.Sets timer) :
    timer.read last.machine.timers =
      Timers.countDown ((record :: back).countP Record.completesFrame) byte := by
  obtain ⟨middle, hfront, hrest⟩ := append_iff.mp h
  obtain ⟨rfl, hperform, hhistory, hlast⟩ := cons_iff.mp hrest
  obtain ⟨before, op, outcome, events⟩ := record
  obtain rfl : events = earlier ++ event :: later := hevents
  rw [List.forall_mem_cons] at hframes
  obtain rfl : op = .frame := hframes.1
  have hdepth' := hfront.depth_le hdepth
  rw [hlast.timer_of_idle (depth_perform_le hdepth' hperform) hframes.2 hback,
    timer_frame_of_loads hdepth' hperform hhistory hloads hlater, Timers.countDown_countDown,
    ← List.countP_append]
  rfl

/-- Over a list of frames, a timer loses one for every frame that comes to its end; if some
instruction sets it, it does so from the last such instruction on, its own frame included. -/
structure Paces (timer : Countdown) (console : Console) (records : List Record)
    (last : Console) : Prop where
  idle : (∀ record ∈ records, ∀ e ∈ record.events, ¬e.Sets timer) →
    (timer.read last.machine.timers).toNat =
      (timer.read console.machine.timers).toNat - records.countP Record.completesFrame
  set : ∀ front record back earlier event later, records = front ++ record :: back →
    record.events = earlier ++ event :: later → event.Sets timer →
    (∀ e ∈ later, ¬e.Sets timer) → (∀ r ∈ back, ∀ e ∈ r.events, ¬e.Sets timer) →
    ∃ byte, event.Loads timer byte ∧
      (timer.read last.machine.timers).toNat =
        byte.toNat - (record :: back).countP Record.completesFrame

/-- Frames one after another pace a timer as each of them does. -/
theorem Leads.paces (h : console.Leads records last)
    (hdepth : console.machine.registers.stack.depth.toNat ≤ 16)
    (hframes : ∀ record ∈ records, record.op = .frame) (timer : Countdown) :
    Paces timer console records last where
  idle hidle := by
    rw [h.timer_of_idle hdepth hframes hidle, Timers.toNat_countDown]
  set front record back earlier event later hrecords hevents hsets hlater hback := by
    obtain ⟨byte, hloads⟩ := hsets.exists_loads
    subst hrecords
    have hrest : ∀ r ∈ record :: back, r.op = .frame := by
      intro r hr
      exact hframes r (List.mem_append_right front hr)
    refine ⟨byte, hloads, ?_⟩
    rw [h.timer_of_loads hdepth hrest hevents hloads hlater hback, Timers.toNat_countDown]

/-! ## Instructions in a second -/

/-- The frame came to its end after so many instructions, none of them refused. -/
structure Record.Executes (record : Record) (instructions : Nat) : Prop where
  result : ∃ ticks, record.outcome.result = .ok (some ticks) ∧ ticks.count.toNat = instructions
  attempts : Event.countAttempts record.events = instructions
  success : ∀ e ∈ record.events, e.outcome.fault = none

theorem executes_of_frame (hdepth : console.machine.registers.stack.depth.toNat ≤ 16)
    {outcome : Outcome} {events : List (Event Lcg)} (h : console.perform .frame = .ok outcome)
    (hevents : console.machine.history (console.unrolled .frame) = .ok events)
    {count : Option Ticks} (hresult : outcome.result = .ok count) :
    ({ before := console, op := .frame, outcome, events } : Record).Executes
      console.ticksPerFrame.count.toNat := by
  have hunrolls := perform_unrolled hdepth h
  rw [Machine.history_eq hdepth hunrolls.complete] at hevents
  obtain rfl := Except.ok.inj hevents
  rcases frame_cases hdepth h with ⟨hcomplete, -, hops⟩ | ⟨fault, -, hrefused, -⟩
  · exact
      { result := ⟨console.ticksPerFrame, hcomplete, rfl⟩
        attempts := by
          rw [Machine.countAttempts_events, hops, List.countP_append, List.countP_replicate]
          rfl
        success := hunrolls.success count hresult }
  · cases hrefused.symm.trans hresult

/-- Every completed frame in a list of frames executes as many instructions as it is long.
-/
theorem Leads.executes (h : console.Leads records last)
    (hdepth : console.machine.registers.stack.depth.toNat ≤ 16) {record : Record}
    (hmem : record ∈ records) (hframe : record.op = .frame) (hcomplete : record.completesFrame) :
    record.Executes console.ticksPerFrame.count.toNat := by
  obtain ⟨hdepth', hlength, hperform, hevents⟩ := h.of_mem hdepth hmem
  obtain ⟨before, op, outcome, events⟩ := record
  obtain rfl : op = .frame := hframe
  rw [← hlength]
  cases hresult : outcome.result with
  | error fault => simp [Record.completesFrame, hresult, Except.isOk, Except.toBool] at hcomplete
  | ok count => exact executes_of_frame hdepth' hperform hevents hresult

theorem countAttempts_flatMap {records : List Record} {instructions : Nat}
    (h : ∀ record ∈ records, record.Executes instructions) :
    Event.countAttempts (records.flatMap Record.events) = records.length * instructions := by
  induction records with
  | nil => exact (Nat.zero_mul instructions).symm
  | cons record rest ih =>
      rw [List.forall_mem_cons] at h
      rw [List.flatMap_cons, Event.countAttempts_append, h.1.attempts, ih h.2, List.length_cons,
        Nat.succ_mul, Nat.add_comm]

/-- Whatever is done to a new console, in the frames that follow both timers keep the pace
of the frames that come to their end, and each of these executes as many instructions as
its share of a second; so many frames as there are in a second execute the instructions of
a second but for less than one for each frame. -/
theorem pacing_law (config : Config) {earlier : List Operation} {console : Console}
    (h : (Console.new config).performAll earlier = .ok console) (k : Nat) :
    console.Overflows (List.replicate k .frame) ∨ ∃ records last,
      console.Leads records last ∧ records.map Record.op = List.replicate k .frame ∧
      console.performAll (List.replicate k .frame) = .ok last ∧
      (∀ timer, Paces timer console records last) ∧
      (∀ record ∈ records, record.completesFrame →
        record.Executes (config.instructionRate.toNat / config.frameRate.toNat)) ∧
      ∀ second : List Record, second.Sublist records → (∀ record ∈ second, record.completesFrame) →
        0 < config.frameRate.toNat → second.length = config.frameRate.toNat →
        let executed := Event.countAttempts (second.flatMap Record.events)
        executed ≤ config.instructionRate.toNat ∧
          config.instructionRate.toNat < executed + config.frameRate.toNat := by
  by_cases hover : console.Overflows (List.replicate k .frame)
  · exact Or.inl hover
  obtain ⟨history, hhistory, -⟩ :=
    exists_leads_of_performAll (Machine.depth_powerOn_le config.random) h
  have hdepth := hhistory.depth_le (Machine.depth_powerOn_le config.random)
  have hlength : console.ticksPerFrame.count.toNat =
      config.instructionRate.toNat / config.frameRate.toNat := by
    rw [hhistory.ticksPerFrame_eq]
    exact Clock.toNat_ticksPerFrame _ _
  obtain ⟨records, last, hleads, hops⟩ := exists_leads hdepth hover
  have hframes : ∀ record ∈ records, record.op = .frame := by
    intro record hmem
    apply List.eq_of_mem_replicate (n := k)
    rw [← hops]
    exact List.mem_map_of_mem hmem
  have hexecutes : ∀ record ∈ records, record.completesFrame →
      record.Executes (config.instructionRate.toNat / config.frameRate.toNat) := by
    intro record hmem hcomplete
    rw [← hlength]
    exact hleads.executes hdepth hmem (hframes record hmem) hcomplete
  refine Or.inr ⟨records, last, hleads, hops, hops ▸ hleads.performAll_eq,
    hleads.paces hdepth hframes, hexecutes, ?_⟩
  intro second hsub hcomplete hrate hsecond
  have hcount := countAttempts_flatMap fun record hmem =>
    hexecutes record (hsub.mem hmem) (hcomplete record hmem)
  rw [hsecond] at hcount
  refine ⟨?_, ?_⟩
  · rw [hcount]
    exact Nat.mul_div_le _ _
  · rw [hcount]
    exact Nat.lt_mul_div_succ _ hrate

/-- A program that sets the delay timer to five and then jumps on the spot. -/
def delayFive : List UInt8 := [0x61, 0x05, 0xF1, 0x15, 0x12, 0x04]

/-- The second of the three instructions of the frame sets the timer, and the tick at the
end of the same frame takes one off it. -/
theorem pacing_law_delayFive :
    ∃ console last,
      (Console.new { instructionRate := 180 }).performAll [.machine (.load 0x200 delayFive)] =
        .ok console ∧
      console.performAll [.frame] = .ok last ∧ last.machine.timers.delay.toNat = 4 := by
  let new := Console.new { instructionRate := 180 }
  let console := (new.afterMachine (new.machine.performed (.load 0x200 delayFive))).console
  let m := console.machine
  let first := (m.performed .step).machine
  let second := (first.performed .step).machine
  let third := (second.performed .step).machine
  have hdepth : m.registers.stack.depth.toNat ≤ 16 := by decide
  have hover : ¬console.Overflows (List.replicate 1 .frame) :=
    not_overflows_of_lt hdepth (by decide +kernel) (by decide +kernel)
  have hrun : console.unrolled .frame = [.step, .step, .step, .tickTimers] ∧
      first.fetched = .setDelay 1 ∧ first.register 1 = .ok 5 ∧ second.fetched = .jump 0x204 := by
    decide +kernel
  obtain ⟨hunrolled, hset, hfive, hjump⟩ := hrun
  have hload : new.performAll [.machine (.load 0x200 delayFive)] = .ok console := by
    have hdone : new.machine.perform (.load 0x200 delayFive) =
        .ok (new.machine.performed (.load 0x200 delayFive)) :=
      Machine.perform_eq (Machine.depth_powerOn_le _) nofun
    rw [performAll, perform, hdone]
    rfl
  rcases pacing_law _ hload 1 with h | ⟨records, last, hleads, hops, hlast, hpaces, -⟩
  · exact absurd h hover
  obtain ⟨outcome, hperform, rfl⟩ := hleads.eq_singleton hdepth hops
  have hresult := result_of_tick_mem hdepth hperform (by simp [hunrolled])
  have hsplit : m.events (console.unrolled .frame) =
      [m.event .step] ++ first.event .step :: [second.event .step, third.event .tickTimers] := by
    rw [hunrolled]
    rfl
  have hlater : ∀ e ∈ [second.event .step, third.event .tickTimers], ¬e.Sets .delay := by
    simp [Event.Sets, Machine.event, hjump, Countdown.setter, Chip8.Operation.isAttempt]
  obtain ⟨byte, ⟨-, x, hx, hbyte⟩, hvalue⟩ := (hpaces .delay).set [] _ [] _ _ _ rfl hsplit
    ⟨rfl, 1, hset⟩ hlater (List.forall_mem_nil _)
  obtain rfl : 1 = x := Instruction.setDelay.inj (hset.symm.trans hx)
  obtain rfl : 5 = byte := Except.ok.inj (hfive.symm.trans hbyte)
  refine ⟨console, last, hload, hlast, hvalue.trans ?_⟩
  simp [Record.completesFrame, hresult, Except.isOk, Except.toBool]

end Console

end Chip8
