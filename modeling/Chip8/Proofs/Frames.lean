import Chip8.Console
import Chip8.Proofs.CrashFreedom

/-!
# A frame is its steps and one tick

A frame repeats single steps while a counter is below the length of a frame, and then
ticks the timers.  Seen from outside it is either all of its steps followed by one
tick, or the steps up to the first that is refused.  Its own counter never overflows:
only the two counts that outlive a frame can.

Main results:

- Theorem `Run.extend_of_advances`: a run passes through any steps that are not refused.
- Theorems `Machine.advances_or_stops` and `Machine.advances_cases`: steps go on until there are
  as many as wanted, one is refused, or one crashes, which is at the limit of the tick count.
- Theorem `Console.frame_law`: what a frame comes to, for every length of a frame.
-/

namespace Chip8

/-- What outcomes one after another wrote to the log. -/
def Outcome.logs {G : Type} : List (Outcome G) → Array Log.Entry
  | [] => #[]
  | outcome :: rest => outcome.log ++ logs rest

namespace Machine

variable {G : Type} [RandomSource G]

/-! ## Steps that are not refused -/

/-- Steps in a row, none of them refused, and the machine that they lead to. -/
inductive Advances : Machine G → List (Outcome G) → Machine G → Prop
  | nil (m : Machine G) : Advances m [] m
  | cons {m reached : Machine G} {outcome : Outcome G} {later : List (Outcome G)}
      (hstep : m.step = .ok outcome) (hsuccess : outcome.fault = none)
      (hlater : Advances outcome.machine later reached) :
      Advances m (outcome :: later) reached

/-- Steps without a fault keep the stack within bounds. -/
theorem Advances.depth_le {m reached : Machine G} {outcomes : List (Outcome G)}
    (h : m.Advances outcomes reached) (hdepth : m.registers.stack.depth.toNat ≤ 16) :
    reached.registers.stack.depth.toNat ≤ 16 := by
  induction h with
  | nil m => exact hdepth
  | cons hstep hsuccess hlater ih =>
      obtain ⟨-, rfl⟩ := (step_eq_ok_iff hdepth).mp hstep
      exact ih (depth_stepped_le hdepth)

/-- Each step is counted, and the count does not wrap. -/
theorem Advances.ticks_eq {m reached : Machine G} {outcomes : List (Outcome G)}
    (h : m.Advances outcomes reached) (hdepth : m.registers.stack.depth.toNat ≤ 16) :
    reached.ticks.count.toNat = m.ticks.count.toNat + outcomes.length := by
  induction h with
  | nil m => rfl
  | cons hstep hsuccess hlater ih =>
      obtain ⟨hfull, rfl⟩ := (step_eq_ok_iff hdepth).mp hstep
      have hcount := Ticks.toNat_of_add (add_one_of_not_full hfull)
      have hone : Ticks.one.count.toNat = 1 := rfl
      rw [ih (depth_stepped_le hdepth), ticks_stepped, List.length_cons]
      omega

/-- Steps go on until there are `n` of them, or one is refused or crashes. -/
theorem advances_or_stops (m : Machine G) (n : Nat) :
    ∃ outcomes reached, m.Advances outcomes reached ∧
      (outcomes.length = n ∨
        outcomes.length < n ∧
          ((∃ crash, reached.step = .error crash) ∨
            ∃ failed fault, reached.step = .ok failed ∧ failed.fault = some fault)) := by
  induction n generalizing m with
  | zero => exact ⟨[], m, .nil m, Or.inl rfl⟩
  | succ n ih =>
      cases hstep : m.step with
      | error crash =>
          exact ⟨[], m, .nil m, Or.inr ⟨Nat.succ_pos n, Or.inl ⟨crash, hstep⟩⟩⟩
      | ok outcome =>
          cases hfault : outcome.fault with
          | some fault =>
              exact ⟨[], m, .nil m,
                Or.inr ⟨Nat.succ_pos n, Or.inr ⟨outcome, fault, hstep, hfault⟩⟩⟩
          | none =>
              obtain ⟨outcomes, reached, hadvances, hend⟩ := ih outcome.machine
              refine ⟨outcome :: outcomes, reached, .cons hstep hfault hadvances, ?_⟩
              rcases hend with hlength | ⟨hless, hstop⟩
              · exact Or.inl (congrArg Nat.succ hlength)
              · exact Or.inr ⟨Nat.succ_lt_succ hless, hstop⟩

/-- Steps go on until there are `n` of them, one is refused, or the tick count is at its
limit. -/
theorem advances_cases {m : Machine G} (hdepth : m.registers.stack.depth.toNat ≤ 16)
    (n : Nat) :
    ∃ outcomes reached, m.Advances outcomes reached ∧
      (outcomes.length = n ∨
        outcomes.length < n ∧
          (reached.Full ∨
            ∃ failed fault, reached.step = .ok failed ∧ failed.fault = some fault)) := by
  obtain ⟨outcomes, reached, hadvances, hend⟩ := m.advances_or_stops n
  refine ⟨outcomes, reached, hadvances, ?_⟩
  rcases hend with hlength | ⟨hless, ⟨crash, hcrash⟩ | hrefused⟩
  · exact Or.inl hlength
  · have hfull : reached.Full := by
      by_contra hfull
      rw [step_eq (hadvances.depth_le hdepth) hfull] at hcrash
      cases hcrash
    exact Or.inr ⟨hless, Or.inl hfull⟩
  · exact Or.inr ⟨hless, Or.inr hrefused⟩

end Machine

/-! ## Runs of steps -/

namespace Run

variable {G : Type} [RandomSource G]

/-- A run passes through steps that are not refused, as long as its target allows. -/
theorem extend_of_advances {m reached : Machine G} {outcomes : List (Outcome G)}
    (h : m.Advances outcomes reached) {target : Ticks} (completed : Ticks) (log : Array Log.Entry)
    (hroom : completed.count.toNat + outcomes.length ≤ target.count.toNat) :
    ∃ later : Ticks, later.count.toNat = completed.count.toNat + outcomes.length ∧
      Run.extend Machine.step target { machine := m, completed, log } =
        Run.extend Machine.step target
          { machine := reached, completed := later, log := log ++ Outcome.logs outcomes } := by
  induction h generalizing completed log with
  | nil m => exact ⟨completed, rfl, by rw [Outcome.logs, Array.append_empty]⟩
  | @cons m reached outcome rest hstep hsuccess hlater ih =>
      rw [List.length_cons] at hroom
      have hless : completed.count < target.count := by
        rw [UInt64.lt_iff_toNat_lt]
        omega
      have hnext : (completed.count + 1).toNat = completed.count.toNat + 1 :=
        Ticks.toNat_of_add (Ticks.add_one_of_lt hless)
      have hrest : (completed.count + 1).toNat + rest.length ≤ target.count.toNat := by omega
      obtain ⟨later, hcount, hextend⟩ := ih ⟨completed.count + 1⟩ (log ++ outcome.log) hrest
      refine ⟨later, ?_, ?_⟩
      · rw [hcount, hnext, List.length_cons]
        omega
      · rw [extend_of_success hless hstep hsuccess, hextend, Outcome.logs, Array.append_assoc]

end Run

namespace Machine

variable {G : Type} [RandomSource G] {m reached : Machine G} {outcomes : List (Outcome G)}
  {target : Ticks}

/-- A run passes through steps that are not refused, as long as there are not too many. -/
theorem run_of_advances (h : m.Advances outcomes reached)
    (hroom : outcomes.length ≤ target.count.toNat) :
    ∃ later : Ticks, later.count.toNat = outcomes.length ∧
      m.run step target =
        Run.extend step target
          { machine := reached, completed := later, log := Outcome.logs outcomes } := by
  have hstart : Ticks.zero.count.toNat = 0 := rfl
  rw [← Nat.zero_add outcomes.length, ← hstart] at hroom ⊢
  obtain ⟨later, hcount, hextend⟩ := Run.extend_of_advances h .zero #[] hroom
  rw [Array.empty_append] at hextend
  exact ⟨later, hcount, hextend⟩

/-- Enough steps that are not refused make a complete run. -/
theorem run_of_complete (h : m.Advances outcomes reached)
    (hlength : outcomes.length = target.count.toNat) :
    m.run step target =
      .ok { machine := reached, completed := target, log := Outcome.logs outcomes } := by
  obtain ⟨later, hcount, hrun⟩ := run_of_advances h (Nat.le_of_eq hlength)
  obtain rfl : later = target := Ticks.eq_of_toNat_eq (hcount.trans hlength)
  rw [hrun, Run.extend_of_le (UInt64.le_refl later.count)]

/-- The first step that is refused ends a run. -/
theorem run_of_refused {failed : Outcome G} {fault : Fault} (h : m.Advances outcomes reached)
    (hless : outcomes.length < target.count.toNat) (hstep : reached.step = .ok failed)
    (hfault : failed.fault = some fault) :
    ∃ completed, m.run step target =
      .ok { machine := failed.machine, completed, fault := some fault,
            log := Outcome.logs outcomes ++ failed.log } := by
  obtain ⟨later, hcount, hrun⟩ := run_of_advances h (Nat.le_of_lt hless)
  have hroom : later.count < target.count := by rwa [UInt64.lt_iff_toNat_lt, hcount]
  refine ⟨later, ?_⟩
  rw [hrun, Run.extend_of_fault hroom hstep hfault]

/-- A step that crashes ends a run in the same crash. -/
theorem run_of_crash {crash : Crash} (h : m.Advances outcomes reached)
    (hless : outcomes.length < target.count.toNat) (hstep : reached.step = .error crash) :
    m.run step target = .error crash := by
  obtain ⟨later, hcount, hrun⟩ := run_of_advances h (Nat.le_of_lt hless)
  have hroom : later.count < target.count := by rwa [UInt64.lt_iff_toNat_lt, hcount]
  rw [hrun, Run.extend_of_crash hroom hstep]

end Machine

/-! ## Frames -/

namespace Console

variable {console : Console} {reached : Machine Lcg} {outcomes : List (Chip8.Outcome Lcg)}

/-- A frame whose steps all succeed ticks the timers once and counts itself. -/
theorem runFrame_of_complete (h : console.machine.Advances outcomes reached)
    (hlength : outcomes.length = console.ticksPerFrame.count.toNat)
    (hframes : console.frames.toNat < UInt64.size - 1) :
    console.runFrame =
      .ok { console := { console with machine := reached.tickTimers, frames := console.frames + 1 }
            result := .ok console.ticksPerFrame
            log := Outcome.logs outcomes } := by
  have hcount : Checked.addCount console.frames 1 = .ok (console.frames + 1) := by
    apply Checked.addCount_of_lt
    have hone : (1 : UInt64).toNat = 1 := rfl
    omega
  rw [runFrame, Machine.run_of_complete h hlength, Checked.ok_bind]
  simp only [hcount]
  rfl

/-- A frame with a refused step reports its fault, keeps what the steps did, and neither
ticks the timers nor counts itself. -/
theorem runFrame_of_refused {failed : Chip8.Outcome Lcg} {fault : Fault}
    (h : console.machine.Advances outcomes reached)
    (hless : outcomes.length < console.ticksPerFrame.count.toNat)
    (hstep : reached.step = .ok failed) (hfault : failed.fault = some fault) :
    console.runFrame =
      .ok { console := { console with machine := failed.machine }
            result := .error fault
            log := Outcome.logs outcomes ++ failed.log } := by
  obtain ⟨completed, hrun⟩ := Machine.run_of_refused h hless hstep hfault
  rw [runFrame, hrun]
  rfl

/-- A frame with a step that crashes crashes. -/
theorem runFrame_of_crash {crash : Crash} (h : console.machine.Advances outcomes reached)
    (hless : outcomes.length < console.ticksPerFrame.count.toNat)
    (hstep : reached.step = .error crash) : console.runFrame = .error crash := by
  rw [runFrame, Machine.run_of_crash h hless hstep]
  rfl

/-- A frame that reaches the limit of the tick count crashes in the count. -/
theorem runFrame_of_full (h : console.machine.Advances outcomes reached)
    (hless : outcomes.length < console.ticksPerFrame.count.toNat) (hfull : reached.Full) :
    console.runFrame = .error .addOverflow :=
  runFrame_of_crash h hless (Machine.step_of_full hfull)

/-- A completed frame crashes in its own count at the limit of the frame counter. -/
theorem runFrame_of_frames_full (h : console.machine.Advances outcomes reached)
    (hlength : outcomes.length = console.ticksPerFrame.count.toNat)
    (hframes : console.frames.toNat = UInt64.size - 1) :
    console.runFrame = .error .addOverflow := by
  have hcount : Checked.addCount console.frames 1 = .error .addOverflow := by
    rw [Checked.addCount, if_neg]
    have hone : (1 : UInt64).toNat = 1 := rfl
    omega
  rw [runFrame, Machine.run_of_complete h hlength, Checked.ok_bind]
  simp only [hcount]
  rfl

/-- A frame is all of its steps and one tick, or the steps up to the first that is
refused. -/
structure FrameLaw (console : Console) : Prop where
  /-- With no step refused, the timers tick once and the frame is counted. -/
  complete : ∀ outcomes reached, console.machine.Advances outcomes reached →
    outcomes.length = console.ticksPerFrame.count.toNat →
    console.frames.toNat < UInt64.size - 1 →
    console.runFrame =
      .ok { console := { console with machine := reached.tickTimers, frames := console.frames + 1 }
            result := .ok console.ticksPerFrame
            log := Outcome.logs outcomes }
  /-- The first step that is refused ends the frame in the state it left. -/
  refused : ∀ outcomes reached failed fault, console.machine.Advances outcomes reached →
    outcomes.length < console.ticksPerFrame.count.toNat → reached.step = .ok failed →
    failed.fault = some fault →
    console.runFrame =
      .ok { console := { console with machine := failed.machine }
            result := .error fault
            log := Outcome.logs outcomes ++ failed.log }
  /-- While its steps can be counted, a frame is one or the other. -/
  exhaustive : console.machine.ticks.count.toNat + console.ticksPerFrame.count.toNat < UInt64.size →
    ∃ outcomes reached, console.machine.Advances outcomes reached ∧
      (outcomes.length = console.ticksPerFrame.count.toNat ∨
        outcomes.length < console.ticksPerFrame.count.toNat ∧
          ∃ failed fault, reached.step = .ok failed ∧ failed.fault = some fault)
  /-- Only the count of steps attempted and the count of frames can overflow. -/
  crash : ∀ crash, console.runFrame = .error crash ↔
    crash = .addOverflow ∧ ∃ outcomes reached, console.machine.Advances outcomes reached ∧
      (outcomes.length < console.ticksPerFrame.count.toNat ∧
          reached.ticks.count.toNat = UInt64.size - 1 ∨
        outcomes.length = console.ticksPerFrame.count.toNat ∧
          console.frames.toNat = UInt64.size - 1)
  /-- A frame without steps is a tick of the timers, and it counts. -/
  empty : console.ticksPerFrame = .zero → console.frames.toNat < UInt64.size - 1 →
    console.runFrame =
      .ok { console :=
              { console with
                machine := console.machine.tickTimers
                frames := console.frames + 1 }
            result := .ok .zero
            log := #[] }
  /-- A frame of one step does to the machine what a cycle does. -/
  single : console.ticksPerFrame = .one → console.frames.toNat < UInt64.size - 1 →
    console.machine.ticks.count.toNat < UInt64.size - 1 →
    ∃ cycled frame, console.machine.cycle = .ok cycled ∧ console.runFrame = .ok frame ∧
      frame.console.machine = cycled.machine ∧
      frame.result = (match cycled.fault with
        | none => .ok .one
        | some fault => .error fault)

/-- A frame crashes exactly if one of the two counters is at its limit when it is to be
counted up. -/
theorem runFrame_eq_error_iff (hdepth : console.machine.registers.stack.depth.toNat ≤ 16)
    (crash : Crash) :
    console.runFrame = .error crash ↔
      crash = .addOverflow ∧ ∃ outcomes reached, console.machine.Advances outcomes reached ∧
        (outcomes.length < console.ticksPerFrame.count.toNat ∧ reached.Full ∨
          outcomes.length = console.ticksPerFrame.count.toNat ∧
            console.frames.toNat = UInt64.size - 1) := by
  constructor
  · intro hcrash
    obtain ⟨outcomes, reached, hadvances, hend⟩ :=
      Machine.advances_cases hdepth console.ticksPerFrame.count.toNat
    rcases hend with hlength | ⟨hless, hfull | ⟨failed, fault, hstep, hfault⟩⟩
    · by_cases hframes : console.frames.toNat = UInt64.size - 1
      · rw [runFrame_of_frames_full hadvances hlength hframes] at hcrash
        exact ⟨(Except.error.inj hcrash).symm, outcomes, reached, hadvances,
          Or.inr ⟨hlength, hframes⟩⟩
      · have hlt : console.frames.toNat < UInt64.size := console.frames.toNat_lt
        rw [runFrame_of_complete hadvances hlength (by omega)] at hcrash
        cases hcrash
    · rw [runFrame_of_full hadvances hless hfull] at hcrash
      exact ⟨(Except.error.inj hcrash).symm, outcomes, reached, hadvances, Or.inl ⟨hless, hfull⟩⟩
    · rw [runFrame_of_refused hadvances hless hstep hfault] at hcrash
      cases hcrash
  · rintro ⟨rfl, outcomes, reached, hadvances, ⟨hless, hfull⟩ | ⟨hlength, hframes⟩⟩
    · exact runFrame_of_full hadvances hless hfull
    · exact runFrame_of_frames_full hadvances hlength hframes

/-- A frame that comes to an outcome is all of its steps, or the steps up to the first that
is refused. -/
theorem runFrame_cases {frame : Frame} (h : console.runFrame = .ok frame) :
    ∃ outcomes reached, console.machine.Advances outcomes reached ∧
      (outcomes.length = console.ticksPerFrame.count.toNat ∧
          console.frames.toNat < UInt64.size - 1 ∧
          frame =
            { console :=
                { console with machine := reached.tickTimers, frames := console.frames + 1 }
              result := .ok console.ticksPerFrame
              log := Outcome.logs outcomes } ∨
        outcomes.length < console.ticksPerFrame.count.toNat ∧
          ∃ failed fault, reached.step = .ok failed ∧ failed.fault = some fault ∧
            frame =
              { console := { console with machine := failed.machine }
                result := .error fault
                log := Outcome.logs outcomes ++ failed.log }) := by
  obtain ⟨outcomes, reached, hadvances, hend⟩ :=
    console.machine.advances_or_stops console.ticksPerFrame.count.toNat
  refine ⟨outcomes, reached, hadvances, ?_⟩
  rcases hend with hlength | ⟨hless, ⟨crash, hcrash⟩ | ⟨failed, fault, hstep, hfault⟩⟩
  · have hframes : console.frames.toNat < UInt64.size - 1 := by
      have hlt : console.frames.toNat < UInt64.size := console.frames.toNat_lt
      by_contra hlimit
      rw [runFrame_of_frames_full hadvances hlength (by omega)] at h
      cases h
    rw [runFrame_of_complete hadvances hlength hframes] at h
    exact Or.inl ⟨hlength, hframes, (Except.ok.inj h).symm⟩
  · rw [runFrame_of_crash hadvances hless hcrash] at h
    cases h
  · rw [runFrame_of_refused hadvances hless hstep hfault] at h
    exact Or.inr ⟨hless, failed, fault, hstep, hfault, (Except.ok.inj h).symm⟩

/-- A frame of one step does to the machine what a cycle does. -/
theorem runFrame_of_single (hdepth : console.machine.registers.stack.depth.toNat ≤ 16)
    (hone : console.ticksPerFrame = .one) (hframes : console.frames.toNat < UInt64.size - 1)
    (hfull : ¬console.machine.Full) :
    ∃ cycled frame, console.machine.cycle = .ok cycled ∧ console.runFrame = .ok frame ∧
      frame.console.machine = cycled.machine ∧
      frame.result = (match cycled.fault with
        | none => .ok .one
        | some fault => .error fault) := by
  have hstep := Machine.step_eq hdepth hfull
  have hlength : console.ticksPerFrame.count.toNat = 1 := congrArg (·.count.toNat) hone
  cases hfault : console.machine.stepped.fault with
  | none =>
      have hadvances := Machine.Advances.cons hstep hfault (.nil _)
      refine ⟨_, _, Machine.cycle_of_success hstep hfault,
        runFrame_of_complete hadvances hlength.symm hframes, rfl, ?_⟩
      simp only [hfault, hone]
  | some fault =>
      have hless : ([] : List (Chip8.Outcome Lcg)).length < console.ticksPerFrame.count.toNat := by
        simp [hlength]
      refine ⟨_, _, Machine.cycle_of_fault hstep hfault,
        runFrame_of_refused (.nil _) hless hstep hfault, rfl, ?_⟩
      simp only [hfault]

/-- What a frame comes to, for every console with at most sixteen return addresses and
every length of its frames. -/
theorem frame_law (console : Console)
    (hdepth : console.machine.registers.stack.depth.toNat ≤ 16) : console.FrameLaw where
  complete outcomes reached := runFrame_of_complete
  refused outcomes reached failed fault := runFrame_of_refused
  exhaustive hcount := by
    obtain ⟨outcomes, reached, hadvances, hend⟩ :=
      Machine.advances_cases hdepth console.ticksPerFrame.count.toNat
    refine ⟨outcomes, reached, hadvances, ?_⟩
    rcases hend with hlength | ⟨hless, hfull | hrefused⟩
    · exact Or.inl hlength
    · have hticks := hadvances.ticks_eq hdepth
      unfold Machine.Full at hfull
      omega
    · exact Or.inr ⟨hless, hrefused⟩
  crash := runFrame_eq_error_iff hdepth
  empty hzero hframes := by
    rw [runFrame_of_complete (.nil console.machine) (by simp [hzero, Ticks.zero]) hframes, hzero]
    rfl
  single hone hframes hticks := runFrame_of_single hdepth hone hframes (Nat.ne_of_lt hticks)

/-- A console whose program sets the delay timer and then returns from nowhere. -/
def strandedFrame : Console :=
  let program : List UInt8 := [0x61, 0x03, 0xF1, 0x15, 0x00, 0xEE]
  let memory := Memory.powerOn.load Memory.programStart program
  { Console.new {} with machine := { Machine.powerOn Lcg.standard with memory } }

/-- A frame that meets a return without a call ends there, with the timers where they were.
-/
theorem frame_law_strandedFrame :
    strandedFrame.machine.registers.stack.depth.toNat ≤ 16 ∧
      ∃ frame, strandedFrame.runFrame = .ok frame ∧
        frame.result = .error (.stackUnderflow 0x204) ∧
        frame.console.frames = 0 ∧ frame.console.machine.timers.delay = 3 := by
  have hdepth : strandedFrame.machine.registers.stack.depth.toNat ≤ 16 := by decide
  let first := strandedFrame.machine.stepped
  let second := first.machine.stepped
  let third := second.machine.stepped
  have hsteps : (first.fault = none ∧ ¬strandedFrame.machine.Full) ∧
      (second.fault = none ∧ ¬first.machine.Full ∧
        first.machine.registers.stack.depth.toNat ≤ 16) ∧
      third.fault = some (.stackUnderflow 0x204) ∧ ¬second.machine.Full ∧
        second.machine.registers.stack.depth.toNat ≤ 16 ∧ third.machine.timers.delay = 3 := by
    decide +kernel
  obtain ⟨⟨hfirst, hfull₁⟩, ⟨hsecond, hfull₂, hdepth₂⟩, hthird, hfull₃, hdepth₃, hdelay⟩ := hsteps
  have hstep₁ : strandedFrame.machine.step = .ok first := Machine.step_eq hdepth hfull₁
  have hstep₂ : first.machine.step = .ok second := Machine.step_eq hdepth₂ hfull₂
  have hstep₃ : second.machine.step = .ok third := Machine.step_eq hdepth₃ hfull₃
  have hadvances : strandedFrame.machine.Advances [first, second] second.machine :=
    .cons hstep₁ hfirst (.cons hstep₂ hsecond (.nil second.machine))
  have hframe := (frame_law strandedFrame hdepth).refused _ _ _ _ hadvances (by decide) hstep₃
    hthird
  exact ⟨hdepth, _, hframe, rfl, rfl, hdelay⟩

end Console

end Chip8
