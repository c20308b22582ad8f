import Chip8.Proofs.CrashFreedom
import Chip8.Proofs.Unroll

/-!
# Nothing but one instruction reads the timers

The delay timer is read by the instruction that puts it into a register, and the sound
timer by none.  How instructions and ticks of the timers are interleaved can therefore
show in nothing but the timers until that instruction is executed: steps, cycles and
frames are then different schedules of the same run.

Main results:

- Theorem `Interleaved.lockstep`: two schedules of as many instructions keep
  machines that differ in their timers in lockstep.
- Theorem `Interleaved.overflows_iff`: they overflow the tick count alike.
- Theorem `Console.unroll_frames`: frames in a row are such a schedule.
- Theorem `Machine.timer_law`: what the timers can influence, for all schedules.
-/

namespace Chip8

/-! ## Views without timers -/

namespace View

variable {G : Type}

/-- Everything but the timers. -/
def withoutTimers : View G where
  timers _ _ := True
  random := Eq

/-- Everything but the sound timer. -/
def withoutSound : View G where
  timers s t := s.delay = t.delay
  random := Eq

/-- The view without timers is closed under anything done to them. -/
theorem closed_withoutTimers : (withoutTimers : View G).Closed where
  refl _ := trivial
  tick _ _ _ := trivial
  delay _ _ _ _ := trivial
  sound _ _ _ _ := trivial

/-- The view without the sound timer is closed: both timers count down on their own. -/
theorem closed_withoutSound : (withoutSound : View G).Closed where
  refl _ := rfl
  tick _ _ h := congrArg Timers.lower h
  delay _ _ _ _ := rfl
  sound _ _ _ h := h

variable [RandomSource G]

/-- Without timers a view shows what every instruction but one reads. -/
theorem shows_withoutTimers {ins : Instruction} (h : ∀ x, ins ≠ .getDelay x) :
    (withoutTimers : View G).Shows ins := by
  cases ins with
  | getDelay x => exact absurd rfl (h x)
  | random x kk => rintro g _ rfl; exact ⟨rfl, rfl⟩
  | _ => trivial

/-- No instruction reads the sound timer. -/
theorem shows_withoutSound (ins : Instruction) : (withoutSound : View G).Shows ins := by
  cases ins with
  | getDelay x => exact fun _ _ => id
  | random x kk => rintro g _ rfl; exact ⟨rfl, rfl⟩
  | _ => trivial

end View

/-! ## Schedules -/

/-- The operations that execute an instruction or tick the timers, and do nothing else. -/
def Operation.isDrive : Operation → Bool
  | .step | .cycle | .tickTimers => true
  | _ => false

/-- The events that execute an instruction. -/
def Event.attempts {G : Type} (events : List (Event G)) : List (Event G) :=
  events.filter fun e => e.op.isAttempt

/-- Two schedules of as many instructions, each a step or a cycle, with ticks of the timers
between them. -/
inductive Interleaved : List Operation → List Operation → Prop
  | nil : Interleaved [] []
  | tickLeft {ops ops' : List Operation} (h : Interleaved ops ops') :
      Interleaved (.tickTimers :: ops) ops'
  | tickRight {ops ops' : List Operation} (h : Interleaved ops ops') :
      Interleaved ops (.tickTimers :: ops')
  | attempt {op op' : Operation} {ops ops' : List Operation} (hop : op.isAttempt = true)
      (hop' : op'.isAttempt = true) (h : Interleaved ops ops') :
      Interleaved (op :: ops) (op' :: ops')

theorem Operation.isDrive_cases {op : Operation} (h : op.isDrive = true) :
    op.isAttempt = true ∨ op = .tickTimers := by
  cases op with
  | step => exact Or.inl rfl
  | cycle => exact Or.inl rfl
  | tickTimers => exact Or.inr rfl
  | _ => cases h

/-- Ticks alone are interleaved with nothing. -/
theorem interleaved_nil {ops : List Operation} (hops : ∀ op ∈ ops, op.isDrive = true)
    (hcount : ops.countP Operation.isAttempt = 0) : Interleaved [] ops := by
  induction ops with
  | nil => exact .nil
  | cons op rest ih =>
      rw [List.forall_mem_cons] at hops
      rcases Operation.isDrive_cases hops.1 with hop | rfl
      · rw [List.countP_cons_of_pos hop] at hcount
        cases hcount
      · exact .tickRight (ih hops.2 hcount)

/-- Ticks aside, lists of as many attempts are schedules of the same instructions. -/
theorem interleaved_of_countP_eq {ops ops' : List Operation}
    (hops : ∀ op ∈ ops, op.isDrive = true) (hops' : ∀ op ∈ ops', op.isDrive = true)
    (hcount : ops.countP Operation.isAttempt = ops'.countP Operation.isAttempt) :
    Interleaved ops ops' := by
  induction ops generalizing ops' with
  | nil => exact interleaved_nil hops' hcount.symm
  | cons op rest ih =>
      rw [List.forall_mem_cons] at hops
      rcases Operation.isDrive_cases hops.1 with hop | rfl
      · -- pass over the ticks before the attempt that answers this one
        induction ops' with
        | nil =>
            rw [List.countP_cons_of_pos hop] at hcount
            cases hcount
        | cons op' rest' ih' =>
            rw [List.forall_mem_cons] at hops'
            rcases Operation.isDrive_cases hops'.1 with hop' | rfl
            · rw [List.countP_cons_of_pos hop, List.countP_cons_of_pos hop'] at hcount
              exact .attempt hop hop' (ih hops.2 hops'.2 (Nat.succ.inj hcount))
            · exact .tickRight (ih' hops'.2 hcount)
      · exact .tickLeft (ih hops.2 hops' hcount)

/-! ## Machines on two schedules -/

namespace Machine

variable {G : Type} {m n : Machine G}

/-- A tick of one machine cannot be told without timers. -/
theorem Same.tick_left (h : m.Same .withoutTimers n) : m.tickTimers.Same .withoutTimers n :=
  { h with timers := trivial }

theorem Same.tick_right (h : m.Same .withoutTimers n) : m.Same .withoutTimers n.tickTimers :=
  { h with timers := trivial }

end Machine

/-- The tick that ends a cycle cannot be told from a bare step. -/
theorem Outcome.Same.ticked_left {G : Type} {o p : Outcome G} (h : o.Same .withoutTimers p) :
    o.ticked.Same .withoutTimers p := by
  unfold Outcome.ticked
  split
  · exact h
  · exact { h with machine := h.machine.tick_left }

theorem Outcome.Same.ticked_right {G : Type} {o p : Outcome G} (h : o.Same .withoutTimers p) :
    o.Same .withoutTimers p.ticked := by
  unfold Outcome.ticked
  split
  · exact h
  · exact { h with machine := h.machine.tick_right }

namespace Machine

variable {G : Type} [RandomSource G] {m n : Machine G}

/-- An instruction that does not read the timers does the same in a step and in a cycle. -/
theorem Same.attempted (h : m.Same .withoutTimers n) {op op' : Operation}
    (hop : op.isAttempt = true) (hop' : op'.isAttempt = true)
    (hshows : (View.withoutTimers : View G).Shows m.fetched) :
    (m.performed op).Same .withoutTimers (n.performed op') := by
  have hstepped : m.stepped.Same .withoutTimers n.stepped :=
    h.stepped View.closed_withoutTimers hshows
  have hleft : (m.performed op).Same .withoutTimers n.stepped := by
    cases op with
    | step => exact hstepped
    | cycle => exact hstepped.ticked_left
    | _ => cases hop
  cases op' with
  | step => exact hleft
  | cycle => exact hleft.ticked_right
  | _ => cases hop'

end Machine

namespace Interleaved

variable {G : Type} [RandomSource G] {m n : Machine G} {ops ops' : List Operation}

/-- Two schedules of as many instructions agree on every instruction up to the first that
reads the delay timer. -/
theorem lockstep (h : Interleaved ops ops') (hsame : m.Same .withoutTimers n) :
    View.withoutTimers.Lockstep (Event.attempts (m.events ops)) (Event.attempts (n.events ops')) ∧
      ((∀ e ∈ Event.attempts (m.events ops), e.Shown .withoutTimers) →
        (m.reached ops).Same .withoutTimers (n.reached ops')) := by
  induction h generalizing m n with
  | nil => exact ⟨.nil, fun _ => hsame⟩
  | tickLeft _ ih => exact ih hsame.tick_left
  | tickRight _ ih => exact ih hsame.tick_right
  | @attempt op op' ops ops' hop hop' _ ih =>
      have hcons : Event.attempts (m.events (op :: ops)) =
          m.event op :: Event.attempts ((m.performed op).machine.events ops) :=
        List.filter_cons_of_pos hop
      have hcons' : Event.attempts (n.events (op' :: ops')) =
          n.event op' :: Event.attempts ((n.performed op').machine.events ops') :=
        List.filter_cons_of_pos hop'
      rw [hcons, hcons', List.forall_mem_cons]
      by_cases hshown : (m.event op).Shown .withoutTimers
      · have houtcome := hsame.attempted hop hop' (hshown hop)
        obtain ⟨hlater, hreached⟩ := ih houtcome.machine
        exact ⟨.cons ⟨hsame, hop.trans hop'.symm, houtcome⟩ hshown hlater, fun hall => hreached hall.2⟩
      · exact ⟨.hidden _ _ hsame (hop.trans hop'.symm) hshown, fun hall => absurd hall.1 hshown⟩

/-- Two schedules of as many instructions overflow the tick count alike. -/
theorem overflows_iff (h : Interleaved ops ops')
    (hdepth : m.registers.stack.depth.toNat ≤ 16) (hdepth' : n.registers.stack.depth.toNat ≤ 16)
    (hticks : m.ticks = n.ticks) : m.Overflows ops ↔ n.Overflows ops' := by
  induction h generalizing m n with
  | nil => exact Iff.rfl
  | tickLeft _ ih =>
      rw [Machine.overflows_cons hdepth, or_iff_right fun hnow => absurd hnow.1 nofun]
      exact ih hdepth hdepth' hticks
  | tickRight _ ih =>
      rw [Machine.overflows_cons hdepth', or_iff_right fun hnow => absurd hnow.1 nofun]
      exact ih hdepth hdepth' hticks
  | @attempt op op' ops ops' hop hop' _ ih =>
      have hnext : (m.performed op).machine.ticks = (n.performed op').machine.ticks := by
        rw [Machine.ticks_performed, Machine.ticks_performed, hticks]
        cases op <;> cases hop <;> cases op' <;> cases hop' <;> rfl
      have hlater := ih (Machine.depth_performed_le hdepth op)
        (Machine.depth_performed_le hdepth' op') hnext
      have hfull : m.Full ↔ n.Full := by rw [Machine.Full, Machine.Full, hticks]
      rw [Machine.overflows_cons hdepth, Machine.overflows_cons hdepth', hlater, hfull, hop, hop']

end Interleaved

/-! ## Frames as schedules -/

namespace Console

/-- Frames in a row, none of them ended early, are a schedule of their steps. -/
theorem unroll_frames {console : Console}
    (hdepth : console.machine.registers.stack.depth.toNat ≤ 16) {k : Nat} {frames : List Outcome}
    (h : console.outcomes (List.replicate k .frame) = .ok frames)
    (hsuccess : ∀ frame ∈ frames, ∃ count, frame.result = .ok count) :
    ∃ ops, console.unroll (List.replicate k .frame) = .ok ops ∧
      (∀ op ∈ ops, op.isDrive = true) ∧
      ops.countP Operation.isAttempt = k * console.ticksPerFrame.count.toNat := by
  induction k generalizing console frames with
  | zero => exact ⟨[], rfl, List.forall_mem_nil _, (Nat.zero_mul _).symm⟩
  | succ k ih =>
      obtain ⟨frame, hframe, h⟩ := Checked.bind_eq_ok.mp h
      obtain ⟨later, hlater, h⟩ := Checked.bind_eq_ok.mp h
      obtain rfl := Except.ok.inj h
      rw [List.forall_mem_cons] at hsuccess
      obtain ⟨⟨count, hcount⟩, hsuccess⟩ := hsuccess
      obtain ⟨ops, hops, hdrive, hattempts⟩ := ih (depth_perform_le hdepth hframe) hlater hsuccess
      rw [ticksPerFrame_of_perform hframe] at hattempts
      have hnow := Machine.frameOperations_eq ((perform_unrolled hdepth hframe).success count hcount)
      refine ⟨_, unroll_cons_eq_ok_iff.mpr ⟨frame, ops, hframe, hops, rfl⟩, ?_, ?_⟩
      · rw [unrolled, hnow]
        simp only [List.mem_append, List.mem_replicate, List.mem_singleton]
        rintro op ((⟨-, rfl⟩ | rfl) | hop)
        · rfl
        · rfl
        · exact hdrive op hop
      · rw [unrolled, hnow, List.countP_append, List.countP_append, List.countP_replicate, hattempts,
          Nat.succ_mul]
        simp [Operation.isAttempt, Nat.add_comm]

end Console

/-! ## What the timers can influence -/

namespace Machine

variable {G : Type} [RandomSource G] {m n : Machine G} {ops ops' : List Operation}

/-- Machines that differ in their timers agree on every instruction of two schedules until
one of them reads the delay timer. -/
theorem Same.history_drives (h : m.Same .withoutTimers n)
    (hops : ∀ op ∈ ops, op.isDrive = true) (hops' : ∀ op ∈ ops', op.isDrive = true)
    (hcount : ops.countP Operation.isAttempt = ops'.countP Operation.isAttempt) :
    Checked.Rel
      (fun events events' => ∀ k,
        (∀ e ∈ (Event.attempts events).take k, ∀ x, e.before.fetched ≠ .getDelay x) →
        List.Forall₂ (Event.Same .withoutTimers)
          ((Event.attempts events).take k) ((Event.attempts events').take k))
      (m.history ops) (n.history ops') := by
  have hdepth : n.registers.stack.depth.toNat ≤ 16 := h.registers ▸ h.depth_le
  have hinterleaved := interleaved_of_countP_eq hops hops' hcount
  have hover := hinterleaved.overflows_iff h.depth_le hdepth h.ticks
  by_cases hlimit : m.Overflows ops
  · rw [history_of_overflows h.depth_le hlimit, history_of_overflows hdepth (hover.mp hlimit)]
    exact .error .addOverflow
  · rw [history_eq h.depth_le hlimit, history_eq hdepth (mt hover.mpr hlimit)]
    refine .ok ?_
    intro k hblind
    apply (hinterleaved.lockstep h).1.take
    intro e he _
    exact View.shows_withoutTimers (hblind e he)

/-- Frames that are not ended early lead where as many cycles as their steps do, if none of
them reads the delay timer. -/
theorem Same.frames_cycles {m : Machine Lcg} {console : Console}
    (h : m.Same .withoutTimers console.machine) {k : Nat} {frames : List Console.Outcome}
    (hframes : console.outcomes (List.replicate k .frame) = .ok frames)
    (hsuccess : ∀ frame ∈ frames, ∃ count, frame.result = .ok count) :
    ∃ cycles reached last,
      m.history (List.replicate (k * console.ticksPerFrame.count.toNat) .cycle) = .ok cycles ∧
      m.performAll (List.replicate (k * console.ticksPerFrame.count.toNat) .cycle) = .ok reached ∧
      console.performAll (List.replicate k .frame) = .ok last ∧
      ((∀ e ∈ cycles, ∀ x, e.before.fetched ≠ .getDelay x) →
        reached.Same .withoutTimers last.machine) := by
  have hdepth : console.machine.registers.stack.depth.toNat ≤ 16 := h.registers ▸ h.depth_le
  obtain ⟨ops, hops, hdrive, hcount⟩ := Console.unroll_frames hdepth hframes hsuccess
  obtain ⟨hover, last, hlast, hreached⟩ := Console.performAll_of_unroll hdepth hops
  have hcycles : ∀ op ∈ List.replicate (k * console.ticksPerFrame.count.toNat) Operation.cycle,
      op.isDrive = true := by
    intro op hop
    rw [List.eq_of_mem_replicate hop]
    rfl
  have hattempts :
      (List.replicate (k * console.ticksPerFrame.count.toNat) Operation.cycle).countP
        Operation.isAttempt = ops.countP Operation.isAttempt := by
    rw [hcount, List.countP_replicate]
    rfl
  have hinterleaved := interleaved_of_countP_eq hcycles hdrive hattempts
  rw [← hinterleaved.overflows_iff h.depth_le hdepth h.ticks] at hover
  refine ⟨_, _, last, history_eq h.depth_le hover, performAll_eq h.depth_le hover, hlast, ?_⟩
  intro hblind
  rw [hreached]
  apply (hinterleaved.lockstep h).2
  intro e he _
  exact View.shows_withoutTimers (hblind e (List.mem_of_mem_filter he))

/-- The timers influence nothing else until an instruction reads the delay timer, whatever
the schedule of instructions and ticks, and the sound timer never does. -/
theorem timer_law (G : Type) [RandomSource G] :
    (∀ (m n : Machine G) (ops ops' : List Operation), m.Same .withoutTimers n →
      (∀ op ∈ ops, op.isDrive = true) → (∀ op ∈ ops', op.isDrive = true) →
      ops.countP Operation.isAttempt = ops'.countP Operation.isAttempt →
      Checked.Rel
        (fun events events' => ∀ k,
          (∀ e ∈ (Event.attempts events).take k, ∀ x, e.before.fetched ≠ .getDelay x) →
          List.Forall₂ (Event.Same .withoutTimers)
            ((Event.attempts events).take k) ((Event.attempts events').take k))
        (m.history ops) (n.history ops')) ∧
    (∀ (m : Machine Lcg) (console : Console) (k : Nat) (frames : List Console.Outcome),
      m.Same .withoutTimers console.machine →
      console.outcomes (List.replicate k .frame) = .ok frames →
      (∀ frame ∈ frames, ∃ count, frame.result = .ok count) →
      ∃ cycles reached last,
        m.history (List.replicate (k * console.ticksPerFrame.count.toNat) .cycle) = .ok cycles ∧
        m.performAll (List.replicate (k * console.ticksPerFrame.count.toNat) .cycle) =
          .ok reached ∧
        console.performAll (List.replicate k .frame) = .ok last ∧
        ((∀ e ∈ cycles, ∀ x, e.before.fetched ≠ .getDelay x) →
          reached.Same .withoutTimers last.machine)) ∧
    (∀ (m n : Machine G) (ops : List Operation), m.Same .withoutSound n →
      Checked.Rel (List.Forall₂ (Outcome.Same .withoutSound)) (m.outcomes ops) (n.outcomes ops)) := by
  refine ⟨?_, ?_, ?_⟩
  · intro m n ops ops' h hops hops' hcount
    exact h.history_drives hops hops' hcount
  · intro m console k frames h hframes hsuccess
    exact h.frames_cycles hframes hsuccess
  · intro m n ops h
    exact h.outcomes View.closed_withoutSound View.shows_withoutSound ops

/-- A machine that sets a register and adds to it. -/
def counting : Machine Lcg :=
  let memory := Memory.powerOn.load Memory.programStart [0x60, 0x01, 0x70, 0x02]
  { powerOn Lcg.standard with memory }

/-- Two steps and a tick do what two cycles do with other timers. -/
theorem timer_law_counting :
    ∃ events events', counting.history [.step, .tickTimers, .step] = .ok events ∧
      ({ counting with timers := { delay := 5, sound := 3 } } : Machine Lcg).history
        [.cycle, .cycle] = .ok events' ∧
      (Event.attempts events).length = 2 ∧
      List.Forall₂ (Event.Same .withoutTimers) ((Event.attempts events).take 2)
        ((Event.attempts events').take 2) := by
  let n : Machine Lcg := { counting with timers := { delay := 5, sound := 3 } }
  let first := counting.stepped.machine.tickTimers
  have hdepth : counting.registers.stack.depth.toNat ≤ 16 := by decide
  have hsame : counting.Same .withoutTimers n :=
    ⟨rfl, hdepth, rfl, rfl, rfl, trivial, rfl, rfl⟩
  have hover : ¬counting.Overflows [.step, .tickTimers, .step] :=
    not_overflows_of_lt hdepth (by decide)
  have hfetched : counting.fetched = .setByte 0 1 ∧ first.fetched = .addByte 0 2 := by
    decide +kernel
  rcases ((timer_law Lcg).1 counting n [.step, .tickTimers, .step] [.cycle, .cycle] hsame
    (by decide) (by decide) rfl).cases_eq with ⟨crash, hcrash, -⟩ | ⟨events, events', h, h', hagree⟩
  · rw [history_eq hdepth hover] at hcrash
    cases hcrash
  · obtain rfl := Except.ok.inj ((history_eq hdepth hover).symm.trans h)
    refine ⟨_, events', h, h', rfl, hagree 2 ?_⟩
    change ∀ e ∈ [counting.event .step, first.event .step], ∀ x, e.before.fetched ≠ .getDelay x
    rw [List.forall_mem_cons, List.forall_mem_singleton]
    constructor
    · intro x hx
      cases hfetched.1.symm.trans hx
    · intro x hx
      cases hfetched.2.symm.trans hx

end Machine

end Chip8
