import Chip8.Console.Operation
import Chip8.Proofs.Arithmetic
import Chip8.Proofs.Frames
import Chip8.Proofs.KeyHistory

/-!
# Waiting for a key

While no key is held, the instruction that waits for one is fetched again and again.  Nothing
but the word latched, the count of attempts and the timers changes, in single steps, in cycles
and in frames; only the pace of the timers differs.  Once keys have been pressed, the next step
takes the lowest of them and goes on.

Main results:

- Theorem `Timers.countsDown_tickMany`: how far both timers are after ticks of any number.
- Theorem `Machine.Waits.step_eq_waited`: one more attempt is all that a step comes to.
- Theorem `Machine.Waits.induction`: what holds of groups of attempts, one after another.
- Theorems `Machine.Waits.repeats_step`, `Machine.Waits.repeats_cycle` and
  `Console.countsFrame_of_waits`: what many steps, cycles and frames come to.
- Theorem `Machine.Waits.answers`: keys pressed end the waiting.
- Theorem `Console.blocking_law`: so it is for every machine, every console and every number of
  attempts.
-/

namespace Chip8

/-- The timers are `n` ticks further: each has lost one for every tick, down to zero. -/
structure Timers.CountsDown (before : Timers) (n : Nat) (after : Timers) : Prop where
  delay : after.delay.toNat = before.delay.toNat - n
  sound : after.sound.toNat = before.sound.toNat - n

/-- Ticks count both timers down. -/
theorem Timers.countsDown_tickMany (timers : Timers) (n : Nat) :
    timers.CountsDown n (timers.tickMany n) :=
  { delay := toNat_delay_tickMany n timers, sound := toNat_sound_tickMany n timers }

namespace Machine

variable {G : Type} {m : Machine G} {x : UInt8}

/-! ## Attempts without a key -/

/-- The instruction at the program counter waits for a key, and none is held. -/
structure Waits (m : Machine G) (x : UInt8) : Prop where
  word : m.FetchesDevice x 0x0A
  idle : ∀ key, m.keypad.isPressed key = false

/-- The machine after attempts without a key and ticks of the timers. -/
def waited (m : Machine G) (attempts ticked : Nat) : Machine G :=
  { m with
    registers := { m.registers with opcode := m.opcodeAt }
    timers := m.timers.tickMany ticked
    ticks := ⟨m.ticks.count + UInt64.ofNat attempts⟩ }

/-- Waiting leaves the word and the keys alone. -/
theorem Waits.after (h : m.Waits x) (attempts ticked : Nat) : (m.waited attempts ticked).Waits x :=
  { word := ⟨h.word.family, h.word.register, h.word.low⟩, idle := h.idle }

/-- To wait twice is to wait for the sum. -/
theorem waited_waited (m : Machine G) (a b t u : Nat) :
    (m.waited a t).waited b u = m.waited (a + b) (t + u) := by
  have hcount : m.ticks.count + UInt64.ofNat a + UInt64.ofNat b =
      m.ticks.count + UInt64.ofNat (a + b) := by
    rw [UInt64.ofNat_add, UInt64.add_assoc]
  change { m.waited (a + b) (t + u) with
    timers := (m.timers.tickMany t).tickMany u
    ticks := ⟨m.ticks.count + UInt64.ofNat a + UInt64.ofNat b⟩ } = _
  rw [hcount, Timers.tickMany_tickMany]
  rfl

/-- One more tick for a waiting machine is one more tick waited. -/
theorem tickTimers_waited (m : Machine G) (attempts ticked : Nat) :
    (m.waited attempts ticked).tickTimers = m.waited attempts (ticked + 1) := by
  rw [waited, waited, ← Timers.tickMany_tickMany]
  rfl

theorem toNat_count_waited {attempts : Nat} (ticked : Nat)
    (hcount : m.ticks.count.toNat + attempts < UInt64.size) :
    (m.waited attempts ticked).ticks.count.toNat = m.ticks.count.toNat + attempts := by
  change (m.ticks.count + UInt64.ofNat attempts).toNat = _
  rw [UInt64.toNat_add, UInt64.toNat_ofNat']
  have hsize : UInt64.size = 2 ^ 64 := rfl
  omega

/-- The word Fx0A is fetched as the instruction that waits. -/
theorem FetchesDevice.fetched_waitKey (h : m.FetchesDevice x 0x0A) : m.fetched = .waitKey x := by
  rw [h.fetched_eq, Instruction.decodeDevice, h.low, h.register]
  rfl

/-- What holds of no attempts, and of one group of attempts more if of those that follow,
holds of any number of groups; each group makes `a` attempts and ticks the timers `c` times.
-/
theorem Waits.induction {P : Machine G → Nat → Machine G → Prop} {a c : Nat}
    (hzero : ∀ k, P k 0 k)
    (hsucc : ∀ k n r, k.Waits x → k.ticks.count.toNat + a < UInt64.size →
      P (k.waited a c) n r → P k (n + 1) r)
    (h : m.Waits x) {n : Nat} (hn : 1 ≤ n) (hcount : m.ticks.count.toNat + a * n < UInt64.size) :
    P m n (m.waited (a * n) (c * n)) := by
  -- not from zero: a machine that has made no attempt has not latched the word
  induction n, hn using Nat.le_induction generalizing m with
  | base =>
      rw [Nat.mul_one] at hcount ⊢
      rw [Nat.mul_one]
      exact hsucc m 0 _ h hcount (hzero _)
  | succ n hn ih =>
      rw [Nat.mul_succ] at hcount
      have hfirst : m.ticks.count.toNat + a < UInt64.size := by omega
      have hlater := ih (h.after a c) (by rw [toNat_count_waited c hfirst]; omega)
      rw [waited_waited, Nat.add_comm a, Nat.add_comm c, ← Nat.mul_succ, ← Nat.mul_succ] at hlater
      exact hsucc m n _ h hfirst hlater

theorem not_full_of_lt (h : m.ticks.count.toNat + 1 < UInt64.size) : ¬m.Full := by
  unfold Full
  omega

variable [RandomSource G]

/-- Without a key, one more attempt is all that a step comes to. -/
theorem Waits.step_eq_waited (h : m.Waits x) (hfull : ¬m.Full) :
    m.step = .ok m.stepped ∧ m.stepped.fault = none ∧ m.stepped.machine = m.waited 1 0 := by
  rcases stepped_of_fetched h.word.fetched_waitKey rfl with ⟨hsuccess, hmachine⟩
  refine ⟨step_of_fetched h.word.fetched_waitKey (by simp) hfull, hsuccess, ?_⟩
  have hnone : m.afterFetch.keypad.firstPressed? = none :=
    (Keypad.firstPressed?_eq_none_iff _).mpr h.idle
  have hpc : m.afterFetch.nextPc (.waitKey x) = m.registers.pc := by
    rw [nextPc, hnone]
    exact UInt16.add_sub_cancel m.registers.pc 2
  have hbytes : m.afterFetch.nextBytes (.waitKey x) = m.registers.v := by
    rw [nextBytes, hnone]
    rfl
  rw [hmachine, effect, hpc, hbytes, waited]
  rfl

/-! ## Many steps and cycles -/

/-- An operation repeated `n` times is never refused and leads to a machine. -/
structure Repeats (m : Machine G) (op : Operation) (n : Nat) (reached : Machine G) : Prop where
  success : ∃ outcomes, m.outcomes (.replicate n op) = .ok outcomes ∧ outcomes.length = n ∧
    ∀ outcome ∈ outcomes, outcome.fault = none
  performed : m.performAll (.replicate n op) = .ok reached

theorem repeats_zero (m : Machine G) (op : Operation) : m.Repeats op 0 m :=
  { success := ⟨[], rfl, rfl, by simp⟩, performed := rfl }

theorem Repeats.succ {op : Operation} {n : Nat} {outcome : Outcome G} {reached : Machine G}
    (h : outcome.machine.Repeats op n reached) (hperform : m.perform op = .ok outcome)
    (hsuccess : outcome.fault = none) : m.Repeats op (n + 1) reached := by
  rcases h with ⟨⟨outcomes, houtcomes, hlength, hall⟩, hperformed⟩
  refine { success := ⟨outcome :: outcomes, ?_, ?_, ?_⟩, performed := ?_ }
  · rw [List.replicate_succ, outcomes_cons hperform, houtcomes]
    rfl
  · rw [List.length_cons, hlength]
  · simp only [List.mem_cons, forall_eq_or_imp]
    exact ⟨hsuccess, hall⟩
  · rw [List.replicate_succ, performAll, hperform]
    exact hperformed

/-- Steps without a key leave the timers alone. -/
theorem Waits.repeats_step (h : m.Waits x) {n : Nat} (hn : 1 ≤ n)
    (hcount : m.ticks.count.toNat + n < UInt64.size) : m.Repeats .step n (m.waited n 0) := by
  have hrepeats : m.Repeats .step n (m.waited (1 * n) (0 * n)) := by
    refine h.induction (P := fun k n r => k.Repeats .step n r) ?_ ?_ hn ?_
    · exact fun k => k.repeats_zero .step
    · intro k n r hk hlt hlater
      rcases hk.step_eq_waited (not_full_of_lt hlt) with ⟨hstep, hsuccess, hmachine⟩
      rw [← hmachine] at hlater
      exact hlater.succ hstep hsuccess
    · rwa [Nat.one_mul]
  rwa [Nat.one_mul, Nat.zero_mul] at hrepeats

/-- Cycles without a key tick the timers as often. -/
theorem Waits.repeats_cycle (h : m.Waits x) {n : Nat} (hn : 1 ≤ n)
    (hcount : m.ticks.count.toNat + n < UInt64.size) : m.Repeats .cycle n (m.waited n n) := by
  have hrepeats : m.Repeats .cycle n (m.waited (1 * n) (1 * n)) := by
    refine h.induction (P := fun k n r => k.Repeats .cycle n r) ?_ ?_ hn ?_
    · exact fun k => k.repeats_zero .cycle
    · intro k n r hk hlt hlater
      rcases hk.step_eq_waited (not_full_of_lt hlt) with ⟨hstep, hsuccess, hmachine⟩
      have hticked : k.stepped.machine.tickTimers = k.waited 1 1 := by
        rw [hmachine, tickTimers_waited]
      rw [← hticked] at hlater
      exact hlater.succ (cycle_of_success hstep hsuccess) hsuccess
    · rwa [Nat.one_mul]
  rwa [Nat.one_mul] at hrepeats

/-- Steps without a key follow one another as those of a frame do. -/
theorem Waits.advances (h : m.Waits x) {n : Nat} (hn : 1 ≤ n)
    (hcount : m.ticks.count.toNat + n < UInt64.size) :
    ∃ outcomes, m.Advances outcomes (m.waited n 0) ∧ outcomes.length = n := by
  have hadvances : ∃ outcomes, m.Advances outcomes (m.waited (1 * n) (0 * n)) ∧
      outcomes.length = n := by
    refine h.induction (P := fun k n r => ∃ outcomes, k.Advances outcomes r ∧ outcomes.length = n)
      ?_ ?_ hn ?_
    · exact fun k => ⟨[], .nil k, rfl⟩
    · rintro k n r hk hlt ⟨outcomes, hlater, hlength⟩
      rcases hk.step_eq_waited (not_full_of_lt hlt) with ⟨hstep, hsuccess, hmachine⟩
      rw [← hmachine] at hlater
      exact ⟨k.stepped :: outcomes, .cons hstep hsuccess hlater, congrArg Nat.succ hlength⟩
    · rwa [Nat.one_mul]
  rwa [Nat.one_mul, Nat.zero_mul] at hadvances

/-! ## Keys pressed in the end -/

/-- The machine after keys go down one after another. -/
def press (m : Machine G) (keys : List UInt8) : Machine G :=
  { m with keypad := m.keypad.afterAll (keys.map .press) }

/-- Pressing keys one after another is what the keypad makes of them. -/
theorem performAll_press (m : Machine G) (keys : List UInt8) :
    m.performAll (keys.map fun key => .keypad (.press key)) = .ok (m.press keys) := by
  induction keys generalizing m with
  | nil => rfl
  | cons key rest ih => exact ih { m with keypad := m.keypad.press key }

omit [RandomSource G] in
/-- With no key held before, the keys held are those that were pressed and are on the pad. -/
theorem Waits.isPressed_press (h : m.Waits x) (keys : List UInt8) (key : UInt8) :
    (m.press keys).keypad.isPressed key = true ↔ key ∈ keys ∧ key ≤ 15 := by
  rw [press, Keypad.lt_of_le_fifteen]
  by_cases hkey : key.toNat < 16
  · rw [Keypad.isPressed_afterAll _ _ hkey, Keypad.Event.lastOn?_map_press, h.idle]
    by_cases hmem : key ∈ keys <;> simp [hmem, hkey, Keypad.Event.presses]
  · simp [Keypad.isPressed_eq_false _ (Nat.le_of_not_lt hkey), hkey]

/-- Keys are pressed, at least one of them on the pad; then the next step takes the lowest
key into Vx, goes on, and leaves the keys alone. -/
def Answers (m : Machine G) (x : UInt8) : Prop :=
  ∀ keys : List UInt8, (∃ key ∈ keys, key ≤ 15) → ∃ pressed key,
    m.performAll (keys.map fun key => .keypad (.press key)) = .ok pressed ∧
      pressed = { m with keypad := pressed.keypad } ∧
      (∀ other, pressed.keypad.isPressed other = true ↔ other ∈ keys ∧ other ≤ 15) ∧
      (key ∈ keys ∧ ∀ other ∈ keys, key ≤ other) ∧
      (pressed.Full ∨ ∃ outcome, pressed.step = .ok outcome ∧
        pressed.Assigns (fun k => if k = x then .ok key else pressed.register k) outcome ∧
        outcome.machine.registers.pc = m.registers.pc + 2 ∧
        outcome.machine.keypad = pressed.keypad)

/-- With a key held, a step takes the lowest one. -/
theorem assigns_of_held {key : UInt8} (hword : m.FetchesDevice x 0x0A)
    (hkey : m.keypad.firstPressed? = some key) (hfull : ¬m.Full) :
    m.step = .ok m.stepped ∧
      m.Assigns (fun k => if k = x then .ok key else m.register k) m.stepped := by
  have hfetched := hword.fetched_waitKey
  have hrange : x.toNat < 16 := inRange_of_fetched hfetched
  have hkey' : m.afterFetch.keypad.firstPressed? = some key := hkey
  have hpc : m.afterFetch.nextPc (.waitKey x) = m.registers.pc + 2 := by
    rw [nextPc, hkey']
    rfl
  have hbytes : m.afterFetch.nextBytes (.waitKey x) = (m.registers.set x key).v := by
    rw [nextBytes, hkey']
    rfl
  have heffect : m.afterFetch.effect (.waitKey x) =
      { m.afterFetch with
        registers := { m.afterFetch.registers with v := (m.registers.set x key).v } } := by
    rw [effect, hpc, hbytes]
    rfl
  rcases assigns_stepped (m.registers.set x key) hfetched (by simp) rfl heffect hfull with
    ⟨hstep, hassigns⟩
  rw [funext (m.registers.read_set_eq key hrange)] at hassigns
  exact ⟨hstep, hassigns⟩

omit [RandomSource G] in
/-- Once a key of the pad has been pressed, there is a lowest one of those pressed. -/
theorem Waits.exists_firstPressed (h : m.Waits x) {keys : List UInt8}
    (hpad : ∃ key ∈ keys, key ≤ 15) :
    ∃ key, (m.press keys).keypad.firstPressed? = some key ∧ key ∈ keys ∧
      ∀ other ∈ keys, key ≤ other := by
  rcases hpad with ⟨other, hother, hpad⟩
  cases hkey : (m.press keys).keypad.firstPressed? with
  | none =>
      have hup := (Keypad.firstPressed?_eq_none_iff _).mp hkey other
      rw [(h.isPressed_press keys other).mpr ⟨hother, hpad⟩] at hup
      cases hup
  | some key =>
      rcases (Keypad.firstPressed?_eq_some_iff _ _).mp hkey with ⟨hheld, hlowest⟩
      rcases (h.isPressed_press keys key).mp hheld with ⟨hamong, hle⟩
      refine ⟨key, rfl, hamong, ?_⟩
      intro other hother
      by_cases hrange : other ≤ 15
      · exact hlowest other ((h.isPressed_press keys other).mpr ⟨hother, hrange⟩)
      · exact UInt8.le_trans hle (UInt8.le_of_lt (UInt8.not_le.mp hrange))

/-- Keys pressed end the waiting. -/
theorem Waits.answers (h : m.Waits x) : m.Answers x := by
  intro keys hpad
  rcases h.exists_firstPressed hpad with ⟨key, hkey, hlowest⟩
  refine ⟨m.press keys, key, m.performAll_press keys, rfl, h.isPressed_press keys, hlowest, ?_⟩
  by_cases hfull : (m.press keys).Full
  · exact Or.inl hfull
  have hword : (m.press keys).FetchesDevice x 0x0A :=
    ⟨h.word.family, h.word.register, h.word.low⟩
  rcases assigns_of_held hword hkey hfull with ⟨hstep, hassigns⟩
  refine Or.inr ⟨(m.press keys).stepped, hstep, hassigns, ?_, ?_⟩ <;> rw [hassigns.rest] <;> rfl

end Machine

/-! ## Many frames -/

namespace Console

variable {console : Console} {x : UInt8}

/-- Frames repeated `n` times run all of their instructions and lead to a console. -/
structure RepeatsFrame (console : Console) (n : Nat) (reached : Console) : Prop where
  success : ∃ outcomes, console.outcomes (.replicate n .frame) = .ok outcomes ∧
    outcomes.length = n ∧ ∀ outcome ∈ outcomes, outcome.result = .ok (some console.ticksPerFrame)
  performed : console.performAll (.replicate n .frame) = .ok reached

/-- The console after frames without a key. -/
def waited (console : Console) (n : Nat) : Console :=
  { console with
    machine := console.machine.waited (console.ticksPerFrame.count.toNat * n) n
    frames := console.frames + UInt64.ofNat n }

/-- Without a key, a frame makes as many attempts as it has instructions and ticks the timers
once, unless it cannot be counted. -/
theorem perform_frame_of_waits (h : console.machine.Waits x)
    (hframe : 1 ≤ console.ticksPerFrame.count.toNat)
    (hcount : console.machine.ticks.count.toNat + console.ticksPerFrame.count.toNat < UInt64.size) :
    (console.frames.toNat < UInt64.size - 1 → ∃ outcome, console.perform .frame = .ok outcome ∧
      outcome.result = .ok (some console.ticksPerFrame) ∧
      outcome.console = { console with
        machine := console.machine.waited console.ticksPerFrame.count.toNat 1
        frames := console.frames + 1 }) ∧
    (console.frames.toNat = UInt64.size - 1 → console.perform .frame = .error .addOverflow) := by
  rcases h.advances hframe hcount with ⟨outcomes, hadvances, hlength⟩
  constructor
  · intro hframes
    rw [perform, runFrame_of_complete hadvances hlength hframes, Checked.ok_bind,
      Machine.tickTimers_waited]
    exact ⟨_, rfl, rfl, rfl⟩
  · intro hframes
    rw [perform, runFrame_of_frames_full hadvances hlength hframes]
    rfl

theorem repeatsFrame_zero (console : Console) : console.RepeatsFrame 0 console :=
  { success := ⟨[], rfl, rfl, by simp⟩, performed := rfl }

theorem RepeatsFrame.succ {n : Nat} {outcome : Outcome} {reached : Console}
    (h : outcome.console.RepeatsFrame n reached) (hperform : console.perform .frame = .ok outcome)
    (hresult : outcome.result = .ok (some console.ticksPerFrame)) :
    console.RepeatsFrame (n + 1) reached := by
  rcases h with ⟨⟨outcomes, houtcomes, hlength, hall⟩, hperformed⟩
  rw [ticksPerFrame_of_perform hperform] at hall
  refine { success := ⟨outcome :: outcomes, ?_, ?_, ?_⟩, performed := ?_ }
  · rw [List.replicate_succ, Console.outcomes, hperform, Checked.ok_bind, houtcomes]
    rfl
  · rw [List.length_cons, hlength]
  · simp only [List.mem_cons, forall_eq_or_imp]
    exact ⟨hresult, hall⟩
  · rw [List.replicate_succ, performAll, hperform]
    exact hperformed

/-- Frames repeated `n` times lead to a console, unless there are too many to be counted. -/
structure CountsFrame (console : Console) (n : Nat) (reached : Console) : Prop where
  counted : console.frames.toNat + n < UInt64.size → console.RepeatsFrame n reached
  crash : UInt64.size ≤ console.frames.toNat + n →
    console.outcomes (.replicate n .frame) = .error .addOverflow

theorem countsFrame_zero (console : Console) : console.CountsFrame 0 console :=
  { counted := fun _ => console.repeatsFrame_zero
    crash := fun h => absurd console.frames.toNat_lt (Nat.not_lt.mpr h) }

/-- One frame more before many of them; at the limit of the frame counter it is already the
one that cannot be counted. -/
theorem CountsFrame.succ {n : Nat} {reached : Console} (h : console.machine.Waits x)
    (hframe : 1 ≤ console.ticksPerFrame.count.toNat)
    (hcount : console.machine.ticks.count.toNat + console.ticksPerFrame.count.toNat < UInt64.size)
    (hlater : CountsFrame
      { console with
        machine := console.machine.waited console.ticksPerFrame.count.toNat 1
        frames := console.frames + 1 } n reached) :
    console.CountsFrame (n + 1) reached := by
  rcases perform_frame_of_waits h hframe hcount with ⟨hcounted, hcrash⟩
  have hlt : console.frames.toNat < UInt64.size := console.frames.toNat_lt
  by_cases hframes : console.frames.toNat = UInt64.size - 1
  · constructor
    · intro hroom
      omega
    · intro _
      rw [List.replicate_succ, outcomes, hcrash hframes]
      rfl
  · rcases hcounted (by omega) with ⟨outcome, hperform, hresult, hconsole⟩
    have hnext : outcome.console.frames.toNat = console.frames.toNat + 1 := by
      rw [hconsole]
      change (console.frames + 1).toNat = _
      rw [UInt64.toNat_add, UInt64.toNat_one]
      have hsize : UInt64.size = 2 ^ 64 := rfl
      omega
    rw [← hconsole] at hlater
    constructor
    · intro hroom
      exact (hlater.counted (by omega)).succ hperform hresult
    · intro hroom
      rw [List.replicate_succ, outcomes, hperform, Checked.ok_bind, hlater.crash (by omega)]
      rfl

/-- Frames without a key tick the timers once each. -/
theorem countsFrame_of_waits (h : console.machine.Waits x)
    (hframe : 1 ≤ console.ticksPerFrame.count.toNat) {n : Nat} (hn : 1 ≤ n)
    (hcount : console.machine.ticks.count.toNat + console.ticksPerFrame.count.toNat * n <
      UInt64.size) : console.CountsFrame n (console.waited n) := by
  rcases console with ⟨m, t, frames⟩
  have hcounts : ∀ frames : UInt64, CountsFrame ⟨m, t, frames⟩ n
      ⟨m.waited (t.count.toNat * n) (1 * n), t, frames + UInt64.ofNat n⟩ := by
    refine h.induction (P := fun k n r => ∀ frames : UInt64,
      CountsFrame ⟨k, t, frames⟩ n ⟨r, t, frames + UInt64.ofNat n⟩) ?_ ?_ hn hcount
    · intro k frames
      have hnone : frames + UInt64.ofNat 0 = frames := UInt64.add_zero frames
      rw [hnone]
      exact countsFrame_zero _
    · intro k n r hk hlt hlater frames
      have hone : frames + UInt64.ofNat (n + 1) = frames + 1 + UInt64.ofNat n := by
        rw [UInt64.ofNat_add, UInt64.add_assoc, UInt64.add_comm 1]
        rfl
      rw [hone]
      exact .succ hk hframe hlt (hlater (frames + 1))
  rw [Nat.one_mul] at hcounts
  exact hcounts frames

/-- While no key is held at an instruction that waits for one, any number of cycles, steps
and frames repeats it: they are counted, the timers run with the cycles and the frames, and
nothing else changes. The timers lose one for every cycle and every frame, down to zero, and
nothing for a step. Keys pressed afterwards let the next step take the lowest of them. -/
theorem blocking_law {G : Type} [RandomSource G] (m : Machine G) (console : Console) (x : UInt8)
    (n : Nat) (hn : 1 ≤ n) :
    (m.Waits x → m.ticks.count.toNat + n < UInt64.size →
      (m.Repeats .cycle n (m.waited n n) ∧ m.timers.CountsDown n (m.waited n n).timers ∧
        (m.waited n n).Answers x) ∧
      m.Repeats .step n (m.waited n 0) ∧ (m.waited n 0).timers = m.timers ∧
        (m.waited n 0).Answers x) ∧
    (console.machine.Waits x → 1 ≤ console.ticksPerFrame.count.toNat →
      console.machine.ticks.count.toNat + console.ticksPerFrame.count.toNat * n < UInt64.size →
      console.CountsFrame n (console.waited n) ∧
        console.machine.timers.CountsDown n (console.waited n).machine.timers ∧
        (console.waited n).machine.Answers x) := by
  constructor
  · intro h hcount
    exact ⟨⟨h.repeats_cycle hn hcount, m.timers.countsDown_tickMany n, (h.after n n).answers⟩,
      h.repeats_step hn hcount, rfl, (h.after n 0).answers⟩
  · intro h hframe hcount
    exact ⟨countsFrame_of_waits h hframe hn hcount, console.machine.timers.countsDown_tickMany n,
      (h.after _ n).answers⟩

/-- A console at an instruction that waits for a key, with its word in the last cell and the
first. -/
def stalled : Console :=
  { Console.new {} with
    machine := { (Machine.powerOn Lcg.standard).setPc 0xFFFF with
      memory := Memory.powerOn.load 0x0FFF [0xF5, 0x0A], timers := ⟨2, 5⟩ } }

/-- A new machine with the waiting instruction in front of it waits for five attempts. -/
theorem waits_stalled : stalled.machine.Waits 5 := by
  have hword : stalled.machine.opcodeAt = 0xF50A := by
    simp [Machine.opcodeAt, stalled, Machine.setPc, Memory.readWord, Memory.read_write]
    rfl
  refine { word := ?_, idle := Keypad.isPressed_released }
  constructor <;> rw [hword] <;> rfl

/-- Three cycles and three frames take three off the timers, as far as they go.  Of the keys
pressed then, the lowest goes to V5, and the program goes on at the second address. -/
theorem blocking_law_stalled :
    (∃ reached pressed outcome,
      stalled.machine.performAll (.replicate 3 .cycle) = .ok reached ∧
      reached.timers = ⟨0, 2⟩ ∧
      reached.performAll ([200, 9, 4].map fun key => .keypad (.press key)) = .ok pressed ∧
      pressed.step = .ok outcome ∧ outcome.machine.register 5 = .ok 4 ∧
      outcome.machine.registers.pc = 0x0001) ∧
    ∃ reached, stalled.performAll (.replicate 3 .frame) = .ok reached ∧ reached.frames = 3 ∧
      reached.machine.ticks.count = 33 ∧ reached.machine.timers = ⟨0, 2⟩ ∧
      reached.machine.registers.pc = 0xFFFF := by
  have hwaits := waits_stalled
  rcases blocking_law stalled.machine stalled 5 3 (by decide) with ⟨hmachine, hconsole⟩
  rcases hmachine hwaits (by decide) with ⟨⟨hcycles, -, hanswers⟩, -⟩
  rcases hconsole hwaits (by decide) (by decide) with ⟨hframes, -⟩
  constructor
  · rcases hanswers [200, 9, 4] ⟨9, by decide, by decide⟩ with
      ⟨pressed, key, hpressed, hsame, -, ⟨hamong, hlowest⟩, hend⟩
    have hticks : pressed.ticks = (stalled.machine.waited 3 3).ticks := congrArg (·.ticks) hsame
    have hfull : ¬pressed.Full := by
      rw [Machine.Full, hticks]
      decide
    rcases hend.resolve_left hfull with ⟨outcome, hstep, hassigns, hpc, -⟩
    have hkey : key = 4 := by
      have hle := hlowest 4 (by decide)
      simp only [List.mem_cons, List.not_mem_nil, or_false] at hamong
      rcases hamong with rfl | rfl | rfl
      · exact absurd hle (by decide)
      · exact absurd hle (by decide)
      · rfl
    subst hkey
    exact ⟨_, pressed, outcome, hcycles.performed, rfl, hpressed, hstep, hassigns.register 5, hpc⟩
  · exact ⟨_, (hframes.counted (by decide)).performed, rfl, rfl, rfl, rfl⟩

end Console

end Chip8
