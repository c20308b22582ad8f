import Mathlib.Data.List.Forall2
import Chip8.Proofs.History

/-!
# Machines that look the same

A view leaves out something of the timers or of the random source and compares all the
rest of two machines.  Only two instructions read those parts: one puts the delay timer
into a register, the other a random byte.  Machines that look the same therefore go on
looking the same, with the same faults and the same log, as long as the view shows what
the instructions executed read.

Main results:

- Theorem `Machine.Same.stepped`: a step keeps two machines looking the same if the view
  shows what its instruction reads.
- Theorem `Machine.Same.perform`: so does every operation under a view that shows what
  every instruction reads, and both machines crash alike.
- Theorem `Machine.Same.outcomes`: so do operations one after another.
-/

namespace Chip8

/-- Two checked results that are the same crash or related answers. -/
inductive Checked.Rel {α β : Type} (R : α → β → Prop) : Checked α → Checked β → Prop
  | error (crash : Crash) : Rel R (.error crash) (.error crash)
  | ok {a : α} {b : β} (h : R a b) : Rel R (.ok a) (.ok b)

/-- Related computations with related continuations are related. -/
theorem Checked.Rel.bind {α β γ δ : Type} {R : α → β → Prop} {S : γ → δ → Prop}
    {x : Checked α} {y : Checked β} {f : α → Checked γ} {g : β → Checked δ} (h : Rel R x y)
    (hrest : ∀ a b, R a b → Rel S (f a) (g b)) : Rel S (x >>= f) (y >>= g) := by
  cases h with
  | error crash => exact .error crash
  | ok hab => exact hrest _ _ hab

theorem Checked.Rel.imp {α β : Type} {R S : α → β → Prop} {x : Checked α} {y : Checked β}
    (h : Rel R x y) (hrel : ∀ a b, R a b → S a b) : Rel S x y := by
  cases h with
  | error crash => exact .error crash
  | ok hab => exact .ok (hrel _ _ hab)

/-- Related results are the same crash or two related answers. -/
theorem Checked.Rel.cases_eq {α β : Type} {R : α → β → Prop} {x : Checked α} {y : Checked β}
    (h : Rel R x y) :
    (∃ crash, x = .error crash ∧ y = .error crash) ∨ ∃ a b, x = .ok a ∧ y = .ok b ∧ R a b := by
  cases h with
  | error crash => exact Or.inl ⟨crash, rfl, rfl⟩
  | ok hab => exact Or.inr ⟨_, _, rfl, rfl, hab⟩

/-! ## Views -/

/-- Which timers and which random sources look the same. -/
structure View (G : Type) where
  timers : Timers → Timers → Prop
  random : G → G → Prop

namespace View

variable {G : Type}

/-- Whatever is done to timers that look the same, they look the same afterwards. -/
structure Closed (view : View G) : Prop where
  refl : ∀ t, view.timers t t
  tick : ∀ s t, view.timers s t → view.timers s.tick t.tick
  delay : ∀ s t byte, view.timers s t →
    view.timers { s with delay := byte } { t with delay := byte }
  sound : ∀ s t byte, view.timers s t →
    view.timers { s with sound := byte } { t with sound := byte }

/-- A view that shows both timers is closed. -/
theorem closed_eq (random : G → G → Prop) : Closed { timers := Eq, random } where
  refl _ := rfl
  tick s t h := by obtain rfl : s = t := h; rfl
  delay s t byte h := by obtain rfl : s = t := h; rfl
  sound s t byte h := by obtain rfl : s = t := h; rfl

/-- The view shows what an instruction reads of the timers and of the random source. -/
def Shows [RandomSource G] (view : View G) : Instruction → Prop
  | .getDelay _ => ∀ s t, view.timers s t → s.delay = t.delay
  | .random _ _ => ∀ g h, view.random g h →
    (RandomSource.next g).1.toUInt8 = (RandomSource.next h).1.toUInt8 ∧
      view.random (RandomSource.next g).2 (RandomSource.next h).2
  | _ => True

end View

/-- Two machines, with at most sixteen return addresses, that differ in nothing but what a
view leaves out. -/
structure Machine.Same {G : Type} (view : View G) (m n : Machine G) : Prop where
  registers : m.registers = n.registers
  depth_le : m.registers.stack.depth.toNat ≤ 16
  memory : m.memory = n.memory
  screen : m.screen = n.screen
  keypad : m.keypad = n.keypad
  timers : view.timers m.timers n.timers
  random : view.random m.random n.random
  ticks : m.ticks = n.ticks

/-- Two outcomes with the same fault and the same log on machines that look the same. -/
structure Outcome.Same {G : Type} (view : View G) (o p : Outcome G) : Prop where
  machine : o.machine.Same view p.machine
  fault : o.fault = p.fault
  log : o.log = p.log

namespace Machine

variable {G : Type} {view : View G} {m n : Machine G}

/-- New machines look the same if their random sources do. -/
theorem same_powerOn (hclosed : view.Closed) {g h : G} (hrandom : view.random g h) :
    (powerOn g).Same view (powerOn h) :=
  ⟨rfl, depth_powerOn_le g, rfl, rfl, rfl, hclosed.refl _, hrandom, rfl⟩

theorem Same.done (h : m.Same view n) : (Outcome.done m).Same view (.done n) :=
  ⟨h, rfl, rfl⟩

/-! ## Parts of machines that look the same -/

/-- Machines that look the same refuse the same instructions with the same faults. -/
theorem Same.refusal (h : m.Same view n) (ins : Instruction) :
    m.refusal? ins = n.refusal? ins := by
  cases ins <;> simp only [refusal?, instructionAddress, h.registers]

theorem Same.remarks (h : m.Same view n) (ins : Instruction) : m.remarks ins = n.remarks ins := by
  simp only [Machine.remarks, instructionAddress, h.registers]

/-- Machines that look the same agree on whether an instruction skips. -/
theorem Same.skips (h : m.Same view n) (ins : Instruction) : m.skips ins = n.skips ins := by
  cases ins <;> simp only [Machine.skips, h.registers, h.keypad]

theorem Same.nextPc (h : m.Same view n) (ins : Instruction) : m.nextPc ins = n.nextPc ins := by
  cases ins <;> simp only [Machine.nextPc, h.registers, h.keypad, h.skips]

theorem Same.nextIndex (h : m.Same view n) (ins : Instruction) :
    m.nextIndex ins = n.nextIndex ins := by
  cases ins <;> simp only [Machine.nextIndex, h.registers]

theorem Same.nextStack (h : m.Same view n) (ins : Instruction) :
    m.nextStack ins = n.nextStack ins := by
  cases ins <;> simp only [Machine.nextStack, h.registers]

/-- No instruction stores a timer or a random byte, so the memories stay equal. -/
theorem Same.nextMemory (h : m.Same view n) (ins : Instruction) :
    m.nextMemory ins = n.nextMemory ins := by
  cases ins <;> simp only [Machine.nextMemory, h.registers, h.memory]

theorem Same.drawn (h : m.Same view n) (x y rows : UInt8) : m.drawn x y rows = n.drawn x y rows := by
  simp only [Machine.drawn, sprite, h.registers, h.memory, h.screen]

theorem Same.nextScreen (h : m.Same view n) (ins : Instruction) :
    m.nextScreen ins = n.nextScreen ins := by
  cases ins <;> simp only [Machine.nextScreen, h.drawn, h.screen]

/-- Setting a timer sets it to the same byte on both machines. -/
theorem Same.nextTimers (h : m.Same view n) (hclosed : view.Closed) (ins : Instruction) :
    view.timers (m.nextTimers ins) (n.nextTimers ins) := by
  cases ins with
  | setDelay x =>
      rw [Machine.nextTimers, Machine.nextTimers, h.registers]
      exact hclosed.delay _ _ _ h.timers
  | setSound x =>
      rw [Machine.nextTimers, Machine.nextTimers, h.registers]
      exact hclosed.sound _ _ _ h.timers
  | _ => exact h.timers

theorem Same.opcodeAt (h : m.Same view n) : m.opcodeAt = n.opcodeAt := by
  rw [Machine.opcodeAt, Machine.opcodeAt, h.memory, h.registers]

/-- Machines that look the same fetch the same instruction. -/
theorem Same.fetched (h : m.Same view n) : m.fetched = n.fetched :=
  congrArg Instruction.decode h.opcodeAt

theorem Same.afterFetch (h : m.Same view n) : m.afterFetch.Same view n.afterFetch :=
  { h with
    registers := by simp only [Machine.afterFetch, h.registers, h.opcodeAt]
    ticks := by simp only [Machine.afterFetch, h.ticks] }

/-- Machines that look the same have counted as many attempts. -/
theorem Same.full_iff (h : m.Same view n) : m.Full ↔ n.Full := by
  rw [Full, Full, h.ticks]

theorem Same.setStack (h : m.Same view n) {stack : CallStack} (hdepth : stack.depth.toNat ≤ 16) :
    (m.setStack stack).Same view (n.setStack stack) :=
  { h with
    registers := by simp only [Machine.setStack, h.registers]
    depth_le := hdepth }

/-- Machines that look the same do so after a tick of both. -/
theorem Same.tickTimers (h : m.Same view n) (hclosed : view.Closed) :
    m.tickTimers.Same view n.tickTimers :=
  { h with timers := hclosed.tick _ _ h.timers }

variable [RandomSource G]

/-- Where the view shows what the instruction reads, it leaves the same bytes in the
registers. -/
theorem Same.nextBytes (h : m.Same view n) {ins : Instruction} (hshows : view.Shows ins) :
    m.nextBytes ins = n.nextBytes ins := by
  cases ins with
  | getDelay x =>
      have hdelay : m.timers.delay = n.timers.delay := hshows _ _ h.timers
      simp only [Machine.nextBytes, h.registers, hdelay]
  | random x kk =>
      have hbyte := (hshows _ _ h.random).1
      simp only [Machine.nextBytes, h.registers, hbyte]
  | loadRegisters x => simp only [Machine.nextBytes, loaded, h.registers, h.memory]
  | _ => simp only [Machine.nextBytes, h.registers, h.drawn, h.keypad]

/-- Where the view shows what the instruction draws, the sources look the same afterwards.
-/
theorem Same.nextRandom (h : m.Same view n) {ins : Instruction} (hshows : view.Shows ins) :
    view.random (m.nextRandom ins) (n.nextRandom ins) := by
  cases ins with
  | random x kk => exact (hshows _ _ h.random).2
  | _ => exact h.random

/-- An instruction that is not refused keeps two machines looking the same if the view
shows what it reads. -/
theorem Same.effect (h : m.Same view n) (hclosed : view.Closed) {ins : Instruction}
    (hins : m.refusal? ins = none) (hshows : view.Shows ins) :
    (m.effect ins).Same view (n.effect ins) where
  registers := by
    simp only [Machine.effect, h.registers, h.nextBytes hshows, h.nextIndex, h.nextPc, h.nextStack]
  depth_le := depth_effect_le h.depth_le hins
  memory := h.nextMemory ins
  screen := h.nextScreen ins
  keypad := h.keypad
  timers := h.nextTimers hclosed ins
  random := h.nextRandom hshows
  ticks := h.ticks

/-- An instruction comes to outcomes that look the same, refused or not. -/
theorem Same.executed (h : m.Same view n) (hclosed : view.Closed) {ins : Instruction}
    (hshows : view.Shows ins) : (m.executed ins).Same view (n.executed ins) where
  machine := by
    rw [Machine.executed, Machine.executed, ← h.refusal ins]
    cases hins : m.refusal? ins with
    | none => exact h.effect hclosed hins hshows
    | some fault => exact h
  fault := h.refusal ins
  log := h.remarks ins

/-! ## Operations on machines that look the same -/

/-- A step keeps two machines looking the same if the view shows what its instruction
reads. -/
theorem Same.stepped (h : m.Same view n) (hclosed : view.Closed)
    (hshows : view.Shows m.fetched) : m.stepped.Same view n.stepped := by
  have hexecuted := h.afterFetch.executed hclosed hshows
  rw [Machine.stepped, Machine.stepped, ← h.fetched, ← h.opcodeAt, ← h.registers]
  exact ⟨hexecuted.machine, hexecuted.fault, by simp only [hexecuted.log, hexecuted.fault]⟩

end Machine

/-- Outcomes that look the same do so when the timers tick after a success. -/
theorem Outcome.Same.ticked {G : Type} {view : View G} {o p : Outcome G} (h : o.Same view p)
    (hclosed : view.Closed) : o.ticked.Same view p.ticked := by
  have hrefused : p.fault.isSome = o.fault.isSome := congrArg Option.isSome h.fault.symm
  unfold Outcome.ticked
  rw [hrefused]
  split
  · exact h
  · exact { h with machine := h.machine.tickTimers hclosed }

namespace Machine

variable {G : Type} [RandomSource G] {view : View G} {m n : Machine G}

/-- An operation keeps two machines looking the same if the view shows what it reads. -/
theorem Same.performed (h : m.Same view n) (hclosed : view.Closed) {op : Operation}
    (hshows : op.isAttempt = true → view.Shows m.fetched) :
    (m.performed op).Same view (n.performed op) := by
  cases op with
  | step => exact h.stepped hclosed (hshows rfl)
  | cycle => exact (h.stepped hclosed (hshows rfl)).ticked hclosed
  | tickTimers => exact (h.tickTimers hclosed).done
  | reset => exact ⟨same_powerOn hclosed h.random, rfl, rfl⟩
  | loadProgram image =>
      rw [Machine.performed, Machine.performed, loadProgram, loadProgram, h.memory]
      cases n.memory.loadProgram image with
      | ok memory => exact ⟨{ h with memory := rfl }, rfl, rfl⟩
      | error fault => exact ⟨h, rfl, rfl⟩
  | load addr bytes => exact Same.done { h with memory := by simp only [h.memory] }
  | write addr byte => exact Same.done { h with memory := by simp only [h.memory] }
  | keypad event => exact Same.done { h with keypad := by simp only [h.keypad] }
  | setPc pc => exact Same.done { h with registers := by simp only [setPc, h.registers] }
  | setIndex i => exact Same.done { h with registers := by simp only [setIndex, h.registers] }
  | setRegister x byte => exact Same.done { h with registers := by simp only [h.registers] }
  | setStack entries => exact (h.setStack (CallStack.depth_ofEntries_le entries)).done
  | setTimers delay sound => exact Same.done { h with timers := hclosed.refl _ }

/-- Under a view that shows what every instruction reads, an operation crashes on both
machines alike or keeps them looking the same. -/
theorem Same.perform (h : m.Same view n) (hclosed : view.Closed)
    (hshows : ∀ ins, view.Shows ins) (op : Operation) :
    Checked.Rel (Outcome.Same view) (m.perform op) (n.perform op) := by
  have hdepth : n.registers.stack.depth.toNat ≤ 16 := h.registers ▸ h.depth_le
  by_cases hnow : op.isAttempt = true ∧ m.Full
  · rw [perform_of_full hnow.1 hnow.2, perform_of_full hnow.1 (h.full_iff.mp hnow.2)]
    exact .error .addOverflow
  · rw [not_and] at hnow
    rw [perform_eq h.depth_le hnow,
      perform_eq hdepth fun hattempt hfull => hnow hattempt (h.full_iff.mpr hfull)]
    exact .ok (h.performed hclosed fun _ => hshows m.fetched)

/-- So do operations one after another. -/
theorem Same.outcomes (h : m.Same view n) (hclosed : view.Closed)
    (hshows : ∀ ins, view.Shows ins) (ops : List Operation) :
    Checked.Rel (List.Forall₂ (Outcome.Same view)) (m.outcomes ops) (n.outcomes ops) := by
  induction ops generalizing m n with
  | nil => exact .ok .nil
  | cons op rest ih =>
      refine (h.perform hclosed hshows op).bind ?_
      intro first second houtcome
      refine (ih houtcome.machine).bind ?_
      intro later later' hlater
      exact .ok (.cons houtcome hlater)

end Machine

end Chip8
