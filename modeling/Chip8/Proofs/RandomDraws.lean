import Chip8.Proofs.History
import Chip8.Random.Lcg

/-!
# One draw for every random instruction

The random source advances when an instruction that asks for a random byte is executed
and at no other time: no fault, no tick, no key, no load and no reset draws from it or
takes it back.  The words drawn are therefore those of the source in their order.

Main results:

- Theorem `Machine.random_reached`: operations advance the source once for every random
  instruction that they execute.
- Theorem `Machine.draw_law`: so it is throughout every history from power-on, and each
  random instruction writes the low byte of its own word.
-/

namespace Chip8

namespace RandomSource

variable {G : Type} [RandomSource G]

/-- A source after `n` draws. -/
def after (g : G) : Nat → G
  | 0 => g
  | n + 1 => (next (after g n)).2

/-- The word drawn after `n` others. -/
def word (g : G) (n : Nat) : UInt32 := (next (after g n)).1

theorem after_next (g : G) (n : Nat) : after (next g).2 n = after g (n + 1) := by
  induction n with
  | zero => rfl
  | succ n ih => rw [after, ih]; rfl

end RandomSource

open RandomSource (after word after_next)

/-- Whether the instruction asks for a random byte. -/
def Instruction.isRandom : Instruction → Bool
  | .random _ _ => true
  | _ => false

namespace Event

variable {G : Type}

/-- The event executes an instruction that asks for a random byte. -/
def draws (event : Event G) : Bool := event.op.isAttempt && event.before.fetched.isRandom

/-- The event puts the low byte of a word, masked by `kk`, into Vx and goes on to the next
instruction. -/
structure Writes (event : Event G) (x kk : UInt8) (word : UInt32) : Prop where
  success : event.outcome.fault = none
  value : ∃ byte, event.outcome.machine.register x = .ok byte ∧
    byte.toNat = (word.toNat % 256) &&& kk.toNat
  others : ∀ y, y ≠ x → event.outcome.machine.register y = event.before.register y
  index : event.outcome.machine.registers.i = event.before.registers.i
  stack : event.outcome.machine.registers.stack = event.before.registers.stack
  pc : event.outcome.machine.registers.pc = event.before.registers.pc + 2

end Event

namespace Machine

variable {G : Type} [RandomSource G]

/-! ## When the source advances -/

theorem nextRandom_eq (m : Machine G) (ins : Instruction) :
    m.nextRandom ins = if ins.isRandom then (RandomSource.next m.random).2 else m.random := by
  cases ins <;> rfl

/-- A step draws once if its instruction asks for a random byte, which is never refused, and
not otherwise. -/
theorem random_stepped (m : Machine G) :
    m.stepped.machine.random =
      if m.fetched.isRandom then (RandomSource.next m.random).2 else m.random := by
  by_cases hfault : m.stepped.fault = none
  · rw [stepped_of_success hfault]
    exact nextRandom_eq m.afterFetch m.fetched
  · have hins : m.fetched.isRandom = false := by
      rw [fault_stepped] at hfault
      cases hins : m.fetched with
      | random x kk =>
          rw [hins] at hfault
          exact absurd rfl hfault
      | _ => rfl
    rw [stepped_of_refused hfault, hins]
    rfl

theorem random_cycled (m : Machine G) : m.cycled.machine.random = m.stepped.machine.random := by
  unfold cycled Outcome.ticked
  split <;> rfl

theorem random_performed (m : Machine G) (op : Operation) :
    (m.performed op).machine.random =
      if (m.event op).draws then (RandomSource.next m.random).2 else m.random := by
  cases op with
  | step => exact random_stepped m
  | cycle => exact (random_cycled m).trans (random_stepped m)
  | setStack entries =>
      simp only [performed, Outcome.done, setStack]
      rfl
  | loadProgram image =>
      simp only [performed, loadProgram]
      split <;> rfl
  | _ => rfl

/-- Operations advance the source once for every random instruction that they
execute. -/
theorem random_reached (m : Machine G) (ops : List Operation) :
    (m.reached ops).random = after m.random ((m.events ops).countP Event.draws) := by
  induction ops generalizing m with
  | nil => rfl
  | cons op rest ih =>
      rw [reached, ih, random_performed, events, List.countP_cons]
      split
      · exact after_next m.random _
      · rfl

/-! ## What a draw writes -/

/-- A random instruction puts the low byte of the next word, masked, into its register. -/
theorem writes_of_random {m : Machine G} {op : Operation} (hattempt : op.isAttempt = true)
    {x kk : UInt8} (hins : m.fetched = .random x kk) :
    (m.event op).Writes x kk (RandomSource.next m.random).1 := by
  obtain ⟨hfault, hregisters⟩ := m.performed_of_isAttempt hattempt
  have hsuccess : m.stepped.fault = none := by rw [fault_stepped, hins]; rfl
  have hx : x.toNat < 16 := inRange_of_fetched hins
  let byte := (RandomSource.next m.random).1.toUInt8 &&& kk
  have heffect : (m.performed op).machine.registers =
      (m.afterFetch.effect (.random x kk)).registers := by
    rw [hregisters, stepped_of_success hsuccess, hins]
  have hread (y : UInt8) : (m.performed op).machine.register y =
      if x = y then .ok byte else m.register y := by
    rw [register, heffect]
    exact m.registers.read_set byte hx y
  exact
    { success := hfault.trans hsuccess
      value := ⟨byte, by rw [event, hread, if_pos rfl], by simp [byte]⟩
      others := by
        intro y hy
        rw [event, hread, if_neg (Ne.symm hy)]
      index := (congrArg Registers.i heffect :)
      stack := (congrArg Registers.stack heffect :)
      pc := (congrArg Registers.pc heffect :) }

/-- From power-on, and through any resets, the source has been advanced once for every
random instruction executed so far, and each of them writes the low byte of the word that
is its turn. -/
theorem draw_law (g : G) (ops : List Operation) :
    (powerOn g).Overflows ops ∨ ∃ events, (powerOn g).history ops = .ok events ∧
      ∀ front event back, events = front ++ event :: back →
        event.before.random = after g (front.countP Event.draws) ∧
        event.outcome.machine.random = after g ((front ++ [event]).countP Event.draws) ∧
        ∀ x kk, event.op.isAttempt = true → event.before.fetched = .random x kk →
          event.Writes x kk (word g (front.countP Event.draws)) := by
  by_cases hover : (powerOn g).Overflows ops
  · exact Or.inl hover
  · refine Or.inr ⟨(powerOn g).events ops, history_eq (depth_powerOn_le g) hover, ?_⟩
    intro front event back hevents
    obtain ⟨earlier, op, later, rfl, rfl, rfl, rfl⟩ := events_eq_append_cons hevents
    have hbefore := random_reached (powerOn g) earlier
    refine ⟨hbefore, ?_, ?_⟩
    · have hafter := random_reached (powerOn g) (earlier ++ [op])
      rw [reached_append, events_concat] at hafter
      exact hafter
    · intro x kk hattempt hins
      have hword : word g (((powerOn g).events earlier).countP Event.draws) =
          (RandomSource.next ((powerOn g).reached earlier).random).1 := by
        rw [hbefore]
        rfl
      rw [hword]
      exact writes_of_random hattempt hins

/-- A draw, a reset, and a program that draws again. -/
def drawAndReset : List Operation :=
  [.load 0x200 [0xC0, 0xFF], .cycle, .reset, .load 0x200 [0xC1, 0x0F]]

/-- The draw after the reset gets the second word of the source, 0x13B642BB. -/
theorem draw_law_drawAndReset :
    ∃ front last, (powerOn Lcg.standard).history (drawAndReset ++ [.step]) = .ok (front ++ [last]) ∧
      front.countP Event.draws = 1 ∧ last.outcome.machine.register 1 = .ok 0x0B := by
  have hover : ¬(powerOn Lcg.standard).Overflows (drawAndReset ++ [.step]) :=
    not_overflows_of_lt (by decide) (by decide)
  have hrun : ((powerOn Lcg.standard).events drawAndReset).countP Event.draws = 1 ∧
      ((powerOn Lcg.standard).reached drawAndReset).fetched = .random 1 0x0F := by
    decide +kernel
  obtain ⟨hcount, hins⟩ := hrun
  rcases draw_law Lcg.standard (drawAndReset ++ [.step]) with hlimit | ⟨events, hevents, hdraws⟩
  · exact absurd hlimit hover
  · have hhistory := history_eq (depth_powerOn_le Lcg.standard) hover
    obtain rfl := Except.ok.inj (hhistory.symm.trans hevents)
    rw [events_concat] at hevents hdraws
    obtain ⟨-, -, hwrites⟩ := hdraws _ _ [] rfl
    obtain ⟨byte, hbyte, hvalue⟩ := (hwrites 1 0x0F rfl hins).value
    rw [hcount] at hvalue
    obtain rfl : byte = 0x0B := UInt8.toNat_inj.mp (hvalue.trans (by decide))
    exact ⟨_, _, hevents, hcount, hbyte⟩

end Machine

end Chip8
