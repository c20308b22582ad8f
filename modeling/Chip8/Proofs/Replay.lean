import Chip8.Memory.Blocks
import Chip8.Proofs.Lockstep
import Chip8.Proofs.RandomDraws

/-!
# Replay after a reset

A reset leaves nothing of what was done before it but the place that the random source has
come to.  Until an instruction asks for a random byte nothing reads that place, so that
whatever was done to a new machine comes out the same when it is done again after a reset.

Main results:

- Theorem `Machine.agreeToDraw_replay`: what was done to a new machine, done again after a
  reset, makes a history that agrees up to the first draw, and is equal if there is none.
- Theorem `Machine.replay_law`: so it is for a program loaded and driven by any schedule,
  and for any two machines that differ in their random sources alone.
-/

namespace Chip8

variable {G : Type}

/-! ## Machines with different random sources -/

/-- Everything but the random source. -/
def View.withoutRandom : View G where
  timers := Eq
  random _ _ := True

theorem View.closed_withoutRandom : (View.withoutRandom : View G).Closed := closed_eq _

variable [RandomSource G]

theorem Event.shown_withoutRandom {event : Event G} (h : ¬event.draws = true) :
    event.Shown .withoutRandom := by
  intro hattempt
  rw [Event.draws, hattempt, Bool.true_and] at h
  cases hins : event.before.fetched with
  | random x kk => rw [hins] at h; exact absurd rfl h
  | getDelay x => exact fun _ _ => congrArg Timers.delay
  | _ => trivial

/-- Two histories agree event by event up to the first draw of the first of them. -/
def Event.AgreeToDraw (first second : List (Event G)) : Prop :=
  ∀ k, (∀ e ∈ first.take k, ¬e.draws = true) →
    List.Forall₂ (Event.Same .withoutRandom) (first.take k) (second.take k)

theorem View.Lockstep.agreeToDraw {first second : List (Event G)}
    (h : View.withoutRandom.Lockstep first second) : Event.AgreeToDraw first second := by
  intro k hdraws
  apply h.take
  intro e he
  exact Event.shown_withoutRandom (hdraws e he)

namespace Machine

variable {m : Machine G}

/-- Operations without a draw leave the random source where it was. -/
theorem random_reached_of_no_draw {ops : List Operation}
    (h : ∀ e ∈ m.events ops, ¬e.draws = true) : (m.reached ops).random = m.random := by
  rw [random_reached, List.countP_eq_zero.mpr h]
  rfl

/-! ## Doing it again -/

/-- What was done to a new machine does not overflow when it is done again after a reset. -/
theorem not_overflows_replay (g : G) {ops : List Operation} (h : ¬(powerOn g).Overflows ops) :
    ¬(powerOn g).Overflows (ops ++ .reset :: ops) := by
  have hreached := depth_reached_le (depth_powerOn_le g) ops
  rw [overflows_append (depth_powerOn_le g), not_or]
  refine ⟨h, ?_⟩
  rw [overflows_cons hreached, or_iff_right fun hnow => absurd hnow.1 nofun]
  have hreset : (((powerOn g).reached ops).performed .reset).machine =
      powerOn ((powerOn g).reached ops).random := reset_eq_powerOn _
  rw [hreset, overflows_congr (depth_powerOn_le ((powerOn g).reached ops).random)
    (depth_powerOn_le g) rfl]
  exact h

/-- The history of operations, a reset and the operations again. -/
theorem events_replay (g : G) (ops : List Operation) :
    (powerOn g).events (ops ++ .reset :: ops) =
      (powerOn g).events ops ++ ((powerOn g).reached ops).event .reset ::
        (powerOn ((powerOn g).reached ops).random).events ops :=
  events_append (powerOn g) ops (.reset :: ops)

/-- Done again after a reset, what was done to a new machine comes out as it did up to the
first draw, and altogether if nothing was drawn: the source has then not moved, and both
runs start from the same machine. -/
theorem agreeToDraw_replay (g : G) (ops : List Operation) :
    let again := powerOn ((powerOn g).reached ops).random
    Event.AgreeToDraw ((powerOn g).events ops) (again.events ops) ∧
      ((∀ e ∈ (powerOn g).events ops, ¬e.draws = true) →
        again.events ops = (powerOn g).events ops) := by
  intro again
  refine ⟨?_, ?_⟩
  · have hsame : (powerOn g).Same .withoutRandom again :=
      same_powerOn View.closed_withoutRandom trivial
    exact (hsame.lockstep View.closed_withoutRandom ops).events.agreeToDraw
  · intro hdraws
    have hrandom := random_reached_of_no_draw hdraws
    simp only [again, hrandom]
    rfl

/-- A reset is a power-on that keeps the random source.  Machines that differ in nothing but
their random sources do the same up to the first draw.  A program that is loaded into a new
machine and driven by any schedule therefore does the same once more after a reset, up to
the first draw, and altogether if nothing was drawn. -/
theorem replay_law (G : Type) [RandomSource G] :
    (∀ m : Machine G, m.perform .reset = .ok (boot m.random)) ∧
    (∀ m n : Machine G, m.Same .withoutRandom n → ∀ ops,
      Checked.Rel Event.AgreeToDraw (m.history ops) (n.history ops)) ∧
    ∀ (g : G) (image : List UInt8) (schedule : List Operation),
      let ops := .loadProgram image :: schedule
      (powerOn g).Overflows ops ∨ ∃ first reset second,
        (powerOn g).history ops = .ok first ∧
        (powerOn g).history (ops ++ .reset :: ops) = .ok (first ++ reset :: second) ∧
        Event.AgreeToDraw first second ∧
        ((∀ e ∈ first, ¬e.draws = true) → second = first) := by
  refine ⟨?_, ?_, ?_⟩
  · intro m
    rw [perform, reboot, reset_eq_powerOn]
    rfl
  · intro m n h ops
    exact (h.history View.closed_withoutRandom ops).imp fun _ _ => View.Lockstep.agreeToDraw
  · intro g image schedule ops
    by_cases hover : (powerOn g).Overflows ops
    · exact Or.inl hover
    · have hagain := history_eq (depth_powerOn_le g) (not_overflows_replay g hover)
      rw [events_replay] at hagain
      exact Or.inr ⟨_, _, _, history_eq (depth_powerOn_le g) hover, hagain,
        agreeToDraw_replay g ops⟩

/-- The program that waits for a key and then draws a random byte. -/
def keyThenDraw : List UInt8 := [0xF1, 0x0A, 0xC2, 0xFF]

/-- The key that the first run found is found once more after the reset, although the first
run went on to draw. -/
theorem replay_law_keyThenDraw :
    let ops := [.loadProgram keyThenDraw, .keypad (.press 3), .step, .step]
    ∃ front event back,
      (powerOn Lcg.standard).history (ops ++ .reset :: ops) = .ok (front ++ event :: back) ∧
      front.length = 7 ∧ event.outcome.machine.register 1 = .ok 3 := by
  intro ops
  let loaded : Machine Lcg :=
    { powerOn Lcg.standard with memory := Memory.powerOn.load Memory.programStart keyThenDraw }
  let pressed := (loaded.performed (.keypad (.press 3))).machine
  let waited := (pressed.performed .step).machine
  have hload : (powerOn Lcg.standard).performed (.loadProgram keyThenDraw) =
      { machine := loaded, log := #[.loaded 4] } := by
    have hfits : keyThenDraw.length ≤ Memory.maxProgramSize := by decide
    exact loadProgram_of_ok (Memory.loadProgram_eq_load _ hfits)
  have hover : ¬(powerOn Lcg.standard).Overflows ops :=
    not_overflows_of_lt (by decide) (by decide)
  have hrun : pressed.fetched = .waitKey 1 ∧ waited.register 1 = .ok 3 := by decide +kernel
  rcases (replay_law Lcg).2.2 Lcg.standard keyThenDraw [.keypad (.press 3), .step, .step] with
    h | ⟨first, reset, second, hfirst, hboth, hagree, -⟩
  · exact absurd h hover
  have hevents : first = [(powerOn Lcg.standard).event (.loadProgram keyThenDraw),
      loaded.event (.keypad (.press 3)), pressed.event .step, waited.event .step] := by
    have hhistory := history_eq (depth_powerOn_le Lcg.standard) hover
    rw [Except.ok.inj (hfirst.symm.trans hhistory), events, hload]
    rfl
  have hdraws : ∀ e ∈ first.take 3, ¬e.draws = true := by
    rw [hevents]
    simp [Event.draws, event, Operation.isAttempt, hrun.1, Instruction.isRandom]
  have hthree := hagree 3 hdraws
  rw [hevents] at hthree
  simp only [List.take_succ_cons, List.take_zero, List.forall₂_cons_left_iff,
    List.forall₂_nil_left_iff] at hthree
  obtain ⟨first', _, -, ⟨second', _, -, ⟨third', _, hsame, rfl, rfl⟩, rfl⟩, htake⟩ := hthree
  have hsplit : second = [first', second'] ++ third' :: second.drop 3 := by
    calc
      second = second.take 3 ++ second.drop 3 := (List.take_append_drop 3 second).symm
      _ = [first', second'] ++ third' :: second.drop 3 := by rw [htake]; rfl
  refine ⟨first ++ reset :: [first', second'], third', second.drop 3, ?_, ?_, ?_⟩
  · rw [hboth, hsplit]
    simp
  · rw [hevents]
    rfl
  · rw [register, ← hsame.outcome.machine.registers]
    exact hrun.2

end Machine

end Chip8
