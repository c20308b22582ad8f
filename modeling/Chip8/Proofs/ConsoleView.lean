import Chip8.Console.Operation
import Chip8.Proofs.View

/-!
# Consoles that look the same

Frames, programs and everything else that is done to two consoles keeps them looking the
same, under any view that shows what every instruction reads.  A frame then runs as many
steps on either, and it ends early on both or on none.

Main results:

- Theorem `Run.Same.extend`: runs of steps look the same, and they crash alike.
- Theorem `Console.Same.outcomes`: so do operations on consoles one after another.
-/

namespace Chip8

/-- Two runs that have come equally far on machines that look the same. -/
structure Run.Same {G : Type} (view : View G) (r s : Run G) : Prop where
  machine : r.machine.Same view s.machine
  completed : r.completed = s.completed
  fault : r.fault = s.fault
  log : r.log = s.log

/-- Two consoles that differ in nothing but what a view leaves out of their machines. -/
structure Console.Same (view : View Lcg) (c d : Console) : Prop where
  machine : c.machine.Same view d.machine
  ticksPerFrame : c.ticksPerFrame = d.ticksPerFrame
  frames : c.frames = d.frames

/-- Two frames with the same result and the same log on consoles that look the same. -/
structure Frame.Same (view : View Lcg) (f g : Frame) : Prop where
  console : f.console.Same view g.console
  result : f.result = g.result
  log : f.log = g.log

/-- Two outcomes with the same result and the same log on consoles that look the same. -/
structure Console.Outcome.Same (view : View Lcg) (o p : Console.Outcome) : Prop where
  console : o.console.Same view p.console
  result : o.result = p.result
  log : o.log = p.log

/-! ## Runs of steps -/

section Runs

variable {G : Type} [RandomSource G] {view : View G}

/-- Runs of steps look the same, and they crash alike, by induction on the steps still to
do. -/
theorem Run.Same.extend {r s : Run G} (h : r.Same view s) (hclosed : view.Closed)
    (hshows : ∀ ins, view.Shows ins) (target : Ticks) :
    Checked.Rel (Run.Same view) (r.extend Machine.step target) (s.extend Machine.step target) := by
  generalize hleft : target.count.toNat - r.completed.count.toNat = left
  induction left using Nat.strongRecOn generalizing r s with
  | ind left ih =>
    by_cases hless : r.completed.count < target.count
    · have hless' : s.completed.count < target.count := h.completed ▸ hless
      rcases (h.machine.perform hclosed hshows .step).cases_eq with
        ⟨crash, hstep, hstep'⟩ | ⟨o, p, hstep, hstep', hsame⟩
      · rw [extend_of_crash hless hstep, extend_of_crash hless' hstep']
        exact .error crash
      · cases hfault : o.fault with
        | some fault =>
            rw [extend_of_fault hless hstep hfault,
              extend_of_fault hless' hstep' (hsame.fault ▸ hfault)]
            exact .ok ⟨hsame.machine, h.completed, rfl, by simp only [h.log, hsame.log]⟩
        | none =>
            rw [extend_of_success hless hstep hfault,
              extend_of_success hless' hstep' (hsame.fault ▸ hfault)]
            have hnext : (r.completed.count + 1).toNat = r.completed.count.toNat + 1 :=
              Ticks.toNat_of_add (Ticks.add_one_of_lt hless)
            rw [UInt64.lt_iff_toNat_lt] at hless
            refine ih _ ?_ ⟨hsame.machine, ?_, h.fault, ?_⟩ rfl
            · simp only [hnext]
              omega
            · simp only [h.completed]
            · simp only [h.log, hsame.log]
    · rw [extend_of_le (UInt64.not_lt.mp hless),
        extend_of_le (h.completed ▸ UInt64.not_lt.mp hless)]
      exact .ok h

/-- Runs of steps from machines that look the same look the same. -/
theorem Machine.Same.run {m n : Machine G} (h : m.Same view n) (hclosed : view.Closed)
    (hshows : ∀ ins, view.Shows ins) (target : Ticks) :
    Checked.Rel (Run.Same view) (m.run Machine.step target) (n.run Machine.step target) := by
  have hstart : Run.Same view { machine := m } { machine := n } := ⟨h, rfl, rfl, rfl⟩
  exact hstart.extend hclosed hshows target

end Runs

/-! ## Consoles -/

namespace Console

variable {view : View Lcg} {c d : Console}

/-- A frame crashes on both consoles alike, or comes to the same result and keeps them
looking the same. -/
theorem Same.runFrame (h : c.Same view d) (hclosed : view.Closed)
    (hshows : ∀ ins, view.Shows ins) :
    Checked.Rel (Frame.Same view) c.runFrame d.runFrame := by
  rw [Console.runFrame, Console.runFrame, ← h.ticksPerFrame, ← h.frames]
  refine (h.machine.run hclosed hshows c.ticksPerFrame).bind ?_
  intro r s hrun
  rw [← hrun.fault]
  cases r.fault with
  | some fault => exact .ok ⟨⟨hrun.machine, rfl, rfl⟩, rfl, hrun.log⟩
  | none =>
      cases Checked.addCount c.frames 1 with
      | error crash => exact .error crash
      | ok frames =>
          exact .ok ⟨⟨hrun.machine.tickTimers hclosed, rfl, rfl⟩,
            congrArg Except.ok hrun.completed, hrun.log⟩

/-- What an operation of the machine comes to looks the same on both consoles. -/
theorem Same.afterMachine (h : c.Same view d) {o p : Chip8.Outcome Lcg}
    (hsame : o.Same view p) :
    (c.afterMachine o).Same view (d.afterMachine p) where
  console := ⟨hsame.machine, h.ticksPerFrame, h.frames⟩
  result := by simp only [Console.afterMachine, hsame.fault]
  log := hsame.log

/-- An operation crashes on both consoles alike or keeps them looking the same. -/
theorem Same.perform (h : c.Same view d) (hclosed : view.Closed)
    (hshows : ∀ ins, view.Shows ins) (op : Operation) :
    Checked.Rel (Outcome.Same view) (c.perform op) (d.perform op) := by
  cases op with
  | frame =>
      refine (h.runFrame hclosed hshows).bind ?_
      intro f g hframe
      exact .ok ⟨hframe.console, congrArg (Except.map some) hframe.result, hframe.log⟩
  | loadProgram image =>
      have hload : (c.machine.loadProgram image).Same view (d.machine.loadProgram image) := by
        have hshown : (Chip8.Operation.loadProgram image).isAttempt = true →
            view.Shows c.machine.fetched := nofun
        exact h.machine.performed hclosed hshown
      exact .ok (h.afterMachine hload)
  | machine op =>
      refine (h.machine.perform hclosed hshows op).bind ?_
      intro o p hsame
      exact .ok (h.afterMachine hsame)

/-- So do operations one after another. -/
theorem Same.outcomes (h : c.Same view d) (hclosed : view.Closed)
    (hshows : ∀ ins, view.Shows ins) (ops : List Operation) :
    Checked.Rel (List.Forall₂ (Outcome.Same view)) (c.outcomes ops) (d.outcomes ops) := by
  induction ops generalizing c d with
  | nil => exact .ok .nil
  | cons op rest ih =>
      refine (h.perform hclosed hshows op).bind ?_
      intro first second houtcome
      refine (ih houtcome.console).bind ?_
      intro later later' hlater
      exact .ok (.cons houtcome hlater)

end Console

end Chip8
