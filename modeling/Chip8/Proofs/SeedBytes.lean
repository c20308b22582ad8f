import Chip8.Proofs.ConsoleView
import Chip8.Proofs.Replay
import Chip8.Proofs.Unroll

/-!
# Only the low byte of a seed matters

A random instruction gets the low byte of a word, and the low byte of the next word
depends on the low byte of the seed alone: a draw multiplies and adds, and neither
carries downwards.  Seeds that agree in it therefore cannot be told apart.  The factor
is odd, so that different low bytes give different words: the first draw of an unmasked
byte tells any others apart.

Main results:

- Theorem `Lcg.toNat_step_mod`: the low byte of the next seed in terms of the last.
- Theorem `Machine.first_draw`: what the first draw of an unmasked byte leaves.
- Theorem `Console.seed_law`: consoles that differ in their seeds are alike if the low
  bytes of the seeds agree, and the first unmasked draw tells them apart if not.
-/

namespace Chip8

namespace Lcg

/-- The low byte of the next seed; 109 and 57 are those of the factor and the summand. -/
theorem toNat_step_mod (seed : UInt32) :
    (step seed).toNat % 256 = (seed.toNat * 109 + 57) % 256 := by
  have hfactor : multiplier.toNat = 1103515245 := rfl
  have hsummand : increment.toNat = 12345 := rfl
  rw [toNat_step, hfactor, hsummand]
  omega

/-- Seeds draw words with the same low byte exactly if they have the same low byte. -/
theorem step_mod_eq_iff (s s' : UInt32) :
    (step s).toNat % 256 = (step s').toNat % 256 ↔ s.toNat % 256 = s'.toNat % 256 := by
  rw [toNat_step_mod, toNat_step_mod]
  omega

end Lcg

/-! ## Seeds with the same low byte -/

/-- Everything but the seed, of which only the low byte is compared. -/
def View.withoutSeed : View Lcg where
  timers := Eq
  random g h := g.seed.toNat % 256 = h.seed.toNat % 256

theorem View.closed_withoutSeed : View.withoutSeed.Closed := closed_eq _

/-- The low byte of the seed is all that a random instruction reads of it. -/
theorem View.shows_withoutSeed (ins : Instruction) : View.withoutSeed.Shows ins := by
  cases ins with
  | getDelay x => exact fun _ _ => congrArg Timers.delay
  | random x kk =>
      intro g h hseed
      have hstep := (Lcg.step_mod_eq_iff g.seed h.seed).mpr hseed
      refine ⟨UInt8.toNat_inj.mp ?_, hstep⟩
      change (Lcg.step g.seed).toUInt8.toNat = (Lcg.step h.seed).toUInt8.toNat
      rw [UInt32.toNat_toUInt8, UInt32.toNat_toUInt8]
      exact hstep
  | _ => trivial

theorem Machine.Same.read {m n : Machine Lcg} (h : m.Same .withoutSeed n) (probe : Probe) :
    m.read probe = n.read probe := by
  have htimers : m.timers = n.timers := h.timers
  cases probe <;> simp only [Machine.read, h.registers, h.keypad, h.screen, h.ticks, htimers]

/-- No query tells the consoles apart. -/
theorem Console.Same.query? {c d : Console} (h : c.Same .withoutSeed d) (path : String) :
    c.query? path = d.query? path := by
  have hread (probe : Console.Probe) : c.read probe = d.read probe := by
    cases probe with
    | frames => simp only [Console.read, h.frames]
    | ticks => simp only [Console.read, h.machine.ticks]
    | machine probe => exact h.machine.read probe
  rw [Console.query?, Console.query?, funext hread]

/-! ## The first draw -/

theorem Event.countP_draws_eq {G : Type} [RandomSource G] {view : View G}
    {events events' : List (Event G)} (h : List.Forall₂ (Event.Same view) events events') :
    events.countP Event.draws = events'.countP Event.draws := by
  induction h with
  | nil => rfl
  | cons hsame _ ih =>
      rw [List.countP_cons, List.countP_cons, ih, Event.draws, Event.draws, hsame.isAttempt,
        hsame.before.fetched]

/-- The first draw, if it is not masked, leaves the low byte of the seed multiplied and
added to. -/
theorem Machine.first_draw {m : Machine Lcg} {ops : List Operation} {front back : List (Event Lcg)}
    {event : Event Lcg} (h : m.events ops = front ++ event :: back)
    (hfirst : front.countP Event.draws = 0) (hattempt : event.op.isAttempt = true) {x : UInt8}
    (hins : event.before.fetched = .random x 0xFF) :
    ∃ byte, event.outcome.machine.register x = .ok byte ∧
      byte.toNat = (m.random.seed.toNat * 109 + 57) % 256 := by
  obtain ⟨earlier, op, later, rfl, rfl, rfl, rfl⟩ := Machine.events_eq_append_cons h
  have hrandom : (m.reached earlier).random = m.random := by
    rw [Machine.random_reached, hfirst]
    rfl
  obtain ⟨byte, hbyte, hvalue⟩ := (Machine.writes_of_random hattempt hins).value
  refine ⟨byte, hbyte, ?_⟩
  change byte.toNat = ((Lcg.step (m.reached earlier).random.seed).toNat % 256) &&& (2 ^ 8 - 1)
    at hvalue
  rw [hvalue, Nat.and_two_pow_sub_one_eq_mod, Nat.mod_mod, hrandom]
  exact Lcg.toNat_step_mod m.random.seed

namespace Console

/-- The first draw on one console is the first on another that differs in its random source
alone, and it leaves different bytes if the low bytes of the seeds differ. -/
theorem first_draws_ne {c d : Console} (hsame : c.machine.Same .withoutRandom d.machine)
    (hticks : c.ticksPerFrame = d.ticksPerFrame)
    (hseeds : c.machine.random.seed.toNat % 256 ≠ d.machine.random.seed.toNat % 256)
    {ops : List Operation} {front back events' : List (Event Lcg)} {event : Event Lcg}
    (hevents : c.history ops = .ok (front ++ event :: back)) (hevents' : d.history ops = .ok events')
    (hfirst : front.countP Event.draws = 0) (hattempt : event.op.isAttempt = true) {x : UInt8}
    (hins : event.before.fetched = .random x 0xFF) :
    ∃ front' event' back', events' = front' ++ event' :: back' ∧
      front'.length = front.length ∧ front'.countP Event.draws = 0 ∧
      event'.op.isAttempt = true ∧ event'.before.fetched = .random x 0xFF ∧
      ∃ byte byte', event.outcome.machine.register x = .ok byte ∧
        event'.outcome.machine.register x = .ok byte' ∧ byte ≠ byte' := by
  have hdepth : d.machine.registers.stack.depth.toNat ≤ 16 := hsame.registers ▸ hsame.depth_le
  obtain ⟨unrolled, hunrolled, -⟩ := Checked.bind_eq_ok.mp hevents
  obtain ⟨unrolled', hunrolled', -⟩ := Checked.bind_eq_ok.mp hevents'
  have hlockstep :=
    (lockstep_of_unroll hsame hticks View.closed_withoutRandom hunrolled hunrolled').events
  rw [history_of_unroll hsame.depth_le hunrolled] at hevents
  rw [history_of_unroll hdepth hunrolled'] at hevents'
  have hsplit := Except.ok.inj hevents
  obtain rfl := Except.ok.inj hevents'
  rw [hsplit] at hlockstep
  have hshown : ∀ e ∈ front, e.Shown .withoutRandom := by
    intro e he
    exact Event.shown_withoutRandom (List.countP_eq_zero.mp hfirst e he)
  obtain ⟨front', event', back', hsplit', hfronts, hbefore, hop⟩ := hlockstep.split hshown
  have hfirst' : front'.countP Event.draws = 0 := Event.countP_draws_eq hfronts ▸ hfirst
  have hattempt' : event'.op.isAttempt = true := hop ▸ hattempt
  have hins' : event'.before.fetched = .random x 0xFF := hbefore.fetched ▸ hins
  obtain ⟨byte, hbyte, hvalue⟩ := Machine.first_draw hsplit hfirst hattempt hins
  obtain ⟨byte', hbyte', hvalue'⟩ := Machine.first_draw hsplit' hfirst' hattempt' hins'
  have hbytes : byte ≠ byte' := by
    intro h
    rw [h, hvalue', ← Lcg.toNat_step_mod, ← Lcg.toNat_step_mod, Lcg.step_mod_eq_iff] at hvalue
    exact hseeds hvalue.symm
  exact ⟨front', event', back', hsplit', hfronts.length_eq.symm, hfirst', hattempt', hins',
    byte, byte', hbyte, hbyte', hbytes⟩

/-- Consoles that differ only in their seeds do the same and look the same for ever if
the low bytes of the seeds agree.  If they do not, the same operations lead to the same
first draw on both, and it tells them apart unless a mask hides it. -/
theorem seed_law (config : Config) (s s' : UInt32) :
    let c := Console.new { config with seed := some s }
    let d := Console.new { config with seed := some s' }
    (s.toNat % 256 = s'.toNat % 256 →
      c.Same .withoutSeed d ∧
        ∀ ops, Checked.Rel
          (List.Forall₂ fun o p => Outcome.Same .withoutSeed o p ∧
            ∀ path, o.console.query? path = p.console.query? path)
          (c.outcomes ops) (d.outcomes ops)) ∧
    (s.toNat % 256 ≠ s'.toNat % 256 →
      ∀ ops events events', c.history ops = .ok events → d.history ops = .ok events' →
        ∀ front event back x, events = front ++ event :: back →
          front.countP Event.draws = 0 → event.op.isAttempt = true →
          event.before.fetched = .random x 0xFF →
          ∃ front' event' back', events' = front' ++ event' :: back' ∧
            front'.length = front.length ∧ front'.countP Event.draws = 0 ∧
            event'.op.isAttempt = true ∧ event'.before.fetched = .random x 0xFF ∧
            ∃ byte byte', event.outcome.machine.register x = .ok byte ∧
              event'.outcome.machine.register x = .ok byte' ∧ byte ≠ byte') := by
  intro c d
  have hdepth := Machine.depth_powerOn_le (⟨s⟩ : Lcg)
  refine ⟨?_, ?_⟩
  · intro hseeds
    have hsame : c.Same .withoutSeed d :=
      ⟨⟨rfl, hdepth, rfl, rfl, rfl, rfl, hseeds, rfl⟩, rfl, rfl⟩
    refine ⟨hsame, ?_⟩
    intro ops
    apply (hsame.outcomes View.closed_withoutSeed View.shows_withoutSeed ops).imp
    intro outcomes outcomes' h
    exact h.imp fun o p hop => ⟨hop, hop.console.query?⟩
  · intro hseeds ops events events' hevents hevents' front event back x hsplit hfirst hattempt hins
    have hsame : c.machine.Same .withoutRandom d.machine :=
      ⟨rfl, hdepth, rfl, rfl, rfl, rfl, trivial, rfl⟩
    rw [hsplit] at hevents
    exact first_draws_ne hsame rfl hseeds hevents hevents' hfirst hattempt hins

/-- A draw put into memory and executed. -/
def drawOnce : List Operation := [.machine (.load 0x200 [0xC0, 0xFF]), .machine .step]

/-- Seeds 1 and 0x101 are alike, and one draw tells 1 and 2 apart. -/
theorem seed_law_drawOnce :
    (Console.new { seed := some 1 }).Same .withoutSeed (.new { seed := some 0x101 }) ∧
      ∃ front event back front' event' back' byte byte',
        (Console.new { seed := some 1 }).history drawOnce = .ok (front ++ event :: back) ∧
        (Console.new { seed := some 2 }).history drawOnce = .ok (front' ++ event' :: back') ∧
        event.outcome.machine.register 0 = .ok byte ∧
        event'.outcome.machine.register 0 = .ok byte' ∧ byte ≠ byte' := by
  let ops : List Chip8.Operation := [.load 0x200 [0xC0, 0xFF], .step]
  let c := Console.new { seed := some 1 }
  let d := Console.new { seed := some 2 }
  let front := [c.machine.event (.load 0x200 [0xC0, 0xFF])]
  have hunroll : c.unroll drawOnce = .ok ops ∧ d.unroll drawOnce = .ok ops := by decide +kernel
  have hfetched : (c.machine.reached [.load 0x200 [0xC0, 0xFF]]).fetched = .random 0 0xFF := by
    decide +kernel
  have hevents := history_of_unroll (Machine.depth_powerOn_le _) hunroll.1
  have hevents' := history_of_unroll (Machine.depth_powerOn_le _) hunroll.2
  refine ⟨((seed_law {} 1 0x101).1 (by decide)).1, ?_⟩
  obtain ⟨front', event', back', hsplit', -, -, -, -, byte, byte', hbyte, hbyte', hbytes⟩ :=
    (seed_law {} 1 2).2 (by decide) drawOnce _ _ hevents hevents' front _ [] 0 rfl rfl rfl hfetched
  rw [hsplit'] at hevents'
  exact ⟨front, _, [], front', event', back', byte, byte', hevents, hevents', hbyte, hbyte', hbytes⟩

end Console

end Chip8
