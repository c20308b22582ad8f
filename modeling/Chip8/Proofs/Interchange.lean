import Chip8.Proofs.KeyHistory
import Chip8.Proofs.View
import Chip8.Random.Lcg

/-!
# Keys and ticks between instructions

Keys go down and up and the timers tick between instructions, whenever the host says so.  An
instruction looks at the keypad only to test the key that a register numbers or to find the
lowest key held, and at the timers only where it names one of them.  Whatever it does not look
at may as well change after it as before it: every answer and the machine reached are the same.

Main results:

- Theorem `Machine.effect_withKeypad`: an instruction that sees two pads alike has the same
  effect with either.
- Theorem `Machine.effect_tickTimers`: an instruction that names no timer has the same effect
  before a tick and after it.
- Theorem `Machine.step_handled`: what the host does to the keypad and the timers is carried
  through a step, refused or not, if the effect of its instruction carries it through.
- Theorem `Machine.interchange_law`: so keys and ticks may come before the next instruction or
  after it.
-/

namespace Chip8

/-! ## Operations in either order -/

/-- What an operation answers: why it was refused, if it was, and the entries written. -/
def Outcome.answer {G : Type} (outcome : Outcome G) : Option Fault × Array Log.Entry :=
  (outcome.fault, outcome.log)

/-- The same operations in opposite orders: each is answered alike, and the machine reached
is the same. -/
structure Outcome.Mirrored {G : Type} (forth back : List (Outcome G)) : Prop where
  answers : forth.map Outcome.answer = (back.map Outcome.answer).reverse
  machine : forth.getLast?.map (·.machine) = back.getLast?.map (·.machine)

/-- Two operations may be done in either order: both orders crash alike or come to the same,
and they crash only from more than sixteen return addresses or at the limit of the tick
count. -/
structure Machine.Interchange {G : Type} [RandomSource G] (m : Machine G) (op other : Operation) :
    Prop where
  alike : Checked.Rel Outcome.Mirrored (m.outcomes [op, other]) (m.outcomes [other, op])
  returns : m.registers.stack.depth.toNat ≤ 16 → ¬m.Full →
    ∃ outcomes, m.outcomes [op, other] = .ok outcomes

/-! ## Keys and timers that instructions look at -/

/-- The key that an event is about, if it is about a single one. -/
def Keypad.Event.key? : Keypad.Event → Option UInt8
  | .press key | .release key | .set key _ => some key
  | .releaseAll => none

/-- An event about one key leaves the others alone. -/
theorem Keypad.isPressed_after_of_ne (pad : Keypad) {event : Event} {key other : UInt8}
    (hevent : event.key? = some key) (hne : other ≠ key) :
    (pad.after event).isPressed other = pad.isPressed other := by
  have hkey : (key == other) = false := beq_false_of_ne hne.symm
  apply pad.isPressed_after_of_not_concerns
  cases event with
  | press k => cases hevent; exact hkey
  | release k => cases hevent; exact hkey
  | set k down => cases hevent; exact hkey
  | releaseAll => cases hevent

/-- Whether the instruction looks at the keypad. -/
def Instruction.readsKeys : Instruction → Bool
  | .skipIfKey _ | .skipUnlessKey _ | .waitKey _ => true
  | _ => false

/-- Whether the instruction reads or sets a timer. -/
def Instruction.usesTimers : Instruction → Bool
  | .getDelay _ | .setDelay _ | .setSound _ => true
  | _ => false

/-! ## What the host does to a machine -/

/-- The machine after its host has changed the keypad and the timers. -/
def Machine.handled {G : Type} (keys : Keypad → Keypad) (time : Timers → Timers) (m : Machine G) :
    Machine G :=
  { m with keypad := keys m.keypad, timers := time m.timers }

/-- The outcome with its machine changed by the host. -/
def Outcome.handled {G : Type} (keys : Keypad → Keypad) (time : Timers → Timers)
    (outcome : Outcome G) : Outcome G :=
  { outcome with machine := outcome.machine.handled keys time }

/-- Keys do not keep the timers from ticking. -/
theorem Outcome.ticked_handled {G : Type} (keys : Keypad → Keypad) (outcome : Outcome G) :
    (outcome.handled keys id).ticked = outcome.ticked.handled keys id := by
  have hfault : (outcome.handled keys id).fault = outcome.fault := rfl
  unfold Outcome.ticked
  rw [hfault]
  split <;> rfl

namespace Machine

variable {G : Type} {m : Machine G}

/-! ## Effects with another keypad and other timers -/

/-- An instruction sees the same on another pad as on that of the machine. -/
def SeesAlike (m : Machine G) (pad : Keypad) : Instruction → Prop
  | .skipIfKey x | .skipUnlessKey x =>
    pad.isPressed (m.registers.get x) = m.keypad.isPressed (m.registers.get x)
  | .waitKey _ => pad.firstPressed? = m.keypad.firstPressed?
  | _ => True

/-- The machine with another pad. -/
def withKeypad (m : Machine G) (pad : Keypad) : Machine G := { m with keypad := pad }

theorem skips_withKeypad {pad : Keypad} {ins : Instruction} (h : m.SeesAlike pad ins) :
    (m.withKeypad pad).skips ins = m.skips ins := by
  cases ins with
  | skipIfKey x => exact h
  | skipUnlessKey x => exact congrArg not h
  | _ => rfl

theorem nextPc_withKeypad {pad : Keypad} {ins : Instruction} (h : m.SeesAlike pad ins) :
    (m.withKeypad pad).nextPc ins = m.nextPc ins := by
  have hskips := skips_withKeypad h
  cases ins with
  | waitKey x =>
      have hlowest : (m.withKeypad pad).keypad.firstPressed? = m.keypad.firstPressed? := h
      simp only [nextPc, hlowest]
      rfl
  | _ => simp only [nextPc, hskips] <;> rfl

variable [RandomSource G]

theorem nextBytes_withKeypad {pad : Keypad} {ins : Instruction} (h : m.SeesAlike pad ins) :
    (m.withKeypad pad).nextBytes ins = m.nextBytes ins := by
  cases ins with
  | waitKey x =>
      have hlowest : (m.withKeypad pad).keypad.firstPressed? = m.keypad.firstPressed? := h
      simp only [nextBytes, hlowest]
      rfl
  | _ => rfl

/-- An instruction that sees two pads alike has the same effect with either. -/
theorem effect_withKeypad {pad : Keypad} {ins : Instruction} (h : m.SeesAlike pad ins) :
    (m.withKeypad pad).effect ins = (m.effect ins).withKeypad pad := by
  rw [effect, nextBytes_withKeypad h, nextPc_withKeypad h]
  rfl

/-- An instruction that names no timer has the same effect before a tick and after it. -/
theorem effect_tickTimers {ins : Instruction} (h : ins.usesTimers = false) :
    m.tickTimers.effect ins = (m.effect ins).tickTimers := by
  cases ins with
  | getDelay x => cases h
  | setDelay x => cases h
  | setSound x => cases h
  | _ => rfl

/-! ## Steps and cycles after the host -/

variable {keys : Keypad → Keypad} {time : Timers → Timers}

/-- What the effect of the instruction carries through, the step carries through, also where
it is refused. -/
theorem stepped_handled
    (h : (m.afterFetch.handled keys time).effect m.fetched =
      (m.afterFetch.effect m.fetched).handled keys time) :
    (m.handled keys time).stepped = m.stepped.handled keys time := by
  have hexecuted : (m.afterFetch.handled keys time).executed m.fetched =
      (m.afterFetch.executed m.fetched).handled keys time := by
    rw [executed, executed, h]
    cases hrefusal : m.afterFetch.refusal? m.fetched with
    | none =>
        have hrefusal' : (m.afterFetch.handled keys time).refusal? m.fetched = none := hrefusal
        rw [hrefusal']
        rfl
    | some fault =>
        have hrefusal' : (m.afterFetch.handled keys time).refusal? m.fetched = some fault :=
          hrefusal
        rw [hrefusal']
        rfl
  have hfetch : (m.handled keys time).afterFetch = m.afterFetch.handled keys time := rfl
  have hfetched : (m.handled keys time).fetched = m.fetched := rfl
  rw [stepped, stepped, hfetch, hfetched, hexecuted]
  rfl

/-- So does a step with its checks, and it crashes where it crashed. -/
theorem step_handled
    (h : (m.afterFetch.handled keys time).effect m.fetched =
      (m.afterFetch.effect m.fetched).handled keys time) :
    (m.handled keys time).step = m.step.map (Outcome.handled keys time) := by
  by_cases hfull : m.Full
  · have hfull' : (m.handled keys time).Full := hfull
    rw [step_of_full hfull, step_of_full hfull']
    rfl
  have hfull' : ¬(m.handled keys time).Full := hfull
  by_cases hdepth : m.fetched = .ret → m.registers.stack.depth.toNat ≤ 16
  · have hdepth' : (m.handled keys time).fetched = .ret →
        (m.handled keys time).registers.stack.depth.toNat ≤ 16 := hdepth
    rw [step_eq_of_ret hdepth hfull, step_eq_of_ret hdepth' hfull', stepped_handled h]
    rfl
  · rw [Classical.not_imp, Nat.not_le] at hdepth
    rcases hdepth with ⟨hins, hlt⟩
    have hins' : (m.handled keys time).fetched = .ret := hins
    have hlt' : 16 < (m.handled keys time).registers.stack.depth.toNat := hlt
    rw [step_of_lt_depth hins hlt hfull, step_of_lt_depth hins' hlt' hfull']
    rfl

/-- Keys are carried through a cycle too. -/
theorem cycle_handled
    (h : (m.afterFetch.handled keys id).effect m.fetched =
      (m.afterFetch.effect m.fetched).handled keys id) :
    (m.handled keys id).cycle = m.cycle.map (Outcome.handled keys id) := by
  rw [cycle_eq_map_step, cycle_eq_map_step, step_handled h]
  cases m.step with
  | error crash => rfl
  | ok outcome => exact congrArg Except.ok (outcome.ticked_handled keys)

/-! ## Either order -/

variable (keys time) in
/-- What the host does may come before an operation or after it if the operation carries it
through. -/
theorem interchange_of_handled {op host : Operation}
    (hhost : ∀ n : Machine G, n.perform host = .ok (.done (n.handled keys time)))
    (h : (m.handled keys time).perform op = (m.perform op).map (Outcome.handled keys time)) :
    m.Interchange host op := by
  have hforth : m.outcomes [host, op] = (m.perform op).map fun outcome =>
      [.done (m.handled keys time), outcome.handled keys time] := by
    rw [outcomes_cons (hhost m), outcomes]
    change (((m.handled keys time).perform op >>= _ : Checked (List (Outcome G)))).map _ = _
    rw [h]
    cases m.perform op <;> rfl
  have hback : m.outcomes [op, host] = (m.perform op).map fun outcome =>
      [outcome, .done (outcome.machine.handled keys time)] := by
    rw [outcomes]
    cases m.perform op with
    | error crash => rfl
    | ok outcome =>
        rw [Checked.ok_bind, outcomes, hhost]
        rfl
  refine { alike := ?_, returns := ?_ }
  · rw [hforth, hback]
    cases m.perform op with
    | error crash => exact .error crash
    | ok outcome => exact .ok { answers := rfl, machine := rfl }
  · intro hdepth hfull
    rw [hforth, perform_eq hdepth fun _ => hfull]
    exact ⟨_, rfl⟩

/-- Keys may come before an attempt or after it if its instruction sees them alike. -/
theorem interchange_keypad {event : Keypad.Event} {op : Operation}
    (h : m.afterFetch.SeesAlike (m.keypad.after event) m.fetched) (hop : op = .step ∨ op = .cycle) :
    m.Interchange (.keypad event) op := by
  have heffect : (m.afterFetch.handled (·.after event) id).effect m.fetched =
      (m.afterFetch.effect m.fetched).handled (·.after event) id := effect_withKeypad h
  refine interchange_of_handled (·.after event) id (fun _ => rfl) ?_
  rcases hop with rfl | rfl
  · exact step_handled heffect
  · exact cycle_handled heffect

/-- A tick may come before a step or after it if its instruction names no timer. -/
theorem interchange_tick (h : m.fetched.usesTimers = false) : m.Interchange .tickTimers .step :=
  interchange_of_handled id Timers.tick (fun _ => rfl)
    (step_handled (effect_tickTimers h))

/-! ## Instructions that overlook a key -/

/-- The instruction at the program counter does not notice what an event does to the keypad.
-/
inductive Overlooks (m : Machine G) (event : Keypad.Event) : Prop
  | unread (hins : m.fetched.readsKeys = false)
  /-- A key past the pad is up whatever happens. -/
  | pastPad (x key : UInt8) (hins : m.fetched = .skipIfKey x ∨ m.fetched = .skipUnlessKey x)
      (hvx : m.register x = .ok key) (hpast : 15 < key)
  | otherKey (x key other : UInt8) (hins : m.fetched = .skipIfKey x ∨ m.fetched = .skipUnlessKey x)
      (hvx : m.register x = .ok key) (hevent : event.key? = some other) (hne : other ≠ key)
  | sameLowest (x : UInt8) (hins : m.fetched = .waitKey x)
      (hlowest : (m.keypad.after event).firstPressed? = m.keypad.firstPressed?)

omit [RandomSource G] in
theorem lt_of_keyTest {x : UInt8} (hins : m.fetched = .skipIfKey x ∨ m.fetched = .skipUnlessKey x) :
    x.toNat < 16 := by
  rcases hins with hins | hins <;> exact inRange_of_fetched hins

omit [RandomSource G] in
/-- A key test sees two pads alike that agree on the key tested. -/
theorem seesAlike_of_keyTest {pad : Keypad} {x key : UInt8}
    (hins : m.fetched = .skipIfKey x ∨ m.fetched = .skipUnlessKey x)
    (hvx : m.register x = .ok key) (h : pad.isPressed key = m.keypad.isPressed key) :
    m.afterFetch.SeesAlike pad m.fetched := by
  obtain rfl := get_of_register (lt_of_keyTest hins) hvx
  rcases hins with hins | hins <;> rw [hins] <;> exact h

omit [RandomSource G] in
theorem Overlooks.seesAlike {event : Keypad.Event} (h : m.Overlooks event) :
    m.afterFetch.SeesAlike (m.keypad.after event) m.fetched := by
  cases h with
  | unread hins =>
      cases hfetched : m.fetched with
      | skipIfKey x => rw [hfetched] at hins; cases hins
      | skipUnlessKey x => rw [hfetched] at hins; cases hins
      | waitKey x => rw [hfetched] at hins; cases hins
      | _ => trivial
  | pastPad x key hins hvx hpast =>
      have hle : 16 ≤ key.toNat := UInt8.lt_iff_toNat_lt.mp hpast
      refine seesAlike_of_keyTest hins hvx ?_
      rw [Keypad.isPressed_eq_false _ hle, Keypad.isPressed_eq_false _ hle]
  | otherKey x key other hins hvx hevent hne =>
      exact seesAlike_of_keyTest hins hvx (m.keypad.isPressed_after_of_ne hevent hne.symm)
  | sameLowest x hins hlowest =>
      rw [hins]
      exact hlowest

/-- A test of a key past the pad is refused, whatever the keypad. -/
theorem perform_of_pastPad {x key : UInt8} {op : Operation}
    (hins : m.fetched = .skipIfKey x ∨ m.fetched = .skipUnlessKey x)
    (hvx : m.register x = .ok key) (hpast : 15 < key) (hfull : ¬m.Full)
    (hop : op = .step ∨ op = .cycle) :
    ∃ outcome, m.perform op = .ok outcome ∧
      outcome.fault = some (.invalidKey key m.registers.pc) := by
  have hstep : m.step = .ok m.stepped := by
    rcases hins with hins | hins <;> exact step_of_fetched hins (by simp) hfull
  have hfault : m.stepped.fault = some (.invalidKey key m.registers.pc) := by
    obtain rfl := get_of_register (lt_of_keyTest hins) hvx
    have hlarge : ¬(m.registers.get x).toNat < 16 := Nat.not_lt.mpr hpast
    rw [fault_stepped]
    rcases hins with hins | hins <;> simp [hins, refusal?, hlarge]
  rcases hop with rfl | rfl
  · exact ⟨m.stepped, hstep, hfault⟩
  · exact ⟨m.stepped, cycle_of_fault hstep hfault, hfault⟩

/-- What happens to the keypad may happen before the next step or cycle or after it, unless
its instruction looks at the keypad and the key matters there; a test of a key past the pad
is refused either way. The timers may tick before the next step or after it unless its
instruction names one of them. -/
theorem interchange_law (m : Machine G) :
    (∀ event, m.Overlooks event →
      ∀ op, op = .step ∨ op = .cycle → m.Interchange (.keypad event) op) ∧
    (∀ x key, m.fetched = .skipIfKey x ∨ m.fetched = .skipUnlessKey x →
      m.register x = .ok key → 15 < key → ¬m.Full →
      ∀ op, op = .step ∨ op = .cycle → ∃ outcome, m.perform op = .ok outcome ∧
        outcome.fault = some (.invalidKey key m.registers.pc)) ∧
    (m.fetched.usesTimers = false → m.Interchange .tickTimers .step) := by
  refine ⟨?_, ?_, interchange_tick⟩
  · intro event hover op hop
    exact interchange_keypad hover.seesAlike hop
  · intro x key hins hvx hpast hfull op hop
    exact perform_of_pastPad hins hvx hpast hfull hop

/-- A machine that is about to test key 200. -/
def testingPastPad : Machine Lcg :=
  { powerOn Lcg.standard with
    registers := ((powerOn Lcg.standard).registers.set 5 200)
    memory := Memory.powerOn.load 0x200 [0xE5, 0x9E]
    timers := ⟨2, 0⟩ }

/-- Keys released and timers ticked before the refusal are as good as after it. -/
theorem interchange_law_testingPastPad :
    testingPastPad.Interchange (.keypad .releaseAll) .cycle ∧
    (∃ outcome, testingPastPad.perform .cycle = .ok outcome ∧
      outcome.fault = some (.invalidKey 200 0x200)) ∧
    testingPastPad.Interchange .tickTimers .step := by
  have hins : testingPastPad.fetched = .skipIfKey 5 := by decide +kernel
  have hvx : testingPastPad.register 5 = .ok 200 := rfl
  have hpast : (15 : UInt8) < 200 := by decide
  rcases interchange_law testingPastPad with ⟨hkeys, hrefused, htick⟩
  refine ⟨?_, ?_, ?_⟩
  · exact hkeys .releaseAll (.pastPad 5 200 (Or.inl hins) hvx hpast) .cycle (Or.inr rfl)
  · exact hrefused 5 200 (Or.inl hins) hvx hpast (by decide) .cycle (Or.inr rfl)
  · exact htick (by rw [hins]; rfl)

end Machine

end Chip8
