import Chip8.Proofs.View

/-!
# Machines in lockstep

Two machines that look the same keep looking the same until an instruction reads what
the view leaves out.  Their histories are compared event by event up to that one, which
both still execute; nothing is said of what comes after it.

Main results:

- Theorem `View.Lockstep.take`: events agree as long as the view shows what they read.
- Theorem `View.Lockstep.split`: an event that is preceded only by such events has its
  counterpart in the other history.
- Theorem `Machine.Same.lockstep`: one list of operations keeps two machines in lockstep.
- Theorem `Machine.Same.history`: its histories on both crash alike or agree so far.
-/

namespace Chip8

variable {G : Type} [RandomSource G]

/-- The view shows what the event reads. -/
def Event.Shown (view : View G) (event : Event G) : Prop :=
  event.op.isAttempt = true → view.Shows event.before.fetched

/-- Two events on machines that look the same, with outcomes that look the same. -/
structure Event.Same (view : View G) (e f : Event G) : Prop where
  before : e.before.Same view f.before
  isAttempt : e.op.isAttempt = f.op.isAttempt
  outcome : e.outcome.Same view f.outcome

/-- Events that agree up to the first that reads what the view leaves out. -/
inductive View.Lockstep (view : View G) : List (Event G) → List (Event G) → Prop
  | nil : Lockstep view [] []
  | cons {e f : Event G} {later later' : List (Event G)} (hsame : e.Same view f)
      (hshown : e.Shown view) (hlater : Lockstep view later later') :
      Lockstep view (e :: later) (f :: later')
  | hidden {e f : Event G} (later later' : List (Event G)) (hbefore : e.before.Same view f.before)
      (hattempt : e.op.isAttempt = f.op.isAttempt) (hhidden : ¬e.Shown view) :
      Lockstep view (e :: later) (f :: later')

namespace View.Lockstep

variable {view : View G} {events events' : List (Event G)}

/-- Events agree as long as the view shows what they read. -/
theorem take (h : view.Lockstep events events') {k : Nat}
    (hshown : ∀ e ∈ events.take k, e.Shown view) :
    List.Forall₂ (Event.Same view) (events.take k) (events'.take k) := by
  induction h generalizing k with
  | nil => rw [List.take_nil]; exact .nil
  | cons hsame _ _ ih =>
      cases k with
      | zero => exact .nil
      | succ k =>
          rw [List.take_succ_cons, List.forall_mem_cons] at hshown
          exact .cons hsame (ih hshown.2)
  | hidden later later' _ _ hhidden =>
      cases k with
      | zero => exact .nil
      | succ k =>
          rw [List.take_succ_cons, List.forall_mem_cons] at hshown
          exact absurd hshown.1 hhidden

/-- An event that is preceded only by events of which the view shows what they read has
its counterpart in the other history. -/
theorem split {front back : List (Event G)} {event : Event G}
    (h : view.Lockstep (front ++ event :: back) events') (hfront : ∀ e ∈ front, e.Shown view) :
    ∃ front' event' back', events' = front' ++ event' :: back' ∧
      List.Forall₂ (Event.Same view) front front' ∧ event.before.Same view event'.before ∧
      event.op.isAttempt = event'.op.isAttempt := by
  induction front generalizing events' with
  | nil =>
      cases h with
      | cons hsame _ _ => exact ⟨[], _, _, rfl, .nil, hsame.before, hsame.isAttempt⟩
      | hidden _ later' hbefore hattempt _ => exact ⟨[], _, later', rfl, .nil, hbefore, hattempt⟩
  | cons first front ih =>
      rw [List.forall_mem_cons] at hfront
      cases h with
      | cons hsame _ hlater =>
          obtain ⟨front', event', back', rfl, hsames, hbefore, hattempt⟩ := ih hlater hfront.2
          exact ⟨_ :: front', event', back', rfl, .cons hsame hsames, hbefore, hattempt⟩
      | hidden _ _ _ _ hhidden => exact absurd hfront.1 hhidden

/-- Whatever is done next matters only if the view has shown everything so far. -/
theorem append {later later' : List (Event G)} (h : view.Lockstep events events')
    (hlater : (∀ e ∈ events, e.Shown view) → view.Lockstep later later') :
    view.Lockstep (events ++ later) (events' ++ later') := by
  induction h with
  | nil => exact hlater (List.forall_mem_nil _)
  | cons hsame hshown _ ih =>
      exact .cons hsame hshown (ih fun hrest => hlater (List.forall_mem_cons.mpr ⟨hshown, hrest⟩))
  | hidden _ _ hbefore hattempt hhidden => exact .hidden _ _ hbefore hattempt hhidden

end View.Lockstep

/-! ## Operations in lockstep -/

namespace Machine

/-- Operations on two machines whose events agree up to the first that reads what the
view leaves out, and that lead to machines that look the same if there is none. -/
structure Lockstep (view : View G) (m : Machine G) (ops : List Operation) (n : Machine G)
    (ops' : List Operation) : Prop where
  events : view.Lockstep (m.events ops) (n.events ops')
  reached : (∀ e ∈ m.events ops, e.Shown view) → (m.reached ops).Same view (n.reached ops')

variable {view : View G} {m n : Machine G}

theorem Same.lockstep_nil (h : m.Same view n) : Lockstep view m [] n [] :=
  ⟨.nil, fun _ => h⟩

/-- The same operation first, and lockstep from there if the view shows what it reads. -/
theorem Same.lockstep_cons (h : m.Same view n) (hclosed : view.Closed) (op : Operation)
    {rest rest' : List Operation}
    (hrest : (m.performed op).Same view (n.performed op) →
      Lockstep view (m.performed op).machine rest (n.performed op).machine rest') :
    Lockstep view m (op :: rest) n (op :: rest') := by
  by_cases hshown : (m.event op).Shown view
  · have houtcome := h.performed hclosed hshown
    have hevent : (m.event op).Same view (n.event op) := ⟨h, rfl, houtcome⟩
    refine ⟨.cons hevent hshown (hrest houtcome).events, ?_⟩
    rw [events, List.forall_mem_cons]
    rintro ⟨-, hall⟩
    exact (hrest houtcome).reached hall
  · refine ⟨.hidden _ _ h rfl hshown, ?_⟩
    rw [events, List.forall_mem_cons]
    rintro ⟨hnow, -⟩
    exact absurd hnow hshown

/-- Whatever is done next matters only if the machines still look the same. -/
theorem Lockstep.append {ops ops' rest rest' : List Operation} (h : Lockstep view m ops n ops')
    (hrest : (m.reached ops).Same view (n.reached ops') →
      Lockstep view (m.reached ops) rest (n.reached ops') rest') :
    Lockstep view m (ops ++ rest) n (ops' ++ rest') where
  events := by
    rw [events_append, events_append]
    exact h.events.append fun hall => (hrest (h.reached hall)).events
  reached := by
    rw [events_append, reached_append, reached_append, List.forall_mem_append]
    rintro ⟨hall, hlater⟩
    exact (hrest (h.reached hall)).reached hlater

/-- One list of operations keeps two machines that look the same in lockstep. -/
theorem Same.lockstep (h : m.Same view n) (hclosed : view.Closed) (ops : List Operation) :
    Lockstep view m ops n ops := by
  induction ops generalizing m n with
  | nil => exact h.lockstep_nil
  | cons op rest ih => exact h.lockstep_cons hclosed op fun houtcome => ih houtcome.machine

/-- The histories of one list of operations on two machines that look the same crash alike,
or agree up to the first event that reads what the view leaves out. -/
theorem Same.history (h : m.Same view n) (hclosed : view.Closed) (ops : List Operation) :
    Checked.Rel view.Lockstep (m.history ops) (n.history ops) := by
  have hdepth : n.registers.stack.depth.toNat ≤ 16 := h.registers ▸ h.depth_le
  have hover := overflows_congr h.depth_le hdepth h.ticks ops
  by_cases hlimit : m.Overflows ops
  · rw [history_of_overflows h.depth_le hlimit, history_of_overflows hdepth (hover.mp hlimit)]
    exact .error .addOverflow
  · rw [history_eq h.depth_le hlimit, history_eq hdepth (mt hover.mpr hlimit)]
    exact .ok (h.lockstep hclosed ops).events

end Machine

end Chip8
