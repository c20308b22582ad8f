import Chip8.Probe
import Chip8.Proofs.History
import Chip8.Random.Lcg

/-!
# Calls and returns

Over a whole history the slots in use behave as a list of return addresses: a call
appends the address after it, a return takes the last one off and continues there,
and nothing else touches the list.  A return that comes back to the depth at which a
call was made therefore continues after that call.

Main results:

- Theorem `Machine.refines_attempt`: one attempt does to the slots what it does to
  the list, and every reader of the call stack sees the list.
- Theorem `Machine.entries_reached`: so do attempts one after another.
- Theorem `Machine.return_of_call`: a return that comes back to the depth of a call
  continues after it.
- Theorem `Machine.call_stack_law`: both hold throughout every history of attempts.
-/

namespace Chip8

namespace Event

variable {G : Type}

/-! ## The list of return addresses -/

/-- What an attempt does to a list of return addresses, the oldest first. -/
def entriesAfter (event : Event G) (entries : List UInt16) : List UInt16 :=
  if event.outcome.fault.isSome then entries
  else
    match event.before.fetched with
    | .call _ => entries ++ [event.before.registers.pc + 2]
    | .ret => entries.dropLast
    | _ => entries

/-- An attempt on a machine with the given return addresses does to its call stack
what it does to the list. -/
structure Refines (event : Event G) (entries : List UInt16) : Prop where
  before : event.before.registers.stack.entries = entries
  after : event.outcome.machine.registers.stack.entries = event.entriesAfter entries
  depth : event.outcome.machine.registers.stack.depth.toNat = (event.entriesAfter entries).length
  top : event.outcome.machine.snapshot.stack.top? = (event.entriesAfter entries).getLast?
  query : event.outcome.machine.query? "stack" = some (.ofWords (event.entriesAfter entries))
  /-- A call is refused exactly with sixteen return addresses. -/
  call : ∀ addr, event.before.fetched = .call addr →
    event.outcome.fault =
      if entries.length = 16 then some (.stackOverflow event.before.registers.pc) else none
  /-- A return is refused exactly without a return address. -/
  ret : event.before.fetched = .ret →
    event.outcome.fault =
      if entries.length = 0 then some (.stackUnderflow event.before.registers.pc) else none
  /-- A return continues at the newest return address. -/
  resumes : event.before.fetched = .ret → event.outcome.fault = none →
    entries.getLast? = some event.outcome.machine.registers.pc

/-- A return is the first event after a call to come back to the depth at which the
call was made. -/
structure Matches (call : Event G) (inside : List (Event G)) (ret : Event G) : Prop where
  isCall : ∃ addr, call.before.fetched = .call addr
  success : call.outcome.fault = none
  deeper : ∀ event ∈ inside,
    event.outcome.machine.registers.stack.depth ≠ call.before.registers.stack.depth
  isRet : ret.before.fetched = .ret
  back : ret.outcome.machine.registers.stack.depth = call.before.registers.stack.depth

/-- What an attempt does to the list is settled by the machine it finds and by whether
it is refused. -/
theorem entriesAfter_congr {first second : Event G} (hbefore : first.before = second.before)
    (hfault : first.outcome.fault = second.outcome.fault) (entries : List UInt16) :
    first.entriesAfter entries = second.entriesAfter entries := by
  rw [entriesAfter, entriesAfter, hbefore, hfault]

/-- An attempt keeps the list, adds one address or takes one off. -/
theorem entriesAfter_cases (event : Event G) (entries : List UInt16) :
    event.entriesAfter entries = entries ∨
      (∃ addr, event.entriesAfter entries = entries ++ [addr]) ∨
      event.entriesAfter entries = entries.dropLast := by
  unfold entriesAfter
  split
  · exact Or.inl rfl
  · cases event.before.fetched with
    | call addr => exact Or.inr (Or.inl ⟨event.before.registers.pc + 2, rfl⟩)
    | ret => exact Or.inr (Or.inr rfl)
    | _ => exact Or.inl rfl

/-- An attempt that does not come back to the depth of a list leaves the list and the
address above it alone. -/
theorem prefix_entriesAfter {event : Event G} {entries stack : List UInt16} {resume : UInt16}
    (h : entries ++ [resume] <+: stack)
    (hlength : (event.entriesAfter stack).length ≠ entries.length) :
    entries ++ [resume] <+: event.entriesAfter stack := by
  rcases event.entriesAfter_cases stack with hafter | ⟨addr, hafter⟩ | hafter
  · rw [hafter]
    exact h
  · rw [hafter]
    exact h.trans (List.prefix_append stack [addr])
  · rw [hafter] at hlength ⊢
    obtain ⟨newer, rfl⟩ := h
    rcases List.eq_nil_or_concat newer with rfl | ⟨older, addr, rfl⟩
    · simp at hlength
    · rw [List.concat_eq_append, ← List.append_assoc, List.dropLast_concat]
      exact List.prefix_append _ older

end Event

namespace Machine

variable {G : Type}

/-- The probe of the call stack reads the slots in use. -/
theorem query?_stack (m : Machine G) :
    m.query? "stack" = some (.ofWords m.registers.stack.entries) :=
  m.query?_path .stack

variable [RandomSource G]

/-! ## One attempt -/

theorem fault_stepped_call {m : Machine G} {addr : UInt16} (h : m.fetched = .call addr)
    (hdepth : m.registers.stack.depth.toNat ≤ 16) :
    m.stepped.fault =
      if m.registers.stack.entries.length = 16 then some (.stackOverflow m.registers.pc)
      else none := by
  rw [fault_stepped, h, refusal?, stack_afterFetch, instructionAddress_afterFetch,
    CallStack.length_entries hdepth]
  split <;> split
  · omega
  · rfl
  · rfl
  · omega

theorem fault_stepped_ret {m : Machine G} (h : m.fetched = .ret)
    (hdepth : m.registers.stack.depth.toNat ≤ 16) :
    m.stepped.fault =
      if m.registers.stack.entries.length = 0 then some (.stackUnderflow m.registers.pc)
      else none := by
  rw [fault_stepped, h, refusal?, stack_afterFetch, instructionAddress_afterFetch,
    CallStack.length_entries hdepth]
  simp only [CallStack.depth_eq_zero_iff]

/-- A return that is not refused continues at the newest return address. -/
theorem pc_stepped_ret {m : Machine G} (h : m.fetched = .ret)
    (hdepth : m.registers.stack.depth.toNat ≤ 16) (hsuccess : m.stepped.fault = none) :
    m.registers.stack.entries.getLast? = some m.stepped.machine.registers.pc := by
  have hpos : 0 < m.registers.stack.depth.toNat := by
    rw [fault_stepped, h] at hsuccess
    exact (refusal?_ret_eq_none_iff m.afterFetch).mp hsuccess
  rw [stepped_of_success hsuccess, h, ← CallStack.top?_eq_getLast? hdepth]
  exact CallStack.top?_eq_some_newest hdepth hpos

/-- A step does to the slots in use what it does to the list of them. -/
theorem entries_stepped {m : Machine G} (hdepth : m.registers.stack.depth.toNat ≤ 16)
    (op : Operation) :
    m.stepped.machine.registers.stack.entries =
      Event.entriesAfter { before := m, op, outcome := m.stepped } m.registers.stack.entries := by
  unfold Event.entriesAfter
  by_cases hfault : m.stepped.fault = none
  · have hins := hfault
    rw [fault_stepped] at hins
    rw [if_neg (by simp [hfault]), stepped_of_success hfault]
    cases hfetched : m.fetched with
    | call addr =>
        rw [hfetched, refusal?_call_eq_none_iff] at hins
        exact CallStack.entries_pushed hins (m.registers.pc + 2)
    | ret =>
        rw [hfetched, refusal?_ret_eq_none_iff] at hins
        exact CallStack.entries_popped hdepth hins
    | _ => rfl
  · rw [if_pos (Option.isSome_iff_ne_none.mpr hfault), stepped_of_refused hfault]
    rfl

theorem entries_performed {m : Machine G} (hdepth : m.registers.stack.depth.toNat ≤ 16)
    {op : Operation} (hattempt : op.isAttempt = true) :
    (m.performed op).machine.registers.stack.entries =
      (m.event op).entriesAfter m.registers.stack.entries := by
  obtain ⟨hfault, hregisters⟩ := m.performed_of_isAttempt hattempt
  rw [hregisters, entries_stepped hdepth op]
  refine Event.entriesAfter_congr ?_ ?_ m.registers.stack.entries
  · rfl
  · exact hfault.symm

/-- Every attempt refines what it does to the list of return addresses. -/
theorem refines_attempt {m : Machine G} (hdepth : m.registers.stack.depth.toNat ≤ 16)
    {op : Operation} (hattempt : op.isAttempt = true) :
    (m.event op).Refines m.registers.stack.entries := by
  obtain ⟨hfault, hregisters⟩ := m.performed_of_isAttempt hattempt
  have hafter := entries_performed hdepth hattempt
  have hlimit := depth_performed_le hdepth op
  exact
    { before := rfl
      after := hafter
      depth := by
        rw [← hafter]
        exact (CallStack.length_entries hlimit).symm
      top := by
        rw [← hafter]
        exact CallStack.top?_eq_getLast? hlimit
      query := by
        rw [← hafter]
        exact query?_stack _
      call := by
        intro addr hcall
        exact hfault.trans (fault_stepped_call hcall hdepth)
      ret := by
        intro hret
        exact hfault.trans (fault_stepped_ret hret hdepth)
      resumes := by
        intro hret hsuccess
        have hpc := pc_stepped_ret (m := m) hret hdepth (hfault.symm.trans hsuccess)
        rw [← hregisters] at hpc
        exact hpc }

/-! ## Attempts one after another -/

/-- Attempts one after another do to the slots in use what they do to the list of
them. -/
theorem entries_reached {m : Machine G} (hdepth : m.registers.stack.depth.toNat ≤ 16)
    {ops : List Operation} (hops : ∀ op ∈ ops, op.isAttempt = true) :
    (m.reached ops).registers.stack.entries =
      (m.events ops).foldl (fun entries event => event.entriesAfter entries)
        m.registers.stack.entries := by
  induction ops generalizing m with
  | nil => rfl
  | cons op rest ih =>
      rw [List.forall_mem_cons] at hops
      rw [reached, ih (depth_performed_le hdepth op) hops.2, events, List.foldl_cons,
        entries_performed hdepth hops.1]

/-- While no attempt comes back to the depth of a list, the list and the address above
it stay in their slots. -/
theorem prefix_reached {m : Machine G} {entries : List UInt16} {resume : UInt16}
    (hdepth : m.registers.stack.depth.toNat ≤ 16) {ops : List Operation}
    (hops : ∀ op ∈ ops, op.isAttempt = true)
    (hbelow : entries ++ [resume] <+: m.registers.stack.entries)
    (hdeeper : ∀ event ∈ m.events ops,
      event.outcome.machine.registers.stack.depth.toNat ≠ entries.length) :
    entries ++ [resume] <+: (m.reached ops).registers.stack.entries := by
  induction ops generalizing m with
  | nil => exact hbelow
  | cons op rest ih =>
      rw [List.forall_mem_cons] at hops
      rw [events, List.forall_mem_cons] at hdeeper
      have hlength := hdeeper.1
      rw [(refines_attempt hdepth hops.1).depth] at hlength
      refine ih (depth_performed_le hdepth op) hops.2 ?_ hdeeper.2
      rw [entries_performed hdepth hops.1]
      exact Event.prefix_entriesAfter hbelow hlength

/-- While no attempt after a call comes back to its depth, everything stays above the
address that the call pushed. -/
theorem prefix_of_call {m : Machine G} (hdepth : m.registers.stack.depth.toNat ≤ 16)
    {op : Operation} {ops : List Operation} {addr : UInt16} (hop : op.isAttempt = true)
    (hops : ∀ op ∈ ops, op.isAttempt = true) (hcall : (m.event op).before.fetched = .call addr)
    (hsuccess : (m.event op).outcome.fault = none)
    (hdeeper : ∀ event ∈ (m.performed op).machine.events ops,
      event.outcome.machine.registers.stack.depth ≠ m.registers.stack.depth) :
    m.registers.stack.entries ++ [m.registers.pc + 2] <+:
      ((m.performed op).machine.reached ops).registers.stack.entries := by
  have hpushed : (m.event op).entriesAfter m.registers.stack.entries =
      m.registers.stack.entries ++ [m.registers.pc + 2] := by
    rw [Event.entriesAfter, if_neg (by simp [hsuccess]), hcall]
    rfl
  refine prefix_reached (depth_performed_le hdepth op) hops ?_ ?_
  · refine ⟨[], ?_⟩
    rw [entries_performed hdepth hop, hpushed, List.append_nil]
  · intro event hevent hequal
    rw [CallStack.length_entries hdepth] at hequal
    exact hdeeper event hevent (UInt8.toNat_inj.mp hequal)

/-- The first return to come back to the depth of a call continues after the call and
leaves the return addresses that were there before it. -/
theorem return_of_call {m k : Machine G} (hdepth : m.registers.stack.depth.toNat ≤ 16)
    {op op' : Operation} {ops : List Operation} (hop : op.isAttempt = true)
    (hops : ∀ op ∈ ops, op.isAttempt = true) (hop' : op'.isAttempt = true)
    (hk : (m.performed op).machine.reached ops = k)
    (h : (m.event op).Matches ((m.performed op).machine.events ops) (k.event op')) :
    (k.event op').outcome.fault = none ∧
      (k.event op').outcome.machine.registers.pc = m.registers.pc + 2 ∧
      (k.event op').outcome.machine.registers.stack.entries = m.registers.stack.entries := by
  obtain ⟨⟨addr, hcall⟩, hsuccess, hdeeper, hret, hback⟩ := h
  have hbelow : m.registers.stack.entries ++ [m.registers.pc + 2] <+:
      k.registers.stack.entries :=
    hk ▸ prefix_of_call hdepth hop hops hcall hsuccess hdeeper
  have hkdepth : k.registers.stack.depth.toNat ≤ 16 :=
    hk ▸ depth_reached_le (depth_performed_le hdepth op) ops
  have hrefines := refines_attempt hkdepth hop'
  have hlength : ((k.event op').entriesAfter k.registers.stack.entries).length =
      m.registers.stack.entries.length := by
    rw [← hrefines.depth, hback]
    exact (CallStack.length_entries hdepth).symm
  have hlonger := hbelow.length_le
  rw [List.length_append, List.length_singleton] at hlonger
  cases hfault : (k.event op').outcome.fault with
  | some fault =>
      rw [Event.entriesAfter, if_pos (by simp [hfault])] at hlength
      omega
  | none =>
      have hpopped : (k.event op').entriesAfter k.registers.stack.entries =
          k.registers.stack.entries.dropLast := by
        rw [Event.entriesAfter, if_neg (by simp [hfault]), hret]
      rw [hpopped, List.length_dropLast] at hlength
      have hstack : m.registers.stack.entries ++ [m.registers.pc + 2] =
          k.registers.stack.entries := by
        apply hbelow.eq_of_length
        rw [List.length_append, List.length_singleton]
        omega
      have hresumes := hrefines.resumes hret hfault
      rw [← hstack, List.getLast?_concat, Option.some.injEq] at hresumes
      refine ⟨rfl, hresumes.symm, ?_⟩
      rw [hrefines.after, hpopped, ← hstack, List.dropLast_concat]

/-- Throughout every history of attempts the slots in use are the list of return
addresses that the attempts before make, and every return that comes back to the depth
of a call continues after it. -/
theorem call_stack_law (m : Machine G) (hdepth : m.registers.stack.depth.toNat ≤ 16)
    (ops : List Operation) (hops : ∀ op ∈ ops, op.isAttempt = true) :
    m.Overflows ops ∨ ∃ events, m.history ops = .ok events ∧
      (∀ front event back, events = front ++ event :: back →
        event.Refines
          (front.foldl (fun entries earlier => earlier.entriesAfter entries)
            m.registers.stack.entries)) ∧
      ∀ front call inside ret back, events = front ++ call :: (inside ++ ret :: back) →
        call.Matches inside ret →
        ret.outcome.fault = none ∧
          ret.outcome.machine.registers.pc = call.before.registers.pc + 2 ∧
          ret.outcome.machine.registers.stack.entries = call.before.registers.stack.entries := by
  by_cases hover : m.Overflows ops
  · exact Or.inl hover
  · refine Or.inr ⟨m.events ops, history_eq hdepth hover, ?_, ?_⟩
    · intro front event back hevents
      obtain ⟨earlier, op, later, rfl, rfl, rfl, rfl⟩ := events_eq_append_cons hevents
      rw [List.forall_mem_append, List.forall_mem_cons] at hops
      rw [← entries_reached hdepth hops.1]
      exact refines_attempt (depth_reached_le hdepth earlier) hops.2.1
    · intro front call inside ret back hevents hmatches
      obtain ⟨earlier, op, rest, rfl, rfl, rfl, hrest⟩ := events_eq_append_cons hevents
      obtain ⟨between, op', later, rfl, rfl, rfl, rfl⟩ := events_eq_append_cons hrest.symm
      simp only [List.forall_mem_append, List.forall_mem_cons] at hops
      exact return_of_call (depth_reached_le hdepth earlier) hops.2.1 hops.2.2.1 hops.2.2.2.1 rfl
        hmatches

/-- A program that calls a subroutine, which calls another one. -/
def nestedCalls : Machine Lcg :=
  let program : List UInt8 := [0x22, 0x04, 0x12, 0x02, 0x22, 0x08, 0x00, 0xEE, 0x00, 0xEE]
  { powerOn Lcg.standard with memory := Memory.powerOn.load Memory.programStart program }

theorem call_stack_law_nestedCalls :
    nestedCalls.registers.stack.depth.toNat ≤ 16 ∧
      (∀ op ∈ [Operation.cycle, .step, .step, .cycle], op.isAttempt = true) ∧
      ∃ call inside ret,
        nestedCalls.history [.cycle, .step, .step, .cycle] = .ok (call :: (inside ++ [ret])) ∧
        call.Matches inside ret ∧ ret.outcome.machine.registers.pc = 0x202 := by
  have hdepth : nestedCalls.registers.stack.depth.toNat ≤ 16 := by decide
  have hops : ∀ op ∈ [Operation.cycle, .step, .step, .cycle], op.isAttempt = true := by decide
  have hover : ¬nestedCalls.Overflows [.cycle, .step, .step, .cycle] :=
    not_overflows_of_lt hdepth (by decide)
  let called := (nestedCalls.performed .cycle).machine
  let back := called.reached [.step, .step]
  have hrun : nestedCalls.fetched = .call 0x204 ∧
      (nestedCalls.event .cycle).outcome.fault = none ∧
      (∀ event ∈ called.events [.step, .step],
        event.outcome.machine.registers.stack.depth ≠ nestedCalls.registers.stack.depth) ∧
      back.fetched = .ret ∧
      (back.event .cycle).outcome.machine.registers.stack.depth =
        nestedCalls.registers.stack.depth := by
    decide +kernel
  obtain ⟨hcall, hsuccess, hdeeper, hret, hback⟩ := hrun
  have hmatches : (nestedCalls.event .cycle).Matches (called.events [.step, .step])
      (back.event .cycle) :=
    ⟨⟨0x204, hcall⟩, hsuccess, hdeeper, hret, hback⟩
  rcases call_stack_law nestedCalls hdepth _ hops with hlimit | ⟨events, hevents, -, hreturn⟩
  · exact absurd hlimit hover
  · obtain rfl := Except.ok.inj ((history_eq hdepth hover).symm.trans hevents)
    obtain ⟨-, hpc, -⟩ := hreturn [] _ _ _ [] rfl hmatches
    exact ⟨hdepth, hops, nestedCalls.event .cycle, called.events [.step, .step],
      back.event .cycle, hevents, hmatches, hpc⟩

end Machine

end Chip8
