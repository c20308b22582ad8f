import Chip8.Console

/-!
# Operations on a console

What can be done to a console from outside: run a frame, put a program into
memory, or do anything to its machine.

Main results:

- Theorem `Console.ticksPerFrame_of_perform`: no operation changes the length of
  a frame.
-/

namespace Chip8.Console

/-- One thing done to a console. -/
inductive Operation where
  /-- Run a frame. -/
  | frame
  /-- Put a program into memory. -/
  | loadProgram (image : List UInt8)
  /-- Something is done to the machine. -/
  | machine (op : Chip8.Operation)
  deriving DecidableEq

/-- What an operation on a console comes to. -/
structure Outcome where
  /-- The console after the operation. -/
  console : Console
  /-- How many instructions a frame executed, or why the operation was
  refused. -/
  result : Except Fault (Option Ticks)
  /-- The entries written, in order. -/
  log : Array Log.Entry

/-- The console after something was done to its machine. -/
def afterMachine (console : Console) (outcome : Chip8.Outcome Lcg) : Outcome :=
  { console := { console with machine := outcome.machine }
    result := match outcome.fault with
      | some fault => .error fault
      | none => .ok none
    log := outcome.log }

/-- What an operation comes to. -/
def perform (console : Console) : Operation → Checked Outcome
  | .frame => do
    let frame ← console.runFrame
    return { console := frame.console, result := frame.result.map some, log := frame.log }
  | .loadProgram image => return console.afterMachine (console.machine.loadProgram image)
  | .machine op => return console.afterMachine (← console.machine.perform op)

/-- What operations come to one after another, each starting from the console
that the one before it left. -/
def outcomes (console : Console) : List Operation → Checked (List Outcome)
  | [] => return []
  | op :: rest => do
    let outcome ← console.perform op
    let later ← outcome.console.outcomes rest
    return outcome :: later

/-- The console after operations one after another. -/
def performAll (console : Console) : List Operation → Checked Console
  | [] => return console
  | op :: rest => do
    let outcome ← console.perform op
    outcome.console.performAll rest

/-- No frame changes the length of a frame. -/
theorem ticksPerFrame_of_runFrame {console : Console} {frame : Frame}
    (h : console.runFrame = .ok frame) :
    frame.console.ticksPerFrame = console.ticksPerFrame := by
  obtain ⟨run, -, h⟩ := Checked.bind_eq_ok.mp h
  cases hfault : run.fault with
  | some fault =>
    simp only [hfault] at h
    cases h
    rfl
  | none =>
    simp only [hfault] at h
    obtain ⟨frames, -, h⟩ := Checked.bind_eq_ok.mp h
    cases h
    rfl

/-- No operation changes the length of a frame. -/
theorem ticksPerFrame_of_perform {console : Console} {op : Operation} {outcome : Outcome}
    (h : console.perform op = .ok outcome) :
    outcome.console.ticksPerFrame = console.ticksPerFrame := by
  cases op with
  | frame =>
    obtain ⟨frame, hframe, h⟩ := Checked.bind_eq_ok.mp h
    cases h
    exact ticksPerFrame_of_runFrame hframe
  | loadProgram image =>
    cases h
    rfl
  | machine op =>
    obtain ⟨reached, -, h⟩ := Checked.bind_eq_ok.mp h
    cases h
    rfl

end Chip8.Console
