import Chip8.Machine.Operation
import Chip8.Machine.Run
import Chip8.Probe
import Chip8.Random.Lcg

/-!
# Console

A console is a machine with its own random source that runs in frames.  A frame
executes a fixed number of instructions and then ticks the timers once, so that
the timers keep the frame rate whatever the instruction rate is.  A fault ends
its frame at once: the timers do not tick and the frame is not counted.

Main results:

- Theorem `Console.query?_machine`: a path behind `cpu.` reads the machine.
-/

namespace Chip8

/-- How a console is set up. -/
structure Console.Config where
  /-- Instructions in a second. -/
  instructionRate : UInt64 := 700
  /-- Frames, and so timer ticks, in a second. -/
  frameRate : UInt64 := 60
  /-- What the random source starts from, if not from its default. -/
  seed : Option UInt32 := none
  deriving DecidableEq

/-- A machine that runs in frames. -/
structure Console where
  /-- The machine. -/
  machine : Machine Lcg
  /-- Instructions in a frame. -/
  ticksPerFrame : Ticks
  /-- Frames completed. -/
  frames : UInt64
  deriving DecidableEq

/-- What a frame comes to. -/
structure Frame where
  /-- The console after the frame. -/
  console : Console
  /-- How many instructions were executed, or why the frame ended early. -/
  result : Except Fault Ticks
  /-- The entries written, in order. -/
  log : Array Log.Entry

namespace Console

/-! ## Set-up -/

/-- The random source that a configuration asks for. -/
def Config.random (config : Config) : Lcg :=
  match config.seed with
  | none => .standard
  | some seed => ⟨seed⟩

/-- The instructions in a frame of a configuration. -/
def Config.ticksPerFrame (config : Config) : Ticks :=
  (⟨config.instructionRate⟩ : Clock).ticksPerFrame config.frameRate

/-- A new console. -/
def new (config : Config) : Console :=
  { machine := .powerOn config.random
    ticksPerFrame := config.ticksPerFrame
    frames := 0 }

/-- What is written when a console is set up. -/
def setupLog (config : Config) : Array Log.Entry :=
  #[.paced config.ticksPerFrame config.frameRate]
    ++ (Machine.boot config.random).log

/-! ## Frames -/

/-- Run one frame: its instructions, then one tick of the timers. -/
def runFrame (console : Console) : Checked Frame := do
  let run ← console.machine.run Machine.step console.ticksPerFrame
  match run.fault with
  | some fault =>
    return { console := { console with machine := run.machine }
             result := .error fault
             log := run.log }
  | none => do
    let frames ← Checked.addCount console.frames 1
    return { console := { console with machine := run.machine.tickTimers, frames }
             result := .ok run.completed
             log := run.log }

/-! ## Looking -/

/-- A quantity of the console. -/
inductive Probe where
  /-- How many frames were completed. -/
  | frames
  /-- How many instructions were attempted. -/
  | ticks
  /-- A quantity of the machine. -/
  | machine (probe : Chip8.Probe)
  deriving DecidableEq

/-- The path of a probe. -/
def Probe.path : Probe → String
  | .frames => "frames"
  | .ticks => "ticks"
  | .machine probe => "cpu." ++ probe.path

/-- All probes in the order of the listing. -/
def Probe.all : List Probe := [.frames, .ticks] ++ Chip8.Probe.all.map .machine

/-- The paths of all probes in the order of the listing. -/
def Probe.paths : List String := Probe.all.map Probe.path

/-- The probe that a path names, if it names one. -/
def Probe.ofPath? (path : String) : Option Probe :=
  match path.toList with
  | 'c' :: 'p' :: 'u' :: '.' :: rest =>
    (Chip8.Probe.ofPath? (String.ofList rest)).map .machine
  | _ => [Probe.frames, Probe.ticks].find? fun probe => probe.path == path

/-- What a probe reads. -/
def read (console : Console) : Probe → Value
  | .frames => .count console.frames
  | .ticks => .count console.machine.ticks.count
  | .machine probe => console.machine.read probe

/-- What a path reads, if it names a probe. -/
def query? (console : Console) (path : String) : Option Value :=
  (Probe.ofPath? path).map console.read

/-- A path behind `cpu.` reads the machine. -/
theorem query?_machine (console : Console) (path : String) :
    console.query? ("cpu." ++ path) = console.machine.query? path := by
  simp [query?, Probe.ofPath?, Machine.query?, Function.comp_def, read]

end Console

end Chip8
