import Chip8.Fault
import Chip8.Instruction.Assembly
import Chip8.Memory
import Chip8.Pacing

/-!
# Log

The machine reports what it does as log entries.  An entry has a level and a
text, and a log line is the two with a blank between them.
-/

namespace Chip8.Log

/-- How much an entry matters. -/
inductive Level where
  /-- Every instruction. -/
  | trace
  /-- Notable events. -/
  | debug
  /-- Faults. -/
  | warn
  deriving DecidableEq

/-- The name of a level. -/
def Level.text : Level → String
  | .trace => "TRACE"
  | .debug => "DEBUG"
  | .warn => "WARN"

/-- Something that the machine reports. -/
inductive Entry where
  /-- The console runs `perFrame` instructions in each of `rate` frames a
  second. -/
  | paced (perFrame : Ticks) (rate : UInt64)
  /-- The machine is in its power-on state. -/
  | poweredOn
  /-- A program of `size` bytes is in place. -/
  | loaded (size : Nat)
  /-- The word `opcode` was fetched at `pc` and stands for `ins`. -/
  | fetched (pc opcode : UInt16) (ins : Instruction)
  /-- The instruction fetched at `pc` is passed over. -/
  | ignored (ins : Instruction) (pc : UInt16)
  /-- An instruction was refused. -/
  | refused (fault : Fault)
  deriving DecidableEq

namespace Entry

/-- The level of an entry. -/
def level : Entry → Level
  | .fetched _ _ _ => .trace
  | .refused _ => .warn
  | _ => .debug

/-- The text of an entry. -/
def text : Entry → String
  | .paced perFrame rate =>
    "chip8: " ++ toString perFrame.count.toNat ++ " instructions per frame at "
      ++ toString rate.toNat ++ " Hz"
  | .poweredOn => "chip8: initialized, pc=" ++ Hex.padded 3 Memory.programStart.toNat
  | .loaded size => "chip8: loaded " ++ toString size ++ " byte program"
  | .fetched pc opcode ins =>
    Hex.padded 3 pc.toNat ++ ": " ++ Hex.fixed 4 opcode.toNat ++ "  " ++ ins.text
  | .ignored ins pc => "chip8: ignoring " ++ ins.text ++ " at " ++ Hex.padded 3 pc.toNat
  | .refused fault => "chip8: " ++ fault.message

/-- The log line of an entry. -/
def line (entry : Entry) : String := entry.level.text ++ " " ++ entry.text

end Entry

end Chip8.Log
