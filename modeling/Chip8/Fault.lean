import Chip8.Text.Hex

/-!
# Faults

A fault is a refusal that the machine survives: the program is too large, the
call stack is at one of its limits, or an instruction asks for a key the pad
does not have.  A fault of an instruction names the address the instruction was
fetched from.
-/

namespace Chip8

/-- A refusal that leaves the machine usable. -/
inductive Fault where
  /-- A program image of `size` bytes was offered where `max` fit. -/
  | programTooLarge (size max : Nat)
  /-- The call at `pc` found every return slot in use. -/
  | stackOverflow (pc : UInt16)
  /-- The return at `pc` found no return slot in use. -/
  | stackUnderflow (pc : UInt16)
  /-- The instruction at `pc` tested a key beyond the pad. -/
  | invalidKey (key : UInt8) (pc : UInt16)
  deriving DecidableEq

/-- The report of a fault. -/
def Fault.message : Fault → String
  | .programTooLarge size max =>
    "program image is " ++ toString size ++ " bytes but only " ++ toString max
      ++ " bytes fit from 0x200"
  | .stackOverflow pc =>
    "stack overflow: call at " ++ Hex.padded 3 pc.toNat ++ " with all 16 return slots in use"
  | .stackUnderflow pc =>
    "stack underflow: return at " ++ Hex.padded 3 pc.toNat ++ " with an empty call stack"
  | .invalidKey key pc =>
    "key " ++ Hex.padded 2 key.toNat ++ " tested at " ++ Hex.padded 3 pc.toNat
      ++ " is outside the 16-key pad"

end Chip8
