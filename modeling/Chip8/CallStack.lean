import Chip8.Checked

/-!
# Call stack

Sixteen slots for return addresses and the number of slots in use.  A slot that
is given up keeps its old content until it is used again.

Main results:

- Theorem `CallStack.length_entries`: the live part has as many addresses as
  slots are in use.
-/

namespace Chip8

/-- The return addresses of the calls under way. -/
structure CallStack where
  /-- All slots, the lowest first; those from `depth` on are not in use. -/
  slots : Vector UInt16 16
  /-- How many slots are in use. -/
  depth : UInt8
  deriving DecidableEq

namespace CallStack

/-- How many slots there are. -/
def capacity : Nat := 16

/-- No slot in use and every slot zero. -/
def empty : CallStack := ⟨.replicate 16 0, 0⟩

/-- The return addresses of the calls under way, the oldest first. -/
def entries (stack : CallStack) : List UInt16 := stack.slots.toList.take stack.depth.toNat

/-- The newest return address, if there is one. -/
def top? (stack : CallStack) : Option UInt16 :=
  if stack.depth = 0 then none else stack.slots[stack.depth.toNat - 1]?

/-- The stack with one more return address, or nothing if every slot is in
use. -/
def push (stack : CallStack) (addr : UInt16) : Checked (Option CallStack) :=
  if h : stack.depth.toNat < 16 then do
    let depth ← Checked.addByte stack.depth 1
    return some { slots := stack.slots.set stack.depth.toNat addr, depth }
  else
    return none

/-- The newest return address and the stack without it, or nothing if no slot is
in use. -/
def pop (stack : CallStack) : Checked (Option (UInt16 × CallStack)) :=
  if stack.depth = 0 then
    return none
  else do
    let depth ← Checked.subByte stack.depth 1
    let addr ← Checked.index stack.slots depth.toNat
    return some (addr, { stack with depth })

/-- The stack that holds the given return addresses, the oldest first.  Addresses
beyond the sixteenth are left out and the slots not in use are zero. -/
def ofEntries (entries : List UInt16) : CallStack :=
  { slots := .ofFn fun k => entries[k.val]?.getD 0
    depth := UInt8.ofNat (min entries.length 16) }

/-- The live part has as many addresses as slots are in use. -/
theorem length_entries {stack : CallStack} (h : stack.depth.toNat ≤ 16) :
    stack.entries.length = stack.depth.toNat := by
  simp [entries, h]

/-- A stack made from addresses has at most sixteen slots in use. -/
theorem depth_ofEntries_le (entries : List UInt16) :
    (ofEntries entries).depth.toNat ≤ 16 := by
  simp only [ofEntries, UInt8.toNat_ofNat']
  omega

end CallStack

end Chip8
