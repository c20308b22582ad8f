import Chip8.Machine
import Chip8.Value

/-!
# Probes

A probe names one quantity of the machine for an observer.  Every probe has a
path; the paths of the byte registers may also be written with an upper-case
digit.

Main results:

- Theorem `Probe.ofPath?_path`: every probe is found under its path.
- Theorem `Probe.ofPath?_eq_some_iff`: nothing else is found.
- Theorem `Probe.paths_eq`: the listing written out.
- Theorem `Machine.query?_path`: the path of a probe reads the probe.
-/

namespace Chip8

/-- A quantity of the machine. -/
inductive Probe where
  /-- A byte register. -/
  | register (x : Fin 16)
  /-- The index register. -/
  | index
  /-- The program counter. -/
  | pc
  /-- How many return addresses there are. -/
  | stackPointer
  /-- The return addresses, the oldest first. -/
  | stack
  /-- The instruction word fetched last. -/
  | opcode
  /-- The delay timer. -/
  | delay
  /-- The sound timer. -/
  | sound
  /-- The state of each key. -/
  | keys
  /-- How many pixels are lit. -/
  | litPixels
  /-- How many instructions were attempted. -/
  | ticks
  deriving DecidableEq

namespace Probe

/-! ## Paths -/

/-- The probes other than the byte registers, in the order of the listing. -/
def fixed : List Probe :=
  [.index, .pc, .stackPointer, .stack, .opcode, .delay, .sound, .keys, .litPixels, .ticks]

/-- All probes in the order of the listing. -/
def all : List Probe := (List.finRange 16).map .register ++ fixed

/-- The path of a probe. -/
def path : Probe → String
  | .register x => "v" ++ String.ofList [Nat.digitChar x.val]
  | .index => "i"
  | .pc => "pc"
  | .stackPointer => "sp"
  | .stack => "stack"
  | .opcode => "opcode"
  | .delay => "dt"
  | .sound => "st"
  | .keys => "keys"
  | .litPixels => "display.lit"
  | .ticks => "ticks"

/-- The register named by what follows the letter v: one hexadecimal digit of
either case. -/
def registerOfDigits? : List Char → Option Probe
  | [c] => (Hex.digitValue? c).map fun x => .register (Fin.ofNat 16 x)
  | _ => none

/-- The probe that a path names, if it names one. -/
def ofPath? (path : String) : Option Probe :=
  match path.toList with
  | 'v' :: digits => registerOfDigits? digits
  | _ => fixed.find? fun probe => probe.path == path

/-- Every probe is found under its path. -/
theorem ofPath?_path (probe : Probe) : ofPath? probe.path = some probe := by
  cases probe with
  | register x => revert x; decide
  | _ => decide

/-- The path of a byte register has a lower-case digit. -/
theorem path_register (x : Fin 16) :
    path (.register x) = String.ofList ['v', Nat.digitChar x.val] := by
  rw [← String.toList_inj]
  simp [path]

/-- The path of a byte register with an upper-case digit. -/
def upperPath (x : Fin 16) : String := String.ofList ['v', Hex.digit x.val]

theorem ofPath?_upperPath (x : Fin 16) : ofPath? (upperPath x) = some (.register x) := by
  revert x
  decide

/-- A probe is found under its path, a register also with an upper-case digit, and nowhere
else. -/
theorem ofPath?_eq_some_iff {p : String} {probe : Probe} :
    ofPath? p = some probe ↔
      p = probe.path ∨ ∃ x, probe = .register x ∧ p = upperPath x := by
  constructor
  · intro h
    rw [ofPath?] at h
    split at h
    next digits hp =>
      unfold registerOfDigits? at h
      split at h
      next c =>
        obtain ⟨n, hn, rfl⟩ := Option.map_eq_some_iff.mp h
        obtain ⟨hlt, hc⟩ := Hex.digitValue?_eq_some_iff.mp hn
        have hval : (Fin.ofNat 16 n).val = n := Nat.mod_eq_of_lt hlt
        rcases hc with rfl | rfl
        · left
          rw [← String.toList_inj, hp, path_register, hval, String.toList_ofList]
        · right
          refine ⟨_, rfl, ?_⟩
          rw [← String.toList_inj, hp, upperPath, hval, String.toList_ofList]
      next => cases h
    next =>
      have hpath := List.find?_some h
      exact .inl (beq_iff_eq.mp hpath).symm
  · rintro (rfl | ⟨x, rfl, rfl⟩)
    · exact ofPath?_path probe
    · exact ofPath?_upperPath x

/-! ## The listing -/

/-- The paths of all probes in the order of the listing. -/
def paths : List String := all.map path

theorem mem_all (probe : Probe) : probe ∈ all := by
  cases probe with
  | register x => revert x; decide
  | _ => decide

/-- The listing written out. -/
theorem paths_eq :
    paths =
      ["v0", "v1", "v2", "v3", "v4", "v5", "v6", "v7", "v8", "v9", "va", "vb", "vc", "vd", "ve",
        "vf", "i", "pc", "sp", "stack", "opcode", "dt", "st", "keys", "display.lit", "ticks"] := by
  decide

/-- The listing has the path of every probe. -/
theorem mem_paths {p : String} : p ∈ paths ↔ ∃ probe : Probe, p = probe.path := by
  simp [paths, mem_all, eq_comm]

end Probe

namespace Machine

variable {G : Type}

/-- What a probe reads. -/
def read (m : Machine G) : Probe → Value
  | .register x => .byte (m.registers.v.get x)
  | .index => .word m.registers.i
  | .pc => .word m.registers.pc
  | .stackPointer => .byte m.registers.stack.depth
  | .stack => .ofWords m.registers.stack.entries
  | .opcode => .word m.registers.opcode
  | .delay => .byte m.timers.delay
  | .sound => .byte m.timers.sound
  | .keys => .ofFlags m.keypad.states
  | .litPixels => .count (UInt64.ofNat m.screen.litCount)
  | .ticks => .count m.ticks.count

/-- What a path reads, if it names a probe. -/
def query? (m : Machine G) (path : String) : Option Value :=
  (Probe.ofPath? path).map m.read

/-- The path of a probe reads the probe. -/
theorem query?_path (m : Machine G) (probe : Probe) :
    m.query? probe.path = some (m.read probe) := by
  rw [query?, Probe.ofPath?_path, Option.map_some]

theorem query?_upperPath (m : Machine G) (x : Fin 16) :
    m.query? (Probe.upperPath x) = some (m.read (.register x)) := by
  rw [query?, Probe.ofPath?_upperPath, Option.map_some]

end Machine

end Chip8
