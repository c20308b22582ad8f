import Chip8.Console

/-!
# What an observer finds

The paths that lead somewhere are those of the listing and, for the byte registers with a letter
for their digit, the same paths with that letter in upper case.  Each leads to the part of the
machine that it names, as the accessors of that part give it, whatever state the machine is in.
A console has two paths of its own and hands every path behind `cpu.` to its machine.

Main results:

- Theorem `Machine.isSome_query?`: the paths at which a machine has something to read.
- Theorem `Machine.observed`: what is read there.
- Theorem `Console.Probe.paths_eq`: the listing of a console written out.
- Theorem `Console.isSome_query?`: the paths at which a console has something to read.
- Theorem `Console.observation_law`: the machine and the console together.
-/

namespace Chip8

/-! ## The machine -/

/-- The registers with an upper-case path of their own are those from A on. -/
theorem Probe.upperPath_mem_or (x : Fin 16) :
    upperPath x ∈ paths ∨ ∃ c, 'A' ≤ c ∧ c ≤ 'F' ∧ upperPath x = String.ofList ['v', c] := by
  have hcase : ∀ x : Fin 16, upperPath x = path (.register x) ∨
      'A' ≤ Hex.digit x.val ∧ Hex.digit x.val ≤ 'F' := by decide
  rcases hcase x with hsame | ⟨hA, hF⟩
  · exact .inl (mem_paths.mpr ⟨_, hsame⟩)
  · exact .inr ⟨_, hA, hF, rfl⟩

theorem Probe.exists_eq_upperPath {c : Char} (h : 'A' ≤ c ∧ c ≤ 'F') :
    ∃ x, String.ofList ['v', c] = upperPath x := by
  obtain ⟨hlt, hc⟩ := Hex.eq_digit_of_upper h
  exact ⟨⟨c.toNat - 'A'.toNat + 10, by omega⟩, by rw [upperPath, ← hc]⟩

/-- The slots in use are listed in order. -/
theorem CallStack.getElem?_entries (stack : CallStack) {k : Nat} (hk : k < 16)
    (hdepth : k < stack.depth.toNat) : stack.entries[k]? = some stack.slots[k] := by
  simp [entries, hk, hdepth]

/-- The keys of the pad are listed in order. -/
theorem Keypad.getElem?_states (pad : Keypad) {key : UInt8} (h : key.toNat < 16) :
    pad.states[key.toNat]? = some (pad.isPressed key) := by
  simp [states, isPressed, h]

/-- What the paths of a machine lead to. -/
structure Machine.Observed {G : Type} (m : Machine G) : Prop where
  /-- The paths that are listed, in the order of the listing. -/
  listing : Probe.paths =
    ["v0", "v1", "v2", "v3", "v4", "v5", "v6", "v7", "v8", "v9", "va", "vb", "vc", "vd", "ve",
      "vf", "i", "pc", "sp", "stack", "opcode", "dt", "st", "keys", "display.lit", "ticks"]
  /-- The paths that lead somewhere. -/
  isSome_iff : ∀ p, (m.query? p).isSome = true ↔
    p ∈ Probe.paths ∨ ∃ c, 'A' ≤ c ∧ c ≤ 'F' ∧ p = String.ofList ['v', c]
  /-- A byte register under its digit of either case. -/
  register : ∀ x : UInt8, x.toNat < 16 → ∃ byte, m.register x = .ok byte ∧
    ∀ c, c = Nat.digitChar x.toNat ∨ c = Hex.digit x.toNat →
      m.query? (String.ofList ['v', c]) = some (.byte byte)
  index : m.query? "i" = some (.word m.snapshot.i)
  pc : m.query? "pc" = some (.word m.snapshot.pc)
  stackPointer : m.query? "sp" = some (.byte m.snapshot.stack.depth)
  /-- The slots in use, in order. -/
  stack : ∃ items, m.query? "stack" = some (.array items) ∧
    items.length = min m.snapshot.stack.depth.toNat 16 ∧
    ∀ k (h : k < 16), k < m.snapshot.stack.depth.toNat →
      items[k]? = some (.word m.snapshot.stack.slots[k])
  opcode : m.query? "opcode" = some (.word m.snapshot.opcode)
  delay : m.query? "dt" = some (.byte m.snapshot.delay)
  sound : m.query? "st" = some (.byte m.snapshot.sound)
  /-- Each key of the pad, in order. -/
  keys : ∃ items, m.query? "keys" = some (.array items) ∧ items.length = 16 ∧
    ∀ key : UInt8, key.toNat < 16 → items[key.toNat]? = some (.flag (m.keypad.isPressed key))
  litPixels : ∃ n, m.query? "display.lit" = some (.count n) ∧ n.toNat = m.screen.litCount
  ticks : m.query? "ticks" = some (.count m.ticks.count)

namespace Machine

variable {G : Type} (m : Machine G)

/-- A path leads somewhere if it is of the listing or names a register by an upper-case
letter. -/
theorem isSome_query? (p : String) :
    (m.query? p).isSome = true ↔
      p ∈ Probe.paths ∨ ∃ c, 'A' ≤ c ∧ c ≤ 'F' ∧ p = String.ofList ['v', c] := by
  constructor
  · intro h
    rw [query?, Option.isSome_map, Option.isSome_iff_exists] at h
    obtain ⟨probe, hprobe⟩ := h
    rcases Probe.ofPath?_eq_some_iff.mp hprobe with rfl | ⟨x, -, rfl⟩
    · exact .inl (Probe.mem_paths.mpr ⟨probe, rfl⟩)
    · exact Probe.upperPath_mem_or x
  · rintro (hp | ⟨c, hA, hF, rfl⟩)
    · obtain ⟨probe, rfl⟩ := Probe.mem_paths.mp hp
      rw [query?_path, Option.isSome_some]
    · obtain ⟨x, hx⟩ := Probe.exists_eq_upperPath ⟨hA, hF⟩
      rw [hx, query?_upperPath, Option.isSome_some]

theorem isSome_query?_of_mem {p : String} (h : p ∈ Probe.paths) : (m.query? p).isSome = true :=
  (m.isSome_query? p).mpr (.inl h)

/-- Every path leads to what it names. -/
theorem observed : m.Observed :=
  { listing := Probe.paths_eq
    isSome_iff := m.isSome_query?
    register := by
      intro x hx
      refine ⟨_, Registers.read_of_lt m.registers hx, ?_⟩
      rintro c (rfl | rfl)
      · rw [← Probe.path_register ⟨x.toNat, hx⟩]
        exact m.query?_path (.register ⟨x.toNat, hx⟩)
      · exact m.query?_upperPath ⟨x.toNat, hx⟩
    index := m.query?_path .index
    pc := m.query?_path .pc
    stackPointer := m.query?_path .stackPointer
    stack := by
      refine ⟨_, m.query?_path .stack, ?_, ?_⟩
      · simp [CallStack.entries, snapshot]
      · intro k hk hdepth
        rw [List.getElem?_map, m.registers.stack.getElem?_entries hk hdepth]
        rfl
    opcode := m.query?_path .opcode
    delay := m.query?_path .delay
    sound := m.query?_path .sound
    keys := by
      refine ⟨_, m.query?_path .keys, ?_, ?_⟩
      · simp [Keypad.states]
      · intro key hkey
        rw [List.getElem?_map, m.keypad.getElem?_states hkey]
        rfl
    litPixels := by
      refine ⟨_, m.query?_path .litPixels, ?_⟩
      have := m.screen.litCount_le
      rw [UInt64.toNat_ofNat']
      omega
    ticks := m.query?_path .ticks }

end Machine

/-! ## The console -/

/-- What the paths of a console lead to. -/
structure Console.Observed (console : Console) : Prop where
  /-- The paths that are listed, in the order of the listing. -/
  listing : Console.Probe.paths =
    ["frames", "ticks", "cpu.v0", "cpu.v1", "cpu.v2", "cpu.v3", "cpu.v4", "cpu.v5", "cpu.v6",
      "cpu.v7", "cpu.v8", "cpu.v9", "cpu.va", "cpu.vb", "cpu.vc", "cpu.vd", "cpu.ve", "cpu.vf",
      "cpu.i", "cpu.pc", "cpu.sp", "cpu.stack", "cpu.opcode", "cpu.dt", "cpu.st", "cpu.keys",
      "cpu.display.lit", "cpu.ticks"]
  /-- The paths that lead somewhere. -/
  isSome_iff : ∀ p, (console.query? p).isSome = true ↔ p = "frames" ∨ p = "ticks" ∨
    ∃ q, p = "cpu." ++ q ∧ (console.machine.query? q).isSome = true
  machine : ∀ q, console.query? ("cpu." ++ q) = console.machine.query? q
  frames : console.query? "frames" = some (.count console.frames)
  ticks : console.query? "ticks" = console.query? "cpu.ticks"
  /-- Every path of the listing leads somewhere. -/
  listed : ∀ p ∈ Console.Probe.paths, (console.query? p).isSome = true

namespace Console

variable (console : Console)

theorem query?_frames : console.query? "frames" = some (.count console.frames) := rfl

theorem query?_ticks : console.query? "ticks" = some (.count console.machine.ticks.count) := rfl

/-- The console lists its own paths and those of its machine. -/
theorem Probe.paths_eq_cons :
    Probe.paths = "frames" :: "ticks" :: Chip8.Probe.paths.map ("cpu." ++ ·) := by
  simp [Probe.paths, Probe.all, Chip8.Probe.paths, Probe.path]

/-- The listing of a console written out. -/
theorem Probe.paths_eq : Probe.paths =
    ["frames", "ticks", "cpu.v0", "cpu.v1", "cpu.v2", "cpu.v3", "cpu.v4", "cpu.v5", "cpu.v6",
      "cpu.v7", "cpu.v8", "cpu.v9", "cpu.va", "cpu.vb", "cpu.vc", "cpu.vd", "cpu.ve", "cpu.vf",
      "cpu.i", "cpu.pc", "cpu.sp", "cpu.stack", "cpu.opcode", "cpu.dt", "cpu.st", "cpu.keys",
      "cpu.display.lit", "cpu.ticks"] := by
  rw [Probe.paths_eq_cons, Chip8.Probe.paths_eq]
  rfl

/-- A path leads somewhere if it is one of the console's own or leads somewhere in its
machine. -/
theorem isSome_query? (p : String) :
    (console.query? p).isSome = true ↔ p = "frames" ∨ p = "ticks" ∨
      ∃ q, p = "cpu." ++ q ∧ (console.machine.query? q).isSome = true := by
  constructor
  · intro h
    rw [query?, Option.isSome_map, Probe.ofPath?] at h
    split at h
    next rest hp =>
      have hp' : p = "cpu." ++ String.ofList rest := by
        rw [← String.toList_inj, hp]
        simp
      rw [Option.isSome_map] at h
      refine .inr (.inr ⟨_, hp', ?_⟩)
      rw [Machine.query?, Option.isSome_map, h]
    next =>
      obtain ⟨probe, hprobe⟩ := Option.isSome_iff_exists.mp h
      have hpath := List.find?_some hprobe
      have hown := List.mem_of_find?_eq_some hprobe
      rw [List.mem_cons, List.mem_singleton] at hown
      rcases hown with rfl | rfl
      · exact .inl (beq_iff_eq.mp hpath).symm
      · exact .inr (.inl (beq_iff_eq.mp hpath).symm)
  · rintro (rfl | rfl | ⟨q, rfl, hq⟩)
    · rw [query?_frames, Option.isSome_some]
    · rw [query?_ticks, Option.isSome_some]
    · rw [query?_machine, hq]

/-- Every path leads to what it names. -/
theorem observed : console.Observed :=
  { listing := Probe.paths_eq
    isSome_iff := console.isSome_query?
    machine := console.query?_machine
    frames := console.query?_frames
    ticks := by
      have hcpu : console.query? "cpu.ticks" = console.machine.query? "ticks" :=
        console.query?_machine "ticks"
      rw [hcpu, console.machine.observed.ticks, query?_ticks]
    listed := by
      intro p hp
      rw [isSome_query?]
      rw [Probe.paths_eq_cons, List.mem_cons, List.mem_cons, List.mem_map] at hp
      rcases hp with rfl | rfl | ⟨q, hq, rfl⟩
      · exact .inl rfl
      · exact .inr (.inl rfl)
      · exact .inr (.inr ⟨q, rfl, console.machine.isSome_query?_of_mem hq⟩) }

/-- An observer finds every part of a machine and of a console under its path, as its
accessors give it, and finds nothing under any other path. -/
theorem observation_law {G : Type} (m : Machine G) (console : Console) :
    m.Observed ∧ console.Observed :=
  ⟨m.observed, console.observed⟩

end Console

end Chip8
