import Chip8.Memory.Blocks
import Chip8.Proofs.CrashFreedom
import Chip8.Proofs.SpriteDraw

/-!
# The glyphs stay in their place

The glyphs lie in eighty cells below the start of programs.  Power-on and reset put them
there, a program image never reaches them however long it is, and the only instructions that
write to memory are the two that store.  As long as nothing is stored into one of the eighty
cells, every machine that operations reach from power-on still has all of the glyphs, and a
program that points at one and draws it gets the picture of its digit.

Main results:

- Theorem `Machine.hasGlyphs_performed`: an operation that stores into none of the eighty
  cells leaves the glyphs in place.
- Theorem `Machine.hasGlyphs_reached`: so do operations one after another.
- Theorem `Machine.drawsGlyphs_of_hasGlyphs`: with the glyphs in place, pointing at a glyph
  and drawing it draws its five rows.
- Theorem `Machine.glyph_law`: so it is throughout every history from power-on.
-/

namespace Chip8

/-! ## Glyphs in memory -/

/-- The cell of an address is one of the eighty that the glyphs lie in. -/
def Glyphs.Occupies (addr : UInt16) : Prop :=
  0x050 ≤ addr.toNat % 4096 ∧ addr.toNat % 4096 ≤ 0x09F

/-- The rows of the glyph of a digit. -/
def Glyphs.rowsOf (digit : Nat) : List UInt8 := (rows.drop (5 * digit)).take 5

theorem Glyphs.length_rowsOf {digit : Nat} (h : digit ≤ 15) : (rowsOf digit).length = 5 := by
  rw [rowsOf, List.length_take, List.length_drop, length_rows]
  change min 5 (80 - 5 * digit) = 5
  omega

namespace Memory

variable {mem mem' : Memory}

/-- The eighty cells hold the glyphs. -/
def HasGlyphs (mem : Memory) : Prop := mem.Holds Glyphs.start Glyphs.rows

/-- At power-on the glyphs are in place. -/
theorem hasGlyphs_powerOn : powerOn.HasGlyphs :=
  holds_load _ _ (by decide)

/-- What the eighty cells hold is all that matters to the glyphs. -/
theorem HasGlyphs.congr (h : mem.HasGlyphs)
    (hread : ∀ addr, Glyphs.Occupies addr → mem'.read addr = mem.read addr) :
    mem'.HasGlyphs := by
  refine Holds.congr h ?_
  intro k addr hk hcell
  apply hread
  have hlength : Glyphs.rows.length = 80 := rfl
  have hstart : Glyphs.start.toNat = 0x050 := rfl
  unfold Glyphs.Occupies
  omega

/-- The five cells from the glyph of a digit on hold its rows. -/
theorem HasGlyphs.readBlock (h : mem.HasGlyphs) {digit : UInt8} (hdigit : digit.toNat ≤ 15) :
    mem.readBlock (Glyphs.start + Glyphs.height * digit.toUInt16) 5 =
      Glyphs.rowsOf digit.toNat := by
  have haddr : Glyphs.start + Glyphs.height * digit.toUInt16 =
      Glyphs.start + UInt16.ofNat (5 * digit.toNat) := by
    apply UInt16.toNat_inj.mp
    have hheight : Glyphs.height.toNat = 5 := rfl
    rw [UInt16.toNat_add, UInt16.toNat_add, UInt16.toNat_mul, hheight, UInt8.toNat_toUInt16,
      UInt16.toNat_ofNat']
  have hrows := Holds.slice h (5 * digit.toNat) 5
  rw [← haddr] at hrows
  have hread := hrows.readBlock_eq
  rwa [← Glyphs.rowsOf, Glyphs.length_rowsOf hdigit] at hread

end Memory

/-! ## Stores -/

namespace Event

variable {G : Type}

/-- The event stores a byte where the program or its user chose, in the cell of an address.
-/
def StoresAt (event : Event G) (addr : UInt16) : Prop :=
  match event.op with
  | .step | .cycle => event.before.Touches event.before.fetched (.cell addr)
  | .load start bytes => ∃ k < bytes.length, (start.toNat + k) % 4096 = addr.toNat % 4096
  | .write start _ => start.toNat % 4096 = addr.toNat % 4096
  | _ => False

/-- The event stores nothing into the cells of the glyphs. -/
def SparesGlyphs (event : Event G) : Prop :=
  ∀ addr, Glyphs.Occupies addr → ¬event.StoresAt addr

end Event

namespace Machine

variable {G : Type}

/-- A program image is put above the glyphs. -/
theorem read_loadProgram_of_occupies (m : Machine G) (image : List UInt8) {addr : UInt16}
    (h : Glyphs.Occupies addr) :
    (m.loadProgram image).machine.memory.read addr = m.memory.read addr := by
  by_cases hfits : image.length ≤ Memory.maxProgramSize
  · rw [loadProgram_of_ok (Memory.loadProgram_eq_load m.memory hfits)]
    apply Memory.read_load_of_untouched
    intro k hk
    have hstart : Memory.programStart.toNat = 0x200 := rfl
    have hmax : Memory.maxProgramSize = 3584 := rfl
    unfold Glyphs.Occupies at h
    omega
  · have hrefused : m.memory.loadProgram image =
        .error (.programTooLarge image.length Memory.maxProgramSize) := if_neg hfits
    rw [loadProgram_of_error hrefused]
    rfl

variable [RandomSource G] {m : Machine G}

/-- A step keeps the cells that its instruction does not touch. -/
theorem read_stepped {addr : UInt16} (h : ¬m.Touches m.fetched (.cell addr)) :
    m.stepped.machine.memory.read addr = m.memory.read addr := by
  by_cases hfault : m.stepped.fault = none
  · rw [stepped_of_success hfault]
    exact read_nextMemory (m := m.afterFetch) h
  · rw [stepped_of_refused hfault]
    rfl

/-- An operation keeps the cells of the glyphs that it does not store into, unless it is a
reset. -/
theorem read_performed {op : Operation} (hreset : op ≠ .reset) {addr : UInt16}
    (haddr : Glyphs.Occupies addr) (h : ¬(m.event op).StoresAt addr) :
    (m.performed op).machine.memory.read addr = m.memory.read addr := by
  cases op with
  | step => exact read_stepped h
  | cycle =>
      rw [performed, cycled, Outcome.memory_ticked]
      exact read_stepped h
  | reset => exact absurd rfl hreset
  | loadProgram image => exact read_loadProgram_of_occupies m image haddr
  | load start bytes =>
      apply Memory.read_load_of_untouched
      intro k hk hcell
      exact h ⟨k, hk, hcell⟩
  | write start byte => exact (Memory.read_write _ _ _ _).trans (if_neg h)
  | setStack entries => simp only [performed, Outcome.done, setStack]
  | _ => rfl

/-- An operation that stores into none of their cells leaves the glyphs in place. -/
theorem hasGlyphs_performed {op : Operation} (h : m.memory.HasGlyphs)
    (hspares : (m.event op).SparesGlyphs) : (m.performed op).machine.memory.HasGlyphs := by
  by_cases hreset : op = .reset
  · subst hreset
    exact Memory.hasGlyphs_powerOn
  · apply h.congr
    intro addr haddr
    exact read_performed hreset haddr (hspares addr haddr)

/-- Operations that store into none of their cells leave the glyphs in place. -/
theorem hasGlyphs_reached {ops : List Operation} (h : m.memory.HasGlyphs)
    (hspares : ∀ e ∈ m.events ops, e.SparesGlyphs) : (m.reached ops).memory.HasGlyphs := by
  induction ops generalizing m with
  | nil => exact h
  | cons op rest ih =>
      rw [events, List.forall_mem_cons] at hspares
      exact ih (hasGlyphs_performed h hspares.1) hspares.2

/-! ## Glyphs on the screen -/

/-- Pointing at the glyph of a digit and then drawing five rows at Va and Vb is never refused
and flips the pixels that the rows of the glyph cover there, and no other. -/
def DrawsGlyphs (m : Machine G) : Prop :=
  ∀ (point draw : Operation) (x a b : UInt8), point.isAttempt = true → draw.isAttempt = true →
    m.fetched = .glyph x → (m.registers.get x).toNat ≤ 15 →
    m.Overflows [point, draw] ∨
      ∃ pointed drawn, m.history [point, draw] = .ok [pointed, drawn] ∧
        pointed.outcome.fault = none ∧
        (drawn.before.fetched = .draw a b 5 → drawn.outcome.fault = none ∧
          ∀ (column : Fin 64) (row : Fin 32), drawn.outcome.machine.screen.pixel column row =
            (m.screen.pixel column row ^^
              decide (m.SpriteCovers a b (Glyphs.rowsOf (m.registers.get x).toNat) column row)))

/-- Pointing at a glyph moves the index register there and leaves the byte registers, the
memory and the screen alone. -/
theorem performed_of_glyph {op : Operation} (hop : op.isAttempt = true) {x : UInt8}
    (hins : m.fetched = .glyph x) :
    (m.performed op).fault = none ∧ (m.performed op).machine.registers.v = m.registers.v ∧
      (m.performed op).machine.registers.i =
        Glyphs.start + Glyphs.height * (m.registers.get x).toUInt16 ∧
      (m.performed op).machine.memory = m.memory ∧
      (m.performed op).machine.screen = m.screen := by
  rcases stepped_of_fetched hins rfl with ⟨hsuccess, heffect⟩
  rcases m.performed_of_isAttempt hop with ⟨hfault, hregisters⟩
  rcases m.devices_performed_of_isAttempt hop with ⟨hmemory, hscreen⟩
  rw [hfault, hregisters, hmemory, hscreen, heffect]
  exact ⟨hsuccess, rfl, rfl, rfl, rfl⟩

/-- With the glyphs in place, pointing at one and drawing it draws its five rows: the machine
in between has the index register at the glyph and the old screen. -/
theorem drawsGlyphs_of_hasGlyphs (hdepth : m.registers.stack.depth.toNat ≤ 16)
    (h : m.memory.HasGlyphs) : m.DrawsGlyphs := by
  intro point draw x a b hpoint hdraw hins hdigit
  by_cases hover : m.Overflows [point, draw]
  · exact Or.inl hover
  refine Or.inr ⟨_, _, history_eq hdepth hover, (performed_of_glyph hpoint hins).1, ?_⟩
  intro hdrawn
  rcases performed_of_glyph hpoint hins with ⟨-, hbytes, hindex, hmemory, hscreen⟩
  let pointed := (m.performed point).machine
  have hsprite : pointed.sprite 5 = Glyphs.rowsOf (m.registers.get x).toNat := by
    rw [sprite, hmemory, hindex]
    exact h.readBlock hdigit
  have hget (z : UInt8) : pointed.registers.get z = m.registers.get z := by
    simp only [Registers.get, pointed, hbytes]
  have hdraws := draws_stepped (m := pointed) hdrawn
  refine ⟨(pointed.performed_of_isAttempt hdraw).1.trans hdraws.success, ?_⟩
  intro column row
  have hpixel := hdraws.pixel column row
  rw [← (pointed.devices_performed_of_isAttempt hdraw).2] at hpixel
  simp only [SpriteCovers, hget, hsprite, pointed, hscreen] at hpixel
  exact hpixel

/-! ## Every history from power-on -/

/-- From power-on, and through any resets and any programs loaded, the glyphs are in place as
long as nothing is stored into their cells: before every operation and after the last.  In
every such machine, pointing at the glyph of a digit and drawing it at any place draws the
five rows of that digit. -/
theorem glyph_law (g : G) (ops : List Operation) :
    (powerOn g).Overflows ops ∨
    ∃ events last, (powerOn g).history ops = .ok events ∧ (powerOn g).performAll ops = .ok last ∧
      ((∀ e ∈ events, e.SparesGlyphs) →
        (∀ e ∈ events, e.before.memory.HasGlyphs ∧ e.before.DrawsGlyphs) ∧
          last.memory.HasGlyphs ∧ last.DrawsGlyphs) := by
  have hdepth := depth_powerOn_le g
  by_cases hover : (powerOn g).Overflows ops
  · exact Or.inl hover
  refine Or.inr ⟨_, _, history_eq hdepth hover, performAll_eq hdepth hover, ?_⟩
  intro hspares
  have hreached (earlier : List Operation)
      (hearlier : ∀ e ∈ (powerOn g).events earlier, e.SparesGlyphs) :
      ((powerOn g).reached earlier).memory.HasGlyphs ∧
        ((powerOn g).reached earlier).DrawsGlyphs := by
    have hglyphs := hasGlyphs_reached Memory.hasGlyphs_powerOn hearlier
    exact ⟨hglyphs, drawsGlyphs_of_hasGlyphs (depth_reached_le hdepth earlier) hglyphs⟩
  refine ⟨?_, hreached ops hspares⟩
  intro e he
  rcases List.append_of_mem he with ⟨front, back, hsplit⟩
  rcases events_eq_append_cons hsplit with ⟨earlier, op, later, rfl, rfl, rfl, rfl⟩
  apply hreached earlier
  intro e' he'
  apply hspares
  rw [hsplit]
  exact List.mem_append_left _ he'

/-- Moving the index register stores nothing. -/
theorem sparesGlyphs_of_setIndex {addr : UInt16} (hins : m.fetched = .setIndex addr) :
    (m.event .step).SparesGlyphs := by
  intro cell _ hstores
  change m.Touches m.fetched (.cell cell) at hstores
  rw [hins] at hstores
  exact hstores

/-- Digits that lie above the glyphs and do not go round the end of memory spare them. -/
theorem sparesGlyphs_of_storeDecimal {x : UInt8} (hins : m.fetched = .storeDecimal x)
    (hfirst : 0x0A0 ≤ m.registers.i.toNat) (hlast : m.registers.i.toNat ≤ 0xFFD) :
    (m.event .step).SparesGlyphs := by
  rintro cell ⟨-, hcell⟩ hstores
  change m.Touches m.fetched (.cell cell) at hstores
  rw [hins] at hstores
  rcases hstores with ⟨k, hk, hstored⟩
  omega

/-- A program that stores the digits of a register right above the glyphs, and then points at
the glyph of the register and draws it in the upper left corner. -/
def storeAndPoint : List Operation :=
  [.load 0x200 [0xA0, 0xA0, 0xF0, 0x33, 0xF0, 0x29, 0xD1, 0x25], .setRegister 0 0x0B, .step, .step]

theorem sparesGlyphs_storeAndPoint :
    ∀ e ∈ (powerOn Lcg.standard).events storeAndPoint, e.SparesGlyphs := by
  simp only [storeAndPoint, events, List.forall_mem_cons]
  refine ⟨?_, ?_, ?_, ?_, List.forall_mem_nil _⟩
  · rintro addr ⟨hfirst, hlast⟩ ⟨k, hk, hcell⟩
    change k < 8 at hk
    change (0x200 + k) % 4096 = _ at hcell
    omega
  · exact fun _ _ => id
  · exact sparesGlyphs_of_setIndex (show _ = Instruction.setIndex 0x0A0 by decide +kernel)
  · exact sparesGlyphs_of_storeDecimal (x := 0) (by decide +kernel) (by decide +kernel)
      (by decide +kernel)

/-- The glyph of B is drawn: in its first row three pixels are lit and the fourth is not. -/
theorem glyph_law_storeAndPoint :
    ∃ last pointed drawn, (powerOn Lcg.standard).performAll storeAndPoint = .ok last ∧
      last.history [.step, .cycle] = .ok [pointed, drawn] ∧
      drawn.outcome.machine.screen.pixel 2 0 = true ∧
      drawn.outcome.machine.screen.pixel 3 0 = false := by
  have hdepth := depth_powerOn_le Lcg.standard
  have hover : ¬(powerOn Lcg.standard).Overflows storeAndPoint :=
    not_overflows_of_lt hdepth (by decide)
  rcases (glyph_law Lcg.standard storeAndPoint).resolve_left hover with
    ⟨events, last, hevents, hlast, hlaw⟩
  obtain rfl := Except.ok.inj (hevents.symm.trans (history_eq hdepth hover))
  rcases hlaw sparesGlyphs_storeAndPoint with ⟨-, -, hdraws⟩
  have hreached := Except.ok.inj (hlast.symm.trans (performAll_eq hdepth hover))
  have hstate : (last.fetched = .glyph 0 ∧ (last.performed .step).machine.fetched = .draw 1 2 5) ∧
      (last.registers.get 0 = 0x0B ∧ last.registers.get 1 = 0 ∧ last.registers.get 2 = 0) ∧
      last.screen = Screen.blank ∧ last.ticks.count.toNat + 2 < UInt64.size := by
    rw [hreached]
    decide +kernel
  rcases hstate with ⟨⟨hpoint, hdraw⟩, hregisters, hblank, hticks⟩
  have hdepth' : last.registers.stack.depth.toNat ≤ 16 := by
    rw [hreached]
    exact depth_reached_le hdepth _
  have hover' : ¬last.Overflows [.step, .cycle] := not_overflows_of_lt hdepth' hticks
  have hdigit : (last.registers.get 0).toNat ≤ 15 := by
    rw [hregisters.1]
    decide
  rcases (hdraws .step .cycle 0 1 2 rfl rfl hpoint hdigit).resolve_left hover' with
    ⟨pointed, drawn, hhistory, -, hdrawn⟩
  have hevents' := Except.ok.inj (hhistory.symm.trans (history_eq hdepth' hover'))
  obtain ⟨rfl, htail⟩ := List.cons.inj hevents'
  obtain ⟨rfl, -⟩ := List.cons.inj htail
  rcases hdrawn hdraw with ⟨-, hpixel⟩
  simp only [SpriteCovers, hregisters, hblank] at hpixel
  refine ⟨last, _, _, hlast, hhistory, ?_, ?_⟩
  · exact (hpixel 2 0).trans (by decide)
  · exact (hpixel 3 0).trans (by decide)

end Machine

end Chip8
