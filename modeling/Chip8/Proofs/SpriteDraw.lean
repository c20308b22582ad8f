import Chip8.Proofs.Coverage
import Chip8.Proofs.Footprint
import Chip8.Proofs.History
import Chip8.Random.Lcg

/-!
# Drawing a sprite from memory

A drawing instruction takes the rows of its sprite from the cells from the index register
on, round the end of memory if need be, and draws them at the column and row that its two
registers hold before the flag is written.  Executed twice in a row it leaves the screen as
it was, unless the flag is one of the two registers.

Main results:

- Theorem `Machine.draws_stepped`: what one execution does to the screen and to the flag, and
  what it leaves alone.
- Theorems `Machine.screen_redrawn` and `Machine.flag_redrawn`: what a second execution does.
- Theorem `Machine.sprite_law`: so it is for every machine about to draw.
-/

namespace Chip8

namespace Registers

/-- A raised flag reads as one. -/
theorem vf_writeFlag_eq_one_iff (regs : Registers) (flag : Bool) :
    (regs.writeFlag flag).vf = 1 ↔ flag = true := by
  cases flag <;> simp [vf, writeFlag, Bool.toUInt8]

/-- A lowered flag reads as zero. -/
theorem vf_writeFlag_eq_zero_iff (regs : Registers) (flag : Bool) :
    (regs.writeFlag flag).vf = 0 ↔ ¬flag = true := by
  cases flag <;> simp [vf, writeFlag, Bool.toUInt8]

end Registers

namespace Machine

variable {G : Type}

/-- A sprite drawn at column Vx and row Vy covers a pixel of the screen. -/
def SpriteCovers (m : Machine G) (x y : UInt8) (sprite : List UInt8) (column : Fin 64)
    (row : Fin 32) : Prop :=
  Screen.Covers sprite ((m.registers.get x).toNat % 64) ((m.registers.get y).toNat % 32)
    column row

instance (m : Machine G) (x y : UInt8) (sprite : List UInt8) (column : Fin 64) (row : Fin 32) :
    Decidable (m.SpriteCovers x y sprite column row) :=
  inferInstanceAs (Decidable (Screen.Covers sprite ((m.registers.get x).toNat % 64)
    ((m.registers.get y).toNat % 32) column row))

/-- What drawing a sprite at column Vx and row Vy comes to. -/
structure Draws (m : Machine G) (x y : UInt8) (sprite : List UInt8) (outcome : Outcome G) :
    Prop where
  /-- Drawing is never refused. -/
  success : outcome.fault = none
  /-- The covered pixels are flipped and no other. -/
  pixel : ∀ (column : Fin 64) (row : Fin 32), outcome.machine.screen.pixel column row =
    (m.screen.pixel column row ^^ decide (m.SpriteCovers x y sprite column row))
  /-- The flag is one if a covered pixel was lit. -/
  hit : outcome.machine.registers.vf = 1 ↔
    ∃ column row, m.SpriteCovers x y sprite column row ∧ m.screen.pixel column row = true
  /-- The flag is zero if none was. -/
  miss : outcome.machine.registers.vf = 0 ↔
    ¬∃ column row, m.SpriteCovers x y sprite column row ∧ m.screen.pixel column row = true
  /-- A sprite without rows lowers the flag and draws nothing. -/
  empty : sprite = [] →
    outcome.machine.screen = m.screen ∧ outcome.machine.registers.vf = 0
  /-- The other registers keep their bytes. -/
  registers : ∀ k : Fin 16, k.val ≠ 15 →
    outcome.machine.registers.v.get k = m.registers.v.get k
  index : outcome.machine.registers.i = m.registers.i
  memory : outcome.machine.memory = m.memory
  stack : outcome.machine.registers.stack = m.registers.stack
  timers : outcome.machine.timers = m.timers

variable [RandomSource G] {m : Machine G} {x y n : UInt8}

/-! ## One execution -/

/-- A step that draws is never refused and has the effect of drawing. -/
theorem stepped_of_draw (hins : m.fetched = .draw x y n) :
    m.stepped.fault = none ∧ m.stepped.machine = m.afterFetch.effect (.draw x y n) :=
  stepped_of_fetched hins rfl

/-- Below the limit of the tick count a step that draws never crashes. -/
theorem step_of_draw (hins : m.fetched = .draw x y n) (hfull : ¬m.Full) :
    m.step = .ok m.stepped :=
  step_of_fetched hins (by simp) hfull

/-- The screen and the flag after a step that draws. -/
theorem screen_stepped_of_draw (hins : m.fetched = .draw x y n) :
    m.stepped.machine.screen = (m.drawn x y n).1 := by
  rw [(stepped_of_draw hins).2]
  rfl

theorem vf_stepped_of_draw (hins : m.fetched = .draw x y n) :
    (m.stepped.machine.registers.vf = 1 ↔ (m.drawn x y n).2 = true) ∧
      (m.stepped.machine.registers.vf = 0 ↔ ¬(m.drawn x y n).2 = true) := by
  have hflag : m.stepped.machine.registers.vf =
      (m.registers.writeFlag (m.drawn x y n).2).vf := by
    rw [(stepped_of_draw hins).2]
    rfl
  rw [hflag]
  exact ⟨Registers.vf_writeFlag_eq_one_iff _ _, Registers.vf_writeFlag_eq_zero_iff _ _⟩

/-- A drawing instruction touches none of the registers but the flag. -/
theorem get_stepped_of_draw (hins : m.fetched = .draw x y n) {k : Fin 16} (hk : k.val ≠ 15) :
    m.stepped.machine.registers.v.get k = m.registers.v.get k := by
  have htouches : ¬m.afterFetch.Touches (.draw x y n) (.register k) := hk
  rw [(stepped_of_draw hins).2]
  exact kept_effect (inRange_of_fetched hins) htouches

/-- A step that draws flips what its sprite covers and collects in the flag whether any of it
was lit. -/
theorem draws_stepped (hins : m.fetched = .draw x y n) :
    m.Draws x y (m.sprite n) m.stepped := by
  have heffect := (stepped_of_draw hins).2
  have hflag := vf_stepped_of_draw hins
  refine
    { success := (stepped_of_draw hins).1
      pixel := ?_
      hit := ?_
      miss := ?_
      empty := ?_
      registers := fun _ => get_stepped_of_draw hins
      index := by rw [heffect]; rfl
      memory := by rw [heffect]; rfl
      stack := by rw [heffect]; rfl
      timers := by rw [heffect]; rfl }
  · intro column row
    rw [screen_stepped_of_draw hins]
    exact Screen.pixel_draw _ _ _ _ column.isLt row.isLt
  · rw [hflag.1]
    exact Screen.hit_draw _ _ _ _
  · rw [hflag.2]
    exact not_congr (Screen.hit_draw _ _ _ _)
  · intro hempty
    have hdrawn : m.drawn x y n = (m.screen, false) := by
      rw [drawn, hempty]
      rfl
    rw [screen_stepped_of_draw hins, hflag.2, hdrawn]
    exact ⟨rfl, Bool.false_ne_true⟩

/-! ## Two executions in a row -/

/-- Unless the flag is one of its registers, a drawing instruction finds the registers as
they were when it is executed once more. -/
theorem registers_get_stepped_of_draw (hins : m.fetched = .draw x y n) {z : UInt8}
    (hz : z.toNat < 16) (hflag : z ≠ 15) :
    m.stepped.machine.registers.get z = m.registers.get z := by
  have hmod : z.toNat % 16 = z.toNat := Nat.mod_eq_of_lt hz
  have hne : (⟨z.toNat % 16, Nat.mod_lt _ (by decide)⟩ : Fin 16).val ≠ 15 := by
    intro h
    apply hflag
    apply UInt8.toNat_inj.mp
    rw [← hmod]
    exact h
  exact get_stepped_of_draw hins hne

section Again

variable (hins : m.fetched = .draw x y n) (hx : x ≠ 15) (hy : y ≠ 15)
  (hword : m.memory.readWord (m.registers.pc + 2) = m.opcodeAt)
include hins

include hword in
/-- The same word after a drawing instruction is that instruction again. -/
theorem fetched_again : m.stepped.machine.fetched = .draw x y n := by
  have hopcode : m.stepped.machine.opcodeAt = m.opcodeAt := by
    rw [(stepped_of_draw hins).2]
    exact hword
  rw [fetched, hopcode]
  exact hins

include hx hy

/-- The second time, the same sprite is drawn at the same place. -/
theorem drawn_again :
    m.stepped.machine.drawn x y n = (m.drawn x y n).1.draw (m.registers.get x)
      (m.registers.get y) (m.sprite n) := by
  have hrange := inRange_of_fetched hins
  have hsprite : m.stepped.machine.sprite n = m.sprite n := by
    rw [(stepped_of_draw hins).2]
    rfl
  rw [drawn, hsprite, screen_stepped_of_draw hins,
    registers_get_stepped_of_draw hins hrange.1 hx,
    registers_get_stepped_of_draw hins hrange.2.1 hy]

include hword

/-- Drawing a sprite twice in a row leaves the screen as it was. -/
theorem screen_redrawn : m.stepped.machine.stepped.machine.screen = m.screen := by
  rw [screen_stepped_of_draw (fetched_again hins hword), drawn_again hins hx hy]
  exact Screen.draw_draw _ _ _ _

/-- The second time, the flag is one exactly if a covered pixel was unlit at first. -/
theorem flag_redrawn :
    m.stepped.machine.stepped.machine.registers.vf = 1 ↔
      ∃ column row, m.SpriteCovers x y (m.sprite n) column row ∧
        m.screen.pixel column row = false := by
  rw [(vf_stepped_of_draw (fetched_again hins hword)).1, drawn_again hins hx hy]
  exact Screen.hit_draw_draw _ _ _ _

/-- One of the two times the flag is one, unless no pixel of the screen is covered. -/
theorem flag_drawn_or_redrawn :
    m.stepped.machine.registers.vf = 1 ∨
        m.stepped.machine.stepped.machine.registers.vf = 1 ↔
      ∃ column row, m.SpriteCovers x y (m.sprite n) column row := by
  rw [(draws_stepped hins).hit, flag_redrawn hins hx hy hword]
  constructor
  · rintro (⟨column, row, hcovers, -⟩ | ⟨column, row, hcovers, -⟩)
    · exact ⟨column, row, hcovers⟩
    · exact ⟨column, row, hcovers⟩
  · rintro ⟨column, row, hcovers⟩
    cases hlit : m.screen.pixel column row with
    | true => exact Or.inl ⟨column, row, hcovers, hlit⟩
    | false => exact Or.inr ⟨column, row, hcovers, hlit⟩

end Again

/-! ## Every machine about to draw -/

/-- A machine about to draw takes as many rows as it is told from the cells from the index
register on and draws them at Vx and Vy as they are.  If the flag is neither of the two and
the next word is the same, the second execution undoes the first, and the two flags tell
which of the covered pixels were lit. -/
theorem sprite_law {m : Machine G} {x y n : UInt8} (hins : m.fetched = .draw x y n) :
    ∃ sprite : List UInt8, sprite.length = n.toNat ∧ m.memory.Holds m.registers.i sprite ∧
      (m.Full ∨ ∃ outcome, m.step = .ok outcome ∧ m.Draws x y sprite outcome) ∧
      (x ≠ 15 → y ≠ 15 → m.memory.readWord (m.registers.pc + 2) = m.opcodeAt →
        m.Overflows [.step, .step] ∨
        ∃ first second, m.outcomes [.step, .step] = .ok [first, second] ∧
          second.machine.screen = m.screen ∧
          (second.machine.registers.vf = 1 ↔
            ∃ column row, m.SpriteCovers x y sprite column row ∧
              m.screen.pixel column row = false) ∧
          (first.machine.registers.vf = 1 ∨ second.machine.registers.vf = 1 ↔
            ∃ column row, m.SpriteCovers x y sprite column row)) := by
  refine ⟨m.sprite n, Memory.length_readBlock _ _ _, Memory.holds_readBlock _ _ _, ?_, ?_⟩
  · by_cases hfull : m.Full
    · exact Or.inl hfull
    · exact Or.inr ⟨m.stepped, step_of_draw hins hfull, draws_stepped hins⟩
  · intro hx hy hword
    by_cases hfull : m.Full
    · exact Or.inl (Or.inl ⟨rfl, hfull⟩)
    have hfirst := step_of_draw hins hfull
    by_cases hfull' : m.stepped.machine.Full
    · exact Or.inl (Or.inr ⟨m.stepped, hfirst, Or.inl ⟨rfl, hfull'⟩⟩)
    have hsecond := step_of_draw (fetched_again hins hword) hfull'
    refine Or.inr ⟨m.stepped, m.stepped.machine.stepped, ?_, screen_redrawn hins hx hy hword,
      flag_redrawn hins hx hy hword, flag_drawn_or_redrawn hins hx hy hword⟩
    rw [outcomes, perform, hfirst, Checked.ok_bind, outcomes, perform, hsecond, Checked.ok_bind]
    rfl

/-- A machine about to draw, twice in a row, two rows from the last cell and the first into
the lower right corner, where one pixel is lit. -/
def drawInCorner : Machine Lcg :=
  let program := Memory.powerOn.load Memory.programStart [0xD1, 0x22, 0xD1, 0x22]
  let registers := { (Registers.zero.set 1 126).set 2 31 with
    i := 0xFFFF, pc := Memory.programStart }
  { powerOn Lcg.standard with
    registers
    memory := program.load 0x0FFF [0xC0, 0xFF]
    screen := (Screen.blank.draw 62 31 [0x80]).1 }

/-- Of the two pixels covered one is lit, so that both executions raise the flag, and the
second puts the screen back. -/
theorem sprite_law_drawInCorner :
    (∃ outcome, drawInCorner.step = .ok outcome ∧ outcome.machine.registers.vf = 1) ∧
      ∃ first second, drawInCorner.outcomes [.step, .step] = .ok [first, second] ∧
        second.machine.screen = drawInCorner.screen ∧ second.machine.registers.vf = 1 := by
  have hfetched : drawInCorner.fetched = .draw 1 2 2 := by decide +kernel
  have hword : drawInCorner.memory.readWord (drawInCorner.registers.pc + 2) =
      drawInCorner.opcodeAt := by decide +kernel
  have hfull : ¬drawInCorner.Full := by decide
  have hover : ¬drawInCorner.Overflows [.step, .step] :=
    not_overflows_of_lt (by decide) (by decide)
  obtain ⟨sprite, hlength, hholds, hdraws, htwice⟩ := sprite_law hfetched
  obtain ⟨first, second, rfl⟩ := List.length_eq_two.mp hlength
  obtain rfl : first = 0xC0 :=
    Option.some.inj ((hholds 0 0x0FFF Nat.zero_lt_two (by decide)).trans (by decide +kernel))
  obtain rfl : second = 0xFF :=
    Option.some.inj ((hholds 1 0x0000 Nat.one_lt_two (by decide)).trans (by decide +kernel))
  obtain ⟨outcome, hstep, hdrawn⟩ := hdraws.resolve_left hfull
  obtain ⟨one, two, houtcomes, hscreen, hflag, -⟩ :=
    (htwice (by decide) (by decide) hword).resolve_left hover
  refine ⟨⟨outcome, hstep, ?_⟩, one, two, houtcomes, hscreen, ?_⟩
  · exact hdrawn.hit.mpr ⟨62, 31, by decide +kernel, by decide +kernel⟩
  · exact hflag.mpr ⟨63, 31, by decide +kernel, by decide +kernel⟩

end Machine

end Chip8
