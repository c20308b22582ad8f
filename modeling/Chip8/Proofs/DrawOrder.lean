import Mathlib.Algebra.Ring.Parity
import Chip8.Proofs.Coverage

/-!
# Several sprites on one screen

Sprites that are drawn one after the other may overlap.  A pixel is flipped once by each
of them that covers it, so all that counts in the end is whether their number is odd, and
not in which order they were drawn.

Main results:

- Theorem `Screen.pixel_drawAll`: a pixel is flipped exactly if an odd number of the
  sprites cover it.
- Theorems `Screen.drawAll_perm` and `Screen.drawAll_drawAll`: the order does not matter, and
  drawing the same sprites once more, in any order, undoes them.
- Theorem `Screen.drawing_order_law`: so it is for the pixel by pixel drawing of the machine.
-/

namespace Chip8.Screen

/-! ## Drawings -/

/-- A sprite and the column and row that it is drawn at. -/
structure Drawing where
  x : UInt8
  y : UInt8
  sprite : List UInt8
  deriving DecidableEq

/-- The sprite covers a pixel of the screen. -/
def Drawing.Covers (drawing : Drawing) (column : Fin 64) (row : Fin 32) : Prop :=
  Screen.Covers drawing.sprite (drawing.x.toNat % 64) (drawing.y.toNat % 32) column row

instance (drawing : Drawing) (column : Fin 64) (row : Fin 32) :
    Decidable (drawing.Covers column row) :=
  inferInstanceAs (Decidable (Screen.Covers drawing.sprite (drawing.x.toNat % 64)
    (drawing.y.toNat % 32) column row))

/-- How many of the drawings cover a pixel. -/
def layers (drawings : List Drawing) (column : Fin 64) (row : Fin 32) : Nat :=
  drawings.countP fun drawing => drawing.Covers column row

/-- The screen after sprites are drawn pixel by pixel, one after the other. -/
def plotAll (screen : Screen) : List Drawing → Checked Screen
  | [] => return screen
  | drawing :: rest => do
    let drawn ← screen.plot drawing.x drawing.y drawing.sprite
    drawn.1.plotAll rest

/-- The screen after sprites are drawn one after the other. -/
def drawAll (screen : Screen) : List Drawing → Screen
  | [] => screen
  | drawing :: rest => (screen.draw drawing.x drawing.y drawing.sprite).1.drawAll rest

/-- Drawing pixel by pixel never crashes and comes to the same. -/
theorem plotAll_eq (screen : Screen) (drawings : List Drawing) :
    screen.plotAll drawings = .ok (screen.drawAll drawings) := by
  induction drawings generalizing screen with
  | nil => rfl
  | cons drawing rest ih => rw [plotAll, plot_eq, Checked.ok_bind, ih, drawAll]

/-! ## Pixel by pixel -/

variable {column : Fin 64} {row : Fin 32}

/-- One more drawing turns the parity over on the pixels that it covers. -/
theorem decide_odd_layers_cons (drawing : Drawing) (rest : List Drawing) :
    decide (Odd (layers (drawing :: rest) column row)) =
      (decide (drawing.Covers column row) ^^ decide (Odd (layers rest column row))) := by
  by_cases hcovers : drawing.Covers column row
  · have hcount : layers (drawing :: rest) column row = layers rest column row + 1 :=
      List.countP_cons_of_pos (decide_eq_true hcovers)
    simp only [hcount, hcovers, Nat.odd_add_one, decide_not, decide_true, Bool.true_xor]
  · have hcount : layers (drawing :: rest) column row = layers rest column row :=
      List.countP_cons_of_neg (by simpa using hcovers)
    simp [hcount, hcovers]

/-- A pixel is flipped exactly if an odd number of the sprites cover it. -/
theorem pixel_drawAll (screen : Screen) (drawings : List Drawing) (column : Fin 64)
    (row : Fin 32) :
    (screen.drawAll drawings).pixel column row =
      (screen.pixel column row ^^ decide (Odd (layers drawings column row))) := by
  induction drawings generalizing screen with
  | nil => simp [drawAll, layers]
  | cons drawing rest ih =>
      rw [drawAll, ih, pixel_draw _ _ _ _ column.isLt row.isLt, decide_odd_layers_cons,
        Bool.xor_assoc]
      rfl

/-! ## Any order -/

variable {drawings other : List Drawing}

/-- The order of the drawings does not matter to how many cover a pixel. -/
theorem layers_perm (h : other.Perm drawings) :
    layers other column row = layers drawings column row :=
  h.countP_eq _

/-- In whatever order sprites are drawn, the screen ends up the same. -/
theorem drawAll_perm (screen : Screen) (h : other.Perm drawings) :
    screen.drawAll other = screen.drawAll drawings := by
  apply ext_pixel
  intro x y hx hy
  have hother := pixel_drawAll screen other ⟨x, hx⟩ ⟨y, hy⟩
  rw [layers_perm h, ← pixel_drawAll screen drawings] at hother
  exact hother

/-- Sprites drawn once more, in any order, undo the first drawing. -/
theorem drawAll_drawAll (screen : Screen) (h : other.Perm drawings) :
    (screen.drawAll drawings).drawAll other = screen := by
  apply ext_pixel
  intro x y hx hy
  refine (pixel_drawAll _ other ⟨x, hx⟩ ⟨y, hy⟩).trans ?_
  rw [pixel_drawAll, layers_perm h, Bool.xor_assoc, Bool.xor_self, Bool.xor_false]

/-- Drawing any sprites one after the other flips the pixels that an odd number of them
cover on the screen and no other.  Every order comes to the same screen, and drawing them
all again in any order brings back the screen from before. -/
theorem drawing_order_law (screen : Screen) (drawings : List Drawing) :
    ∃ drawn, screen.plotAll drawings = .ok drawn ∧
      (∀ (column : Fin 64) (row : Fin 32), drawn.pixel column row =
        (screen.pixel column row ^^ decide (Odd (layers drawings column row)))) ∧
      ∀ other : List Drawing, other.Perm drawings →
        screen.plotAll other = .ok drawn ∧ drawn.plotAll other = .ok screen := by
  refine ⟨screen.drawAll drawings, plotAll_eq screen drawings, ?_, ?_⟩
  · exact pixel_drawAll screen drawings
  · intro other hperm
    rw [plotAll_eq, plotAll_eq, drawAll_perm screen hperm, drawAll_drawAll screen hperm]
    exact ⟨rfl, rfl⟩

/-- Three rows into the lower right corner and two bits over their last pixel. -/
def overlapping : List Drawing := [⟨62, 30, [0xF0, 0xF0, 0xF0]⟩, ⟨127, 63, [0xC0]⟩]

/-- The pixel in the corner is covered twice and stays unlit, in either order, and drawing
in the other order clears the screen again. -/
theorem drawing_order_law_overlapping :
    overlapping.reverse.Perm overlapping ∧
      ∃ drawn, blank.plotAll overlapping = .ok drawn ∧
        drawn.pixel 62 31 = true ∧ drawn.pixel 63 31 = false ∧
        blank.plotAll overlapping.reverse = .ok drawn ∧
        drawn.plotAll overlapping.reverse = .ok blank := by
  have hperm : overlapping.reverse.Perm overlapping := List.reverse_perm overlapping
  obtain ⟨drawn, hdrawn, hpixel, horder⟩ := drawing_order_law blank overlapping
  obtain ⟨hsame, hundone⟩ := horder overlapping.reverse hperm
  refine ⟨hperm, drawn, hdrawn, ?_, ?_, hsame, hundone⟩
  · exact (hpixel 62 31).trans (by decide)
  · exact (hpixel 63 31).trans (by decide)

end Chip8.Screen
