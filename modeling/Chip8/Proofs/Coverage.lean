import Chip8.Proofs.SpritePlot

/-!
# The pixels that a sprite covers

Drawing runs over the rows of a sprite and over the bits of each row.  What comes of it
can be said pixel by pixel, without either loop: every pixel of the screen that the sprite
covers is flipped and no other is, and the collision flag tells whether one of them was
lit.  The sprite is laid out from a corner that is on the screen, so that it is cut off at
the right and at the lower edge and never goes on at the opposite one.

Main results:

- Definition `Screen.Covers`: which pixels a sprite covers.
- Theorems `Screen.pixel_draw` and `Screen.hit_draw`: drawing flips the covered pixels, and
  the flag is raised exactly if one of them was lit.
- Theorem `Screen.draw_draw`: drawing a sprite twice leaves the screen as it was.
- Theorem `Screen.clipped_xor_law`: so it is for the pixel by pixel drawing of the machine.
-/

namespace Chip8.Screen

/-! ## Coverage -/

/-- A sprite with its upper left corner in column `left` of row `top` covers the pixel in
column `x` of row `y`: the sprite has such a row, and its bit in this column is set, the
highest bit being the leftmost. -/
def Covers (sprite : List UInt8) (left top x y : Nat) : Prop :=
  left ≤ x ∧ x < left + 8 ∧ top ≤ y ∧
    ∃ h : y - top < sprite.length, sprite[y - top].toNat.testBit (7 - (x - left)) = true

instance (sprite : List UInt8) (left top x y : Nat) : Decidable (Covers sprite left top x y) :=
  inferInstanceAs (Decidable (left ≤ x ∧ x < left + 8 ∧ top ≤ y ∧
    ∃ h : y - top < sprite.length, sprite[y - top].toNat.testBit (7 - (x - left)) = true))

variable {screen : Screen} {sprite rest : List UInt8} {bits : UInt8} {left top x y : Nat}

theorem not_covers_nil : ¬Covers [] left top x y := by
  rintro ⟨-, -, -, hrow, -⟩
  exact Nat.not_lt_zero _ hrow

/-- Nothing above a sprite is covered by it. -/
theorem not_covers_of_lt (h : y < top) : ¬Covers sprite left top x y := by
  rintro ⟨-, -, htop, -⟩
  exact absurd htop (Nat.not_le.mpr h)

/-- The bits of a byte from the highest down. -/
theorem getMsbD_toBitVec (bits : UInt8) (k : Nat) :
    bits.toBitVec.getMsbD k = (decide (k < 8) && bits.toNat.testBit (7 - k)) := by
  simp [BitVec.getMsbD, BitVec.getLsbD]

/-- In its first row a sprite covers what its first byte covers. -/
theorem covers_cons_top (hx : x < 64) :
    Covers (bits :: rest) left top x top ↔ (spriteRow bits left).getMsbD x = true := by
  simp only [Covers, Nat.le_refl, Nat.sub_self, List.length_cons, Nat.succ_pos, exists_true_left,
    List.getElem_cons_zero, true_and, getMsbD_spriteRow, getMsbD_toBitVec, hx, decide_true,
    Bool.true_and, Bool.and_eq_true, decide_eq_true_eq]
  constructor
  · rintro ⟨hleft, hright, hbit⟩
    exact ⟨hleft, by omega, hbit⟩
  · rintro ⟨hleft, hright, hbit⟩
    exact ⟨hleft, by omega, hbit⟩

/-- In the other rows it covers what the rest of the sprite covers one row down. -/
theorem covers_cons_of_ne (h : y ≠ top) :
    Covers (bits :: rest) left top x y ↔ Covers rest left (top + 1) x y := by
  by_cases htop : top + 1 ≤ y
  · have hrow : y - top = (y - (top + 1)) + 1 := by omega
    have hle : top ≤ y := by omega
    simp only [Covers, hrow, hle, htop, List.length_cons, Nat.add_lt_add_iff_right,
      List.getElem_cons_succ]
  · have hlt : y < top := by omega
    exact iff_of_false (not_covers_of_lt hlt) (not_covers_of_lt (by omega))

/-! ## Drawing row by row -/

/-- Drawing rows flips the pixels of the screen that they cover and no other: what is drawn
later is below the row just flipped. -/
theorem pixel_drawRows (screen : Screen) (sprite : List UInt8) (left top : Nat)
    (hx : x < 64) (hy : y < 32) :
    (screen.drawRows left top sprite).1.pixel x y =
      (screen.pixel x y ^^ decide (Covers sprite left top x y)) := by
  induction sprite generalizing screen top with
  | nil => simp [drawRows, not_covers_nil]
  | cons bits rest ih =>
      by_cases htop : top < 32
      · rw [drawRows_cons_of_lt _ _ htop, ih, pixel_flipRow]
        by_cases hrow : y = top
        · subst hrow
          simp [covers_cons_top hx, not_covers_of_lt (Nat.lt_succ_self y)]
        · simp [hrow, covers_cons_of_ne hrow]
      · have hlt : y < top := by omega
        rw [drawRows_of_le _ _ (Nat.le_of_not_lt htop)]
        simp [not_covers_of_lt hlt]

/-- Only pixels of the screen are lit. -/
theorem lt_of_pixel (h : screen.pixel x y = true) : x < 64 ∧ y < 32 := by
  constructor
  · by_contra hx
    rw [pixel_of_width_le screen y (Nat.le_of_not_lt hx)] at h
    cases h
  · by_contra hy
    rw [pixel_of_height_le screen x (Nat.le_of_not_lt hy)] at h
    cases h

/-- Drawing rows raises the flag exactly if they cover a lit pixel. -/
theorem hit_drawRows (screen : Screen) (sprite : List UInt8) (left top : Nat) :
    (screen.drawRows left top sprite).2 = true ↔
      ∃ x y, Covers sprite left top x y ∧ screen.pixel x y = true := by
  induction sprite generalizing screen top with
  | nil => simp [drawRows, not_covers_nil]
  | cons bits rest ih =>
      by_cases htop : top < 32
      · have hlater : ∀ x y, top + 1 ≤ y →
            (screen.flipRow top (spriteRow bits left) htop).pixel x y = screen.pixel x y := by
          intro x y hy
          have hrow : y ≠ top := by omega
          simp [pixel_flipRow, hrow]
        rw [drawRows_cons_of_lt _ _ htop]
        simp only [Bool.or_eq_true, and_ne_zero_iff, ih]
        constructor
        · rintro (⟨x, hbit, hlit⟩ | ⟨x, y, hcovers, hlit⟩)
          · have hpixel : screen.pixel x top = true := by simpa [pixel, htop] using hlit
            exact ⟨x, top, (covers_cons_top (lt_of_pixel hpixel).1).mpr hbit, hpixel⟩
          · have hrow : top + 1 ≤ y := hcovers.2.2.1
            rw [hlater x y hrow] at hlit
            exact ⟨x, y, (covers_cons_of_ne (by omega)).mpr hcovers, hlit⟩
        · rintro ⟨x, y, hcovers, hlit⟩
          by_cases hrow : y = top
          · subst hrow
            left
            exact ⟨x, (covers_cons_top (lt_of_pixel hlit).1).mp hcovers,
              by simpa [pixel, htop] using hlit⟩
          · right
            rw [covers_cons_of_ne hrow] at hcovers
            exact ⟨x, y, hcovers, by rw [hlater x y hcovers.2.2.1, hlit]⟩
      · rw [drawRows_of_le _ _ (Nat.le_of_not_lt htop)]
        simp only [Bool.false_eq_true, false_iff]
        rintro ⟨x, y, hcovers, hlit⟩
        have hle : top ≤ y := hcovers.2.2.1
        have hlt : y < 32 := (lt_of_pixel hlit).2
        omega

/-! ## Whole sprites -/

section Whole

variable (screen : Screen) (x y : UInt8) (sprite : List UInt8)

/-- Drawing flips the pixels of the screen that the sprite covers and no other. -/
theorem pixel_draw {column row : Nat} (hcolumn : column < 64) (hrow : row < 32) :
    (screen.draw x y sprite).1.pixel column row =
      (screen.pixel column row ^^
        decide (Covers sprite (x.toNat % 64) (y.toNat % 32) column row)) :=
  pixel_drawRows screen sprite _ _ hcolumn hrow

/-- Drawing raises the flag exactly if the sprite covers a lit pixel of the screen. -/
theorem hit_draw :
    (screen.draw x y sprite).2 = true ↔ ∃ (column : Fin 64) (row : Fin 32),
      Covers sprite (x.toNat % 64) (y.toNat % 32) column row ∧
        screen.pixel column row = true := by
  rw [draw, hit_drawRows]
  constructor
  · rintro ⟨column, row, hcovers, hlit⟩
    exact ⟨⟨column, (lt_of_pixel hlit).1⟩, ⟨row, (lt_of_pixel hlit).2⟩, hcovers, hlit⟩
  · rintro ⟨column, row, hcovers, hlit⟩
    exact ⟨column, row, hcovers, hlit⟩

/-- Drawing a sprite twice leaves the screen as it was. -/
theorem draw_draw : ((screen.draw x y sprite).1.draw x y sprite).1 = screen := by
  apply ext_pixel
  intro column row hcolumn hrow
  rw [pixel_draw _ _ _ _ hcolumn hrow, pixel_draw _ _ _ _ hcolumn hrow, Bool.xor_assoc,
    Bool.xor_self, Bool.xor_false]

/-- The second time a sprite is drawn, the flag is raised exactly if the sprite covers a
pixel that was unlit before the first. -/
theorem hit_draw_draw :
    ((screen.draw x y sprite).1.draw x y sprite).2 = true ↔
      ∃ (column : Fin 64) (row : Fin 32),
        Covers sprite (x.toNat % 64) (y.toNat % 32) column row ∧
          screen.pixel column row = false := by
  have hflipped (column : Fin 64) (row : Fin 32)
      (hcovers : Covers sprite (x.toNat % 64) (y.toNat % 32) column row) :
      (screen.draw x y sprite).1.pixel column row = !screen.pixel column row := by
    rw [pixel_draw _ _ _ _ column.isLt row.isLt, decide_eq_true hcovers, Bool.xor_true]
  rw [hit_draw]
  constructor
  · rintro ⟨column, row, hcovers, hlit⟩
    rw [hflipped column row hcovers, Bool.not_eq_true'] at hlit
    exact ⟨column, row, hcovers, hlit⟩
  · rintro ⟨column, row, hcovers, hunlit⟩
    refine ⟨column, row, hcovers, ?_⟩
    rw [hflipped column row hcovers, hunlit]
    rfl

/-- Drawing pixel by pixel flips the pixels of the screen that the sprite covers from its
corner on, which wraps onto the screen, and leaves all others as they were.  The flag is
raised exactly if one of the flipped pixels was lit. -/
theorem clipped_xor_law :
    ∃ drawn hit, screen.plot x y sprite = .ok (drawn, hit) ∧
      (∀ (column : Fin 64) (row : Fin 32), drawn.pixel column row =
        (screen.pixel column row ^^
          decide (Covers sprite (x.toNat % 64) (y.toNat % 32) column row))) ∧
      (hit = true ↔ ∃ (column : Fin 64) (row : Fin 32),
        Covers sprite (x.toNat % 64) (y.toNat % 32) column row ∧
          screen.pixel column row = true) := by
  refine ⟨(screen.draw x y sprite).1, (screen.draw x y sprite).2, screen.plot_eq x y sprite, ?_, ?_⟩
  · intro column row
    exact pixel_draw screen x y sprite column.isLt row.isLt
  · exact hit_draw screen x y sprite

/-- Two rows drawn from the lower right corner: of sixteen bits only the first is on the
screen. -/
example : ((blank.draw 127 63 [0xFF, 0xFF]).1.litCount, (blank.draw 127 63 [0xFF, 0xFF]).2) =
    (1, false) := by decide +kernel

end Whole

end Chip8.Screen
