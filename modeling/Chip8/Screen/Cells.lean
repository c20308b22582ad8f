import Chip8.Checked
import Chip8.Screen

/-!
# Drawing cell by cell

The screen is also a table of 2048 cells, row after row.  The machine draws a
sprite pixel by pixel: it computes the row, the column and from both the number
of the cell, all with checked arithmetic, and flips the cell of that number.

Main results:

- Theorem `Screen.getElem?_cells`: which cell of the table a pixel is.
- Theorem `Screen.cells_flipCell`: flipping a cell flips it in the table.
- Theorem `Screen.flipPixel_of_lt`: on the screen, flipping a pixel flips the
  cell that it is in the table.
-/

namespace Chip8.Screen

/-! ## Single cells -/

/-- The screen with one cell flipped, and whether the cell was lit. -/
def flipCell (screen : Screen) (cell : UInt64) : Checked (Screen × Bool) :=
  if h : cell.toNat < 2048 then
    .ok (screen.flipRow (cell.toNat / 64) (spriteRow 0x80 (cell.toNat % 64)) (by omega),
      screen.pixel (cell.toNat % 64) (cell.toNat / 64))
  else
    .error .indexOutOfRange

/-- The screen with the pixel in column `x` of row `y` flipped, and whether it
was lit. -/
def flipPixel (screen : Screen) (x y : UInt64) : Checked (Screen × Bool) := do
  let row ← Checked.mulCount y 64
  let cell ← Checked.addCount row x
  screen.flipCell cell

/-! ## Sprites -/

/-- Draw `n` columns of a sprite byte from its column `dx` on, as far as they are
on the screen.  The flag collects whether a lit pixel was flipped. -/
def plotBits (bits : UInt8) (left y : UInt64) :
    Nat → Nat → Screen × Bool → Checked (Screen × Bool)
  | 0, _, drawn => return drawn
  | n + 1, dx, drawn => do
    let x ← Checked.addCount left (UInt64.ofNat dx)
    if 64 ≤ x then
      return drawn
    else if bits.toBitVec.getMsbD dx then
      let flipped ← drawn.1.flipPixel x y
      plotBits bits left y n (dx + 1) (flipped.1, drawn.2 || flipped.2)
    else
      plotBits bits left y n (dx + 1) drawn

/-- Draw the rows of a sprite from its row `dy` on, as far as they are on the
screen. -/
def plotRows (left top : UInt64) :
    Nat → List UInt8 → Screen × Bool → Checked (Screen × Bool)
  | _, [], drawn => return drawn
  | dy, bits :: rest, drawn => do
    let y ← Checked.addCount top (UInt64.ofNat dy)
    if 32 ≤ y then
      return drawn
    else
      let drawn ← plotBits bits left y 8 0 drawn
      plotRows left top (dy + 1) rest drawn

/-- The screen after a sprite is drawn cell by cell, and whether any pixel that
was lit has been flipped. -/
def plot (screen : Screen) (x y : UInt8) (sprite : List UInt8) : Checked (Screen × Bool) :=
  plotRows (x.toUInt64 % 64) (y.toUInt64 % 32) 0 sprite (screen, false)

/-! ## A cell is a pixel of a row -/

/-- A sprite byte with only its highest bit set covers its left edge alone. -/
theorem getMsbD_spriteRow_point (x column : Nat) :
    (spriteRow 0x80 x).getMsbD column = (decide (column < 64) && decide (column = x)) := by
  rw [getMsbD_spriteRow]
  by_cases hx : x ≤ column
  · have hbits : ∀ k, (0x80 : UInt8).toBitVec.getMsbD k = decide (k = 0) := by
      intro k
      by_cases hk : k < 8
      · have : ∀ j : Fin 8, (0x80 : UInt8).toBitVec.getMsbD j.val = decide (j.val = 0) := by
          decide
        exact this ⟨k, hk⟩
      · simp [BitVec.getMsbD, hk]
        omega
    have hzero : column - x = 0 ↔ column = x := by omega
    rw [hbits]
    simp [hx, hzero]
  · have : column ≠ x := by omega
    simp [hx, this]

/-- Where all pieces of a list have one length, the place of an item tells its
piece and its place in it. -/
theorem getElem?_flatMap_of_length {α β : Type} {f : α → List β} {n : Nat}
    (hlength : ∀ a, (f a).length = n) (pieces : List α) (y : Nat) {x : Nat} (hx : x < n) :
    (pieces.flatMap f)[n * y + x]? = pieces[y]?.bind fun piece => (f piece)[x]? := by
  induction pieces generalizing y with
  | nil => simp
  | cons piece rest ih =>
      cases y with
      | zero =>
          rw [List.flatMap_cons, List.getElem?_append_left (by rw [hlength]; omega)]
          simp
      | succ y =>
          have hplace : n * (y + 1) + x - n = n * y + x := by
            rw [Nat.mul_succ]
            omega
          rw [List.flatMap_cons, List.getElem?_append_right (by rw [hlength, Nat.mul_succ]; omega),
            hlength, hplace, ih y, List.getElem?_cons_succ]

theorem getElem?_rows (screen : Screen) {y : Nat} (h : y < 32) :
    screen.rows.toList[y]? = some screen.rows[y] := by
  simp [h]

theorem getElem?_rowPixels (screen : Screen) {x y : Nat} (hx : x < 64) (hy : y < 32) :
    (rowPixels screen.rows[y])[x]? = some (screen.pixel x y) := by
  simp [rowPixels, pixel, hx, hy]

/-- The pixel in column `x` of row `y` is the cell of number `64 * y + x`. -/
theorem getElem?_cells (screen : Screen) {x y : Nat} (hx : x < 64) (hy : y < 32) :
    screen.cells[64 * y + x]? = some (screen.pixel x y) := by
  rw [cells, getElem?_flatMap_of_length length_rowPixels _ y hx, screen.getElem?_rows hy,
    Option.bind_some, screen.getElem?_rowPixels hx hy]

/-- The cell of number `c` is the pixel in column `c % 64` of row `c / 64`. -/
theorem getElem?_cells_of_lt (screen : Screen) {c : Nat} (h : c < 2048) :
    screen.cells[c]? = some (screen.pixel (c % 64) (c / 64)) := by
  have hplace := screen.getElem?_cells (x := c % 64) (y := c / 64) (by omega) (by omega)
  rwa [Nat.div_add_mod] at hplace

/-- A single cell has a row and a column of its own. -/
theorem pixel_flipRow_point (screen : Screen) {c : Nat} (h : c < 2048) (k : Nat) :
    (screen.flipRow (c / 64) (spriteRow 0x80 (c % 64)) (by omega)).pixel (k % 64) (k / 64) =
      (screen.pixel (k % 64) (k / 64) ^^ decide (c = k)) := by
  have hsame : c = k ↔ k / 64 = c / 64 ∧ k % 64 = c % 64 := by omega
  have hcolumn : k % 64 < 64 := Nat.mod_lt k (by decide)
  rw [pixel_flipRow, getMsbD_spriteRow_point, decide_eq_true hcolumn, Bool.true_and,
    decide_eq_decide.mpr hsame, Bool.decide_and]

/-- A cell of the table can be flipped. -/
theorem flipCell_of_lt (screen : Screen) {cell : UInt64} (h : cell.toNat < 2048) :
    ∃ flipped lit, screen.flipCell cell = .ok (flipped, lit) :=
  ⟨_, _, dif_pos h⟩

/-- Flipping a cell flips it in the table and leaves the other cells alone, and
it tells whether the cell was lit. -/
theorem cells_flipCell {screen flipped : Screen} {cell : UInt64} {lit : Bool}
    (h : screen.flipCell cell = .ok (flipped, lit)) :
    screen.cells[cell.toNat]? = some lit ∧
      flipped.cells = screen.cells.set cell.toNat (!lit) := by
  unfold flipCell at h
  split at h
  next hcell =>
    have hflipped := congrArg Prod.fst (Except.ok.inj h)
    have hlit := congrArg Prod.snd (Except.ok.inj h)
    subst hflipped hlit
    refine ⟨screen.getElem?_cells_of_lt hcell, List.ext_getElem? fun k => ?_⟩
    by_cases hk : k < 2048
    · rw [getElem?_cells_of_lt _ hk, screen.pixel_flipRow_point hcell, List.getElem?_set,
        screen.length_cells, screen.getElem?_cells_of_lt hk]
      by_cases hsame : cell.toNat = k
      · subst hsame
        simp [hk]
      · simp [hsame]
    · rw [List.getElem?_eq_none, List.getElem?_eq_none]
      · rwa [List.length_set, length_cells, ← Nat.not_lt]
      · rwa [length_cells, ← Nat.not_lt]
  next => cases h

/-- A screen with one cell of another changed has another pixel there and the
same pixels elsewhere. -/
theorem pixel_of_cells_eq_set {screen changed : Screen} {x y : Nat} {lit : Bool} (hx : x < 64)
    (hy : y < 32) (h : changed.cells = screen.cells.set (64 * y + x) lit) (column row : Nat) :
    changed.pixel column row = if column = x ∧ row = y then lit else screen.pixel column row := by
  by_cases hcolumn : column < 64
  · by_cases hrow : row < 32
    · have hcell := changed.getElem?_cells hcolumn hrow
      rw [h, List.getElem?_set, screen.length_cells, screen.getElem?_cells hcolumn hrow] at hcell
      have hplace : 64 * y + x = 64 * row + column ↔ column = x ∧ row = y := by omega
      simp only [hplace, show 64 * y + x < 2048 by omega, if_true] at hcell
      split at hcell
      next hsame => rw [if_pos hsame]; exact (Option.some.inj hcell).symm
      next hother => rw [if_neg hother]; exact (Option.some.inj hcell).symm
    · have hother : ¬(column = x ∧ row = y) := by omega
      have hbelow : 32 ≤ row := Nat.le_of_not_lt hrow
      rw [if_neg hother, pixel_of_height_le _ _ hbelow, pixel_of_height_le _ _ hbelow]
  · have hother : ¬(column = x ∧ row = y) := by omega
    have hright : 64 ≤ column := Nat.le_of_not_lt hcolumn
    rw [if_neg hother, pixel_of_width_le _ _ hright, pixel_of_width_le _ _ hright]

/-- On the screen, the number of a cell is computed without a crash and does not wrap. -/
theorem cellNumber_of_lt {x y : UInt64} (hx : x.toNat < 64) (hy : y.toNat < 32) :
    Checked.mulCount y 64 = .ok (y * 64) ∧ Checked.addCount (y * 64) x = .ok (y * 64 + x) ∧
      (y * 64 + x).toNat = 64 * y.toNat + x.toNat := by
  have hsize : UInt64.size = 18446744073709551616 := rfl
  have hrow : (y * 64).toNat = 64 * y.toNat := by
    rw [UInt64.toNat_mul, Nat.mul_comm]
    exact Nat.mod_eq_of_lt (by simp; omega)
  refine ⟨?_, ?_, ?_⟩
  · apply Checked.mulCount_of_lt
    simp only [UInt64.toNat_ofNat]
    omega
  · apply Checked.addCount_of_lt
    omega
  · rw [UInt64.toNat_add, hrow]
    exact Nat.mod_eq_of_lt (by omega)

/-- On the screen, flipping a pixel flips the cell that it is in the table. -/
theorem flipPixel_of_lt (screen : Screen) {x y : UInt64} (hx : x.toNat < 64)
    (hy : y.toNat < 32) :
    ∃ flipped, screen.flipPixel x y = .ok (flipped, screen.pixel x.toNat y.toNat) ∧
      flipped.cells =
        screen.cells.set (64 * y.toNat + x.toNat) (!screen.pixel x.toNat y.toNat) := by
  obtain ⟨hmul, hadd, hcell⟩ := cellNumber_of_lt hx hy
  have hlt : (y * 64 + x).toNat < 2048 := by omega
  obtain ⟨flipped, lit, hflip⟩ := screen.flipCell_of_lt hlt
  obtain ⟨hlit, hcells⟩ := cells_flipCell hflip
  rw [hcell, screen.getElem?_cells hx hy] at hlit
  obtain rfl := Option.some.inj hlit
  rw [hcell] at hcells
  refine ⟨flipped, ?_, hcells⟩
  rw [flipPixel, hmul, Checked.ok_bind, hadd, Checked.ok_bind, hflip]

end Chip8.Screen
