/-!
# Screen

The screen has 32 rows of 64 pixels.  A row is a 64-bit word whose highest bit
is the leftmost pixel, so that placing a sprite byte is a shift and drawing it
is an exclusive or; what is shifted out of the word is what the right edge cuts
off.

Main results:

- Theorem `Screen.pixel_blank`: a blank screen has no lit pixel.
- Theorem `Screen.pixel_flipRow`: flipping pixels of one row leaves the other
  rows as they were.
- Theorems `Screen.drawRows_cons_of_lt` and `Screen.drawRows_of_le`: a sprite is drawn row
  by row down to the lower edge, and nothing of it below.
- Theorem `Screen.getMsbD_spriteRow`: a sprite byte covers at most eight columns
  from its left edge on, most significant bit first.
-/

namespace Chip8

/-- The pixels of the screen. -/
structure Screen where
  /-- The rows from top to bottom; the highest bit of a row is its leftmost
  pixel. -/
  rows : Vector (BitVec 64) 32
  deriving DecidableEq

namespace Screen

/-- Pixels in a row. -/
def width : Nat := 64

/-- Rows on the screen. -/
def height : Nat := 32

/-- The screen with no pixel lit. -/
def blank : Screen := ⟨.replicate 32 0⟩

/-! ## Pixels -/

/-- Whether the pixel in column `x` of row `y` is lit; outside the screen nothing
is. -/
def pixel (screen : Screen) (x y : Nat) : Bool :=
  if h : y < 32 then screen.rows[y].getMsbD x else false

/-- The pixels of one row, left to right. -/
def rowPixels (row : BitVec 64) : List Bool :=
  (List.range 64).map row.getMsbD

/-- The cells of the screen: its pixels, row after row. -/
def cells (screen : Screen) : List Bool :=
  screen.rows.toList.flatMap rowPixels

/-- How many pixels are lit. -/
def litCount (screen : Screen) : Nat := screen.cells.count true

/-- A row has 64 pixels. -/
theorem length_rowPixels (row : BitVec 64) : (rowPixels row).length = 64 := by
  simp [rowPixels]

/-- There are 2048 cells. -/
theorem length_cells (screen : Screen) : screen.cells.length = 2048 := by
  simp [cells, List.length_flatMap, length_rowPixels, List.map_const']

/-- No more pixels are lit than there are. -/
theorem litCount_le (screen : Screen) : screen.litCount ≤ 2048 :=
  screen.length_cells ▸ List.count_le_length

/-- A blank screen has no lit pixel. -/
@[simp]
theorem pixel_blank (x y : Nat) : blank.pixel x y = false := by
  simp [pixel, blank]

/-- No pixel right of the screen is lit. -/
theorem pixel_of_width_le (screen : Screen) {x : Nat} (y : Nat) (h : 64 ≤ x) :
    screen.pixel x y = false := by
  simp [pixel, BitVec.getMsbD, Nat.not_lt.mpr h]

/-- No pixel below the screen is lit. -/
theorem pixel_of_height_le (screen : Screen) (x : Nat) {y : Nat} (h : 32 ≤ y) :
    screen.pixel x y = false := by
  simp [pixel, Nat.not_lt.mpr h]

/-- Screens with the same pixels are the same. -/
theorem ext_pixel {s t : Screen}
    (h : ∀ x y, x < 64 → y < 32 → s.pixel x y = t.pixel x y) : s = t := by
  have hrows : s.rows = t.rows := by
    apply Vector.ext
    intro y hy
    apply BitVec.eq_of_getMsbD_eq
    intro x hx
    simpa [pixel, hy] using h x y hx hy
  cases s
  cases t
  simpa using hrows

/-! ## Sprites -/

/-- The pixels that a sprite byte covers when its left edge is in column `x`. -/
def spriteRow (bits : UInt8) (x : Nat) : BitVec 64 :=
  (bits.toBitVec ++ (0 : BitVec 56)) >>> x

/-- The screen with the pixels of `mask` flipped in row `y`. -/
def flipRow (screen : Screen) (y : Nat) (mask : BitVec 64) (h : y < 32) : Screen :=
  { rows := screen.rows.set y (screen.rows[y] ^^^ mask) }

/-- The screen after a sprite's rows are drawn from row `y` down with their left
edges in column `x`, and whether any pixel that was lit has been flipped.  Rows
below the screen are left out. -/
def drawRows (screen : Screen) (x : Nat) : Nat → List UInt8 → Screen × Bool
  | _, [] => (screen, false)
  | y, bits :: rest =>
    if h : y < 32 then
      let mask := spriteRow bits x
      let below := (screen.flipRow y mask h).drawRows x (y + 1) rest
      (below.1, screen.rows[y] &&& mask != 0 || below.2)
    else
      (screen, false)

/-- The screen after a sprite is drawn, and whether any pixel that was lit has
been flipped.  The upper left corner wraps onto the screen; what reaches past
the right or the lower edge is cut off. -/
def draw (screen : Screen) (x y : UInt8) (sprite : List UInt8) : Screen × Bool :=
  screen.drawRows (x.toNat % 64) (y.toNat % 32) sprite

/-- Below the screen nothing is drawn. -/
theorem drawRows_of_le (screen : Screen) (left : Nat) {top : Nat} (h : 32 ≤ top)
    (sprite : List UInt8) : screen.drawRows left top sprite = (screen, false) := by
  cases sprite with
  | nil => rfl
  | cons bits rest => rw [drawRows, dif_neg (Nat.not_lt.mpr h)]

/-- On the screen the first row is drawn and then the others below it. -/
theorem drawRows_cons_of_lt (screen : Screen) (left : Nat) {top : Nat} (h : top < 32)
    (bits : UInt8) (rest : List UInt8) :
    screen.drawRows left top (bits :: rest) =
      (((screen.flipRow top (spriteRow bits left) h).drawRows left (top + 1) rest).1,
        screen.rows[top] &&& spriteRow bits left != 0 ||
          ((screen.flipRow top (spriteRow bits left) h).drawRows left (top + 1) rest).2) := by
  rw [drawRows, dif_pos h]

/-- A sprite byte covers at most eight columns from its left edge on, most
significant bit first. -/
theorem getMsbD_spriteRow (bits : UInt8) (x column : Nat) :
    (spriteRow bits x).getMsbD column =
      (decide (column < 64) && (decide (x ≤ column) && bits.toBitVec.getMsbD (column - x))) := by
  by_cases hcolumn : column < 64
  · by_cases hx : x ≤ column
    · simp only [spriteRow, BitVec.getMsbD_ushiftRight, BitVec.getMsbD_append]
      by_cases hbit : column - x < 8
      · simp [hcolumn, hx, hbit, Nat.not_lt.mpr hx]
      · simp [hcolumn, hx, hbit, BitVec.getMsbD]
    · simp [spriteRow, BitVec.getMsbD_ushiftRight, hx, Nat.lt_of_not_le hx]
  · simp [hcolumn, BitVec.getMsbD]

/-- Flipping pixels of one row leaves the other rows as they were. -/
theorem pixel_flipRow (screen : Screen) {row : Nat} (mask : BitVec 64) (h : row < 32)
    (x y : Nat) :
    (screen.flipRow row mask h).pixel x y =
      (screen.pixel x y ^^ (decide (y = row) && mask.getMsbD x)) := by
  by_cases hy : y < 32
  · by_cases hrow : row = y
    · subst hrow
      simp [pixel, flipRow, hy]
    · simp [pixel, flipRow, hy, hrow, Ne.symm hrow]
  · have hne : y ≠ row := by omega
    simp [pixel, hy, hne]

/-! ## Picture -/

/-- The character of a pixel: a hash sign if it is lit, a point if not. -/
def mark (lit : Bool) : Char := if lit then '#' else '.'

/-- The pixels of one row as characters, ended by a line feed. -/
def line (pixels : List Bool) : List Char := pixels.map mark ++ ['\n']

/-- The screen as characters, each row ended by a line feed. -/
def pictureChars (screen : Screen) : List Char :=
  screen.rows.toList.flatMap fun row => line (rowPixels row)

/-- The screen as text, each row ended by a line feed. -/
def picture (screen : Screen) : String :=
  String.ofList screen.pictureChars

end Screen

end Chip8
