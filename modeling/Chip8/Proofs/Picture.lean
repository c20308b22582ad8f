import Chip8.Screen.Cells

/-!
# The picture shows every pixel once

The picture of a screen has one line for each row and one character for each pixel of the row,
with a line feed after the last.  All lines have the same length, so the place of a character in
the picture tells the pixel, column by column within a row and row after row.

Main results:

- Theorem `Screen.pictureChars_eq`: the lines are those of the table of cells, 64 at a time.
- Theorems `Screen.getElem?_pictureChars` and `Screen.getElem?_pictureChars_lineFeed`: which
  character stands where.
- Theorem `Screen.picture_law`: the length of a picture, its characters, the number of lit ones,
  and that it tells screens apart.
-/

namespace Chip8.Screen

/-! ## Lines -/

/-- The character of a pixel tells whether it is lit. -/
theorem mark_inj {a b : Bool} (h : mark a = mark b) : a = b := by
  revert a b
  decide

/-- A line has a character for every pixel and the line feed. -/
theorem length_line (pixels : List Bool) : (line pixels).length = pixels.length + 1 := by
  simp [line]

theorem length_line_rowPixels (row : BitVec 64) : (line (rowPixels row)).length = 65 := by
  rw [length_line, length_rowPixels]

/-- The character of a pixel stands in its column. -/
theorem getElem?_line {pixels : List Bool} {x : Nat} {lit : Bool} (h : pixels[x]? = some lit) :
    (line pixels)[x]? = some (mark lit) := by
  have hx : x < (pixels.map mark).length := by
    rw [List.length_map]
    exact (List.getElem?_eq_some_iff.mp h).1
  rw [line, List.getElem?_append_left hx, List.getElem?_map, h, Option.map_some]

/-- The line feed stands after the last pixel. -/
theorem getElem?_line_last {pixels : List Bool} {n : Nat} (h : pixels.length = n) :
    (line pixels)[n]? = some '\n' := by
  simp [line, ← h]

/-- A line has as many hash signs as lit pixels. -/
theorem count_line (pixels : List Bool) : (line pixels).count '#' = pixels.count true := by
  have hmark (lit : Bool) : (mark lit == '#') = (lit == true) := by
    cases lit <;> rfl
  rw [line, List.count_append]
  change List.count '#' (pixels.map mark) + 0 = _
  rw [Nat.add_zero, List.count, List.countP_map, List.count]
  exact congrArg (List.countP · pixels) (funext hmark)

/-! ## Lines one after another -/

/-- What is made of pieces of one length is made of the slices of that length of all of them
together. -/
theorem flatMap_eq_slices {α β γ : Type} {f : α → List β} {n : Nat}
    (hlength : ∀ a, (f a).length = n) (g : List β → List γ) (pieces : List α) :
    (pieces.flatMap fun piece => g (f piece)) =
      (List.range pieces.length).flatMap fun y =>
        g (((pieces.flatMap f).drop (n * y)).take n) := by
  induction pieces with
  | nil => rfl
  | cons piece rest ih =>
      have hfirst : ((piece :: rest).flatMap f).take n = f piece := by
        rw [List.flatMap_cons, ← hlength piece, List.take_left]
      have hlater (y : Nat) : ((piece :: rest).flatMap f).drop (n * (y + 1)) =
          (rest.flatMap f).drop (n * y) := by
        rw [List.flatMap_cons, Nat.mul_succ, Nat.add_comm, ← List.drop_drop, ← hlength piece,
          List.drop_left]
      rw [List.flatMap_cons, ih, List.length_cons, List.range_succ_eq_map, List.flatMap_cons,
        Nat.mul_zero, List.drop_zero, hfirst, List.flatMap_map]
      simp only [Nat.succ_eq_add_one, hlater]

/-- The picture has one line for every 64 cells of the table. -/
theorem pictureChars_eq (screen : Screen) :
    screen.pictureChars =
      (List.range 32).flatMap fun y => line ((screen.cells.drop (64 * y)).take 64) := by
  have hrows : screen.rows.toList.length = 32 := screen.rows.length_toList
  rw [pictureChars, flatMap_eq_slices length_rowPixels line, hrows, cells]

/-- The character of a pixel stands in the line of its row and the column of its column. -/
theorem getElem?_pictureChars (screen : Screen) {x y : Nat} (hx : x < 64) (hy : y < 32) :
    screen.pictureChars[65 * y + x]? = some (mark (screen.pixel x y)) := by
  rw [pictureChars, getElem?_flatMap_of_length length_line_rowPixels _ y (by omega),
    screen.getElem?_rows hy, Option.bind_some, getElem?_line (screen.getElem?_rowPixels hx hy)]

/-- A line feed stands after the last column. -/
theorem getElem?_pictureChars_lineFeed (screen : Screen) {y : Nat} (h : y < 32) :
    screen.pictureChars[65 * y + 64]? = some '\n' := by
  rw [pictureChars, getElem?_flatMap_of_length length_line_rowPixels _ y (by omega),
    screen.getElem?_rows h, Option.bind_some, getElem?_line_last (length_rowPixels _)]

theorem length_pictureChars (screen : Screen) : screen.pictureChars.length = 32 * 65 := by
  simp [pictureChars, List.length_flatMap, length_line_rowPixels, List.map_const']

/-- The hash signs are as many as the lit pixels. -/
theorem count_pictureChars (screen : Screen) :
    screen.pictureChars.count '#' = screen.litCount := by
  rw [pictureChars, litCount, cells]
  induction screen.rows.toList with
  | nil => rfl
  | cons row rest ih =>
      rw [List.flatMap_cons, List.flatMap_cons, List.count_append, List.count_append, ih,
        count_line]

/-- Screens with the same characters are the same. -/
theorem pictureChars_inj {s t : Screen} (h : s.pictureChars = t.pictureChars) : s = t := by
  apply ext_pixel
  intro x y hx hy
  have hs := s.getElem?_pictureChars hx hy
  rw [h, t.getElem?_pictureChars hx hy] at hs
  exact (mark_inj (Option.some.inj hs)).symm

/-- The cells are the pixels row after row, and the picture has a line for every 64 of them:
32 lines of 65 characters. The character in column `x` of line `y` is a hash sign if the
pixel there is lit and a point if not, and the last of a line is a line feed; there are as
many hash signs as lit cells; and screens have one picture just if they are the same. -/
theorem picture_law (screen : Screen) :
    (∀ x y, x < 64 → y < 32 → screen.cells[64 * y + x]? = some (screen.pixel x y)) ∧
    screen.picture.toList =
      ((List.range 32).flatMap fun y => line ((screen.cells.drop (64 * y)).take 64)) ∧
    screen.picture.length = 32 * 65 ∧
    (∀ x y, x < 64 → y < 32 →
      screen.picture.toList[65 * y + x]? = some (if screen.pixel x y then '#' else '.')) ∧
    (∀ y, y < 32 → screen.picture.toList[65 * y + 64]? = some '\n') ∧
    screen.picture.toList.count '#' = screen.litCount ∧
    screen.litCount = screen.cells.count true ∧
    ∀ other : Screen, screen.picture = other.picture ↔ screen = other := by
  have hchars (s : Screen) : s.picture.toList = s.pictureChars := String.toList_ofList
  rw [← String.length_toList, hchars]
  refine ⟨?_, screen.pictureChars_eq, screen.length_pictureChars, ?_, ?_,
    screen.count_pictureChars, rfl, ?_⟩
  · intro x y hx hy
    exact screen.getElem?_cells hx hy
  · intro x y hx hy
    exact screen.getElem?_pictureChars hx hy
  · intro y hy
    exact screen.getElem?_pictureChars_lineFeed hy
  · intro other
    constructor
    · intro h
      apply pictureChars_inj
      rw [← hchars, ← hchars, h]
    · rintro rfl
      rfl

/-- A screen with a single lit pixel, in column 5 of row 3. -/
def singlePoint : Screen := (blank.draw 5 3 [0x80]).1

theorem picture_law_singlePoint :
    singlePoint.picture.toList[65 * 3 + 5]? = some '#' ∧
      singlePoint.picture.toList[65 * 5 + 3]? = some '.' ∧
      singlePoint.picture.toList[65 * 31 + 64]? = some '\n' ∧
      singlePoint.picture ≠ blank.picture := by
  obtain ⟨-, -, -, hpixels, hfeeds, -, -, hinj⟩ := picture_law singlePoint
  have hlit : singlePoint.pixel 5 3 = true ∧ singlePoint.pixel 3 5 = false := by decide
  refine ⟨?_, ?_, hfeeds 31 (by decide), ?_⟩
  · simpa [hlit.1] using hpixels 5 3 (by decide) (by decide)
  · simpa [hlit.2] using hpixels 3 5 (by decide) (by decide)
  · rw [ne_eq, hinj blank]
    intro h
    rw [h, pixel_blank] at hlit
    cases hlit.1

end Chip8.Screen
