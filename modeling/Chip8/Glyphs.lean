/-!
# Built-in glyphs

The sixteen hexadecimal digits as pictures, five rows each, with the picture in
the upper half of every row byte.  They lie in memory from address 0x050 on, so
that a program can draw them as sprites.
-/

namespace Chip8.Glyphs

/-- Address of the first glyph. -/
def start : UInt16 := 0x050

/-- Rows of one glyph. -/
def height : UInt16 := 5

/-- The rows of the glyphs 0 to F, one glyph after the other. -/
def rows : List UInt8 :=
  [ 0xF0, 0x90, 0x90, 0x90, 0xF0,
    0x20, 0x60, 0x20, 0x20, 0x70,
    0xF0, 0x10, 0xF0, 0x80, 0xF0,
    0xF0, 0x10, 0xF0, 0x10, 0xF0,
    0x90, 0x90, 0xF0, 0x10, 0x10,
    0xF0, 0x80, 0xF0, 0x10, 0xF0,
    0xF0, 0x80, 0xF0, 0x90, 0xF0,
    0xF0, 0x10, 0x20, 0x40, 0x40,
    0xF0, 0x90, 0xF0, 0x90, 0xF0,
    0xF0, 0x90, 0xF0, 0x10, 0xF0,
    0xF0, 0x90, 0xF0, 0x90, 0x90,
    0xE0, 0x90, 0xE0, 0x90, 0xE0,
    0xF0, 0x80, 0x80, 0x80, 0xF0,
    0xE0, 0x90, 0x90, 0x90, 0xE0,
    0xF0, 0x80, 0xF0, 0x80, 0xF0,
    0xF0, 0x80, 0xF0, 0x80, 0x80 ]

/-- Sixteen glyphs of five rows fill eighty bytes. -/
theorem length_rows : rows.length = 16 * height.toNat := by
  decide

end Chip8.Glyphs
