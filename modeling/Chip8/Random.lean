/-!
# Random sources

A random source is a state from which 32-bit words are drawn one after another.
The machine is built over any such source.
-/

namespace Chip8

/-- A state from which 32-bit words are drawn. -/
class RandomSource (G : Type) where
  /-- The next word and the state after it. -/
  next : G → UInt32 × G

end Chip8
