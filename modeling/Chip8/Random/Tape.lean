import Chip8.Random

/-!
# Recorded words

A random source that plays back a recording: the words of a tape in order, from
the beginning again after the last.
-/

namespace Chip8

/-- A recording and the position of its next word. -/
structure Tape where
  /-- The words of the recording. -/
  words : Array UInt32
  /-- Which word is next. -/
  position : Nat := 0

namespace Tape

/-- The next word and the tape after it; an empty recording plays zeros. -/
def next (tape : Tape) : UInt32 × Tape :=
  (tape.words[tape.position]?.getD 0,
    { tape with position := (tape.position + 1) % tape.words.size })

instance : RandomSource Tape := ⟨next⟩

end Tape

end Chip8
