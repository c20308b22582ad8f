import Chip8.Random

/-!
# Linear congruential generator

The machine's own random source.  Its state is a 32-bit seed; each draw
multiplies, adds and keeps the low 31 bits, and the new seed is the word drawn.
Longer outputs are made of the same words, low part first.

Main results:

- Theorem `Lcg.toNat_step`: a draw in terms of the last word.
- Theorem `Lcg.toNat_next_lt`: every word drawn is below 2^31.
- Theorem `Lcg.overwrite_eq_fill`: what a buffer held does not matter when it is overwritten.
-/

namespace Chip8

/-- The state of the generator. -/
structure Lcg where
  /-- The last word drawn, or what the generator was started from. -/
  seed : UInt32
  deriving DecidableEq

namespace Lcg

/-- What the generator starts from unless told otherwise. -/
def defaultSeed : UInt32 := 0xB16B00B5

/-- The generator in its default state. -/
def standard : Lcg := ⟨defaultSeed⟩

/-- The factor of each draw. -/
def multiplier : UInt32 := 1103515245

/-- The summand of each draw. -/
def increment : UInt32 := 12345

/-- The bits that a draw keeps. -/
def mask : UInt32 := 0x7FFFFFFF

/-- The seed after one draw. -/
def step (seed : UInt32) : UInt32 := (seed * multiplier + increment) &&& mask

/-- The next word and the generator after it. -/
def next (lcg : Lcg) : UInt32 × Lcg := (step lcg.seed, ⟨step lcg.seed⟩)

instance : RandomSource Lcg := ⟨next⟩

/-- The next 64-bit word, its low half drawn first, and the generator after
it. -/
def nextWide (lcg : Lcg) : UInt64 × Lcg :=
  let (low, lcg) := lcg.next
  let (high, lcg) := lcg.next
  (high.toUInt64 <<< 32 ||| low.toUInt64, lcg)

/-- The four bytes of a word, lowest first. -/
def bytesOf (word : UInt32) : List UInt8 :=
  [word.toUInt8, (word >>> 8).toUInt8, (word >>> 16).toUInt8, (word >>> 24).toUInt8]

/-- The next `n` bytes and the generator after them.  Every four bytes are a
word drawn, lowest byte first; of the last word only the bytes wanted are
used. -/
def fill : Nat → Lcg → List UInt8 × Lcg
  | 0, lcg => ([], lcg)
  | n + 4, lcg =>
    let (word, lcg) := lcg.next
    let (rest, lcg) := fill n lcg
    (bytesOf word ++ rest, lcg)
  | n, lcg =>
    let (word, lcg) := lcg.next
    ((bytesOf word).take n, lcg)

/-- A buffer cut into chunks of four bytes; what does not fill a chunk is a shorter one at
the end. -/
def chunks : List UInt8 → List (List UInt8)
  | [] => []
  | a :: b :: c :: d :: rest => [a, b, c, d] :: chunks rest
  | chunk => [chunk]

/-- Each chunk overwritten with the first bytes of a word of its own, and the generator
after the last. -/
def overwriteChunks : List (List UInt8) → Lcg → List (List UInt8) × Lcg
  | [], lcg => ([], lcg)
  | chunk :: rest, lcg =>
    let (word, lcg) := lcg.next
    let (later, lcg) := overwriteChunks rest lcg
    ((bytesOf word).take chunk.length :: later, lcg)

/-- A buffer overwritten chunk by chunk, and the generator after it. -/
def overwrite (buffer : List UInt8) (lcg : Lcg) : List UInt8 × Lcg :=
  let (written, lcg) := overwriteChunks (chunks buffer) lcg
  (written.flatten, lcg)

/-- The generator started from four bytes, lowest first. -/
def ofBytes (b0 b1 b2 b3 : UInt8) : Lcg :=
  ⟨b0.toUInt32 ||| b1.toUInt32 <<< 8 ||| b2.toUInt32 <<< 16 ||| b3.toUInt32 <<< 24⟩

/-- A draw multiplies and adds modulo 2^31. -/
theorem toNat_step (seed : UInt32) :
    (step seed).toNat = (seed.toNat * multiplier.toNat + increment.toNat) % 2147483648 := by
  have hmask : (step seed).toNat = (seed * multiplier + increment).toNat % 2147483648 := by
    rw [step, UInt32.toNat_and]
    exact Nat.and_two_pow_sub_one_eq_mod _ 31
  rw [hmask, UInt32.toNat_add, UInt32.toNat_mul]
  omega

/-- Every word drawn is below 2^31. -/
theorem toNat_next_lt (lcg : Lcg) : lcg.next.1.toNat < 2147483648 := by
  change (step lcg.seed).toNat < 2147483648
  rw [toNat_step]
  exact Nat.mod_lt _ (by decide)

theorem fill_add_four (n : Nat) (lcg : Lcg) :
    fill (n + 4) lcg = (bytesOf lcg.next.1 ++ (fill n lcg.next.2).1, (fill n lcg.next.2).2) := by
  rw [fill]

/-- Fewer bytes than a word has are the first of one. -/
theorem fill_of_lt {n : Nat} (hpos : 0 < n) (hlt : n < 4) (lcg : Lcg) :
    fill n lcg = ((bytesOf lcg.next.1).take n, lcg.next.2) := by
  rw [fill]
  · exact Nat.ne_of_gt hpos
  · intro k hk
    omega

/-- Overwriting a buffer yields the bytes that filling one of its length does, whatever the
buffer held. -/
theorem overwrite_eq_fill (buffer : List UInt8) (lcg : Lcg) :
    overwrite buffer lcg = fill buffer.length lcg := by
  fun_induction chunks buffer generalizing lcg with
  | case1 => rfl
  | case2 a b c d rest ih =>
    simp only [List.length_cons]
    rw [fill_add_four, ← ih]
    rfl
  | case3 chunk hnil hfour =>
    rcases chunk with _ | ⟨a, _ | ⟨b, _ | ⟨c, _ | ⟨d, rest⟩⟩⟩⟩
    · exact absurd rfl hnil
    · rfl
    · rfl
    · rfl
    · exact absurd rfl (hfour a b c d rest)

end Lcg

end Chip8
