import Chip8.Proofs.RandomDraws

/-!
# Words, wide words and bytes are one stream

The generator has three ways to give out what it draws: words, words twice as wide, and bytes put
into a buffer.  All of them are the same words in the same order, each with its lowest byte first.
A buffer takes as many words as it has chunks of four bytes, so that a request for bytes can be
split wherever a word ends.

Main results:

- Theorem `Lcg.fill_eq_take`: the bytes put into a buffer, and where they leave the generator.
- Theorem `Lcg.fill_add`: a request for bytes split where a word ends.
- Theorem `Lcg.toNat_nextWide`: a wide word as a number.
- Theorem `Lcg.stream_law`: the three together, for every state of the generator.
-/

namespace Chip8

theorem RandomSource.after_add {G : Type} [RandomSource G] (g : G) (m n : Nat) :
    after g (m + n) = after (after g m) n := by
  induction n with
  | zero => rfl
  | succ n ih => rw [← Nat.add_assoc, after, ih, after]

namespace Lcg

open RandomSource (word after after_next after_add)

/-! ## Bytes of numbers -/

/-- The first `n` bytes of a number, lowest first. -/
def littleEndian : Nat → Nat → List UInt8
  | 0, _ => []
  | n + 1, value => UInt8.ofNat value :: littleEndian n (value / 256)

theorem length_littleEndian (n value : Nat) : (littleEndian n value).length = n := by
  induction n generalizing value with
  | zero => rfl
  | succ n ih => rw [littleEndian, List.length_cons, ih]

/-- The bytes of a word are its value in base 256, least byte first. -/
theorem bytesOf_eq (w : UInt32) : bytesOf w = littleEndian 4 w.toNat := by
  have hbyte (k : UInt32) (d : Nat) (h : (w >>> k).toNat = w.toNat / d) :
      (w >>> k).toUInt8 = UInt8.ofNat (w.toNat / d) := by
    rw [← h]
    rfl
  simp only [littleEndian, Nat.div_div_eq_div_mul]
  rw [bytesOf, hbyte 8 256 (by simp [Nat.shiftRight_eq_div_pow]),
    hbyte 16 (256 * 256) (by simp [Nat.shiftRight_eq_div_pow]),
    hbyte 24 (256 * 256 * 256) (by simp [Nat.shiftRight_eq_div_pow])]
  rfl

/-- The bytes of a number made of two words are those of the low word and then those of the
high one. -/
theorem littleEndian_eight {low : Nat} (hlow : low < UInt32.size) (high : Nat) :
    littleEndian 8 (low + UInt32.size * high) = littleEndian 4 low ++ littleEndian 4 high := by
  have hsize : UInt32.size = 4294967296 := rfl
  have hsplit (value : Nat) : littleEndian 8 value =
      littleEndian 4 value ++ littleEndian 4 (value / 256 / 256 / 256 / 256) := rfl
  rw [hsize] at hlow ⊢
  have hlowest : littleEndian 4 (low + 4294967296 * high) = littleEndian 4 low := by
    simp only [littleEndian, List.cons.injEq, and_true, ← UInt8.toNat_inj, UInt8.toNat_ofNat']
    omega
  have hhighest : (low + 4294967296 * high) / 256 / 256 / 256 / 256 = high := by omega
  rw [hsplit, hlowest, hhighest]

/-! ## Bytes of words drawn -/

/-- The bytes of the next `n` words drawn. -/
def stream (g : Lcg) (n : Nat) : List UInt8 :=
  (List.range n).flatMap fun i => littleEndian 4 (word g i).toNat

/-- A stream goes on where its first part has left the source. -/
theorem stream_add (g : Lcg) (m n : Nat) : stream g (m + n) = stream g m ++ stream (after g m) n := by
  have hword (i : Nat) : word g (m + i) = word (after g m) i := by
    rw [word, after_add, word]
  simp only [stream, List.range_add, List.flatMap_append, List.flatMap_map, hword]

theorem length_stream (g : Lcg) (n : Nat) : (stream g n).length = 4 * n := by
  simp [stream, List.length_flatMap, length_littleEndian, List.map_const', Nat.mul_comm]

theorem stream_one (g : Lcg) : stream g 1 = bytesOf g.next.1 := by
  rw [bytesOf_eq]
  exact List.append_nil _

/-- Filling takes the first bytes of as many words as it begins, and draws these words. -/
theorem fill_eq_take (n : Nat) (g : Lcg) :
    fill n g = ((stream g ((n + 3) / 4)).take n, after g ((n + 3) / 4)) := by
  induction n using Nat.strongRecOn generalizing g with
  | ind n ih =>
      rcases Nat.lt_or_ge n 4 with hlt | hle
      · rcases Nat.eq_zero_or_pos n with rfl | hpos
        · rfl
        · have hone : (n + 3) / 4 = 1 := by omega
          rw [fill_of_lt hpos hlt, hone, stream_one]
          rfl
      · obtain ⟨k, rfl⟩ := Nat.exists_eq_add_of_le' hle
        have hwords : (k + 4 + 3) / 4 = 1 + (k + 3) / 4 := by omega
        have hlength : (bytesOf g.next.1).length = 4 := rfl
        rw [fill_add_four, ih k (by omega), hwords, stream_add, stream_one, after_add,
          Nat.add_comm k 4, ← hlength, List.take_length_add_append]
        rfl

/-- A request for bytes can be split where a word ends. -/
theorem fill_add {m : Nat} (h : 4 ∣ m) (n : Nat) (g : Lcg) :
    fill (m + n) g = ((fill m g).1 ++ (fill n (fill m g).2).1, (fill n (fill m g).2).2) := by
  obtain ⟨k, rfl⟩ := h
  have hfirst : (4 * k + 3) / 4 = k := by omega
  have hboth : (4 * k + n + 3) / 4 = k + (n + 3) / 4 := by omega
  have hlength := length_stream g k
  rw [fill_eq_take (4 * k), fill_eq_take (4 * k + n), hfirst, hboth, stream_add, after_add,
    ← hlength, List.take_length_add_append, List.take_length, fill_eq_take n]

/-! ## Wide words -/

/-- A wide word has the first word drawn below the second. -/
theorem toNat_nextWide (g : Lcg) :
    g.nextWide.1.toNat = (word g 0).toNat + UInt32.size * (word g 1).toNat := by
  have hlow : (word g 0).toNat < UInt32.size := (word g 0).toNat_lt
  have hhigh : (word g 1).toNat < UInt32.size := (word g 1).toNat_lt
  change ((word g 1).toUInt64 <<< 32 ||| (word g 0).toUInt64).toNat = _
  rw [UInt64.toNat_or, UInt64.toNat_shiftLeft, UInt32.toNat_toUInt64, UInt32.toNat_toUInt64]
  change (word g 1).toNat <<< 32 % UInt64.size ||| (word g 0).toNat = _
  have hshift : (word g 1).toNat <<< 32 = UInt32.size * (word g 1).toNat := by
    rw [Nat.shiftLeft_eq, Nat.mul_comm]
  have hroom : (word g 1).toNat <<< 32 < UInt64.size := by
    rw [hshift]
    exact Nat.mul_lt_mul_of_pos_left hhigh (by decide)
  rw [Nat.mod_eq_of_lt hroom, ← Nat.shiftLeft_add_eq_or_of_lt hlow, hshift, Nat.add_comm]

/-- The upper bits of both halves of a wide word are never set, as the words drawn are below
2^31. -/
theorem testBit_nextWide (g : Lcg) :
    g.nextWide.1.toNat.testBit 31 = false ∧ g.nextWide.1.toNat.testBit 63 = false := by
  have hlow : (word g 0).toNat < 2147483648 := toNat_next_lt g
  have hhigh : (word g 1).toNat < 2147483648 := toNat_next_lt g.next.2
  have hsize : UInt32.size = 4294967296 := rfl
  rw [toNat_nextWide, hsize, Nat.testBit_eq_decide_div_mod_eq, Nat.testBit_eq_decide_div_mod_eq,
    decide_eq_false_iff_not, decide_eq_false_iff_not]
  omega

/-- Eight bytes are those of a wide word. -/
theorem fill_eight (g : Lcg) :
    fill 8 g = (littleEndian 8 g.nextWide.1.toNat, g.nextWide.2) := by
  rw [fill_eq_take, toNat_nextWide, littleEndian_eight (word g 0).toNat_lt]
  rfl

/-- Whatever a buffer held, overwriting it leaves in it the first bytes of as many words as
it has chunks, and the generator where drawing these words does; so it can be done in parts
if all but the last are whole words. A wide word is two words, the first the low one; its
bytes are those of a buffer of eight, it leaves the generator in the same state, and its
bits 31 and 63 are never set. -/
theorem stream_law (g : Lcg) :
    (∀ buffer, overwrite buffer g = fill buffer.length g) ∧
    (∀ n, fill n g =
      (((List.range ((n + 3) / 4)).flatMap fun i => littleEndian 4 (word g i).toNat).take n,
        after g ((n + 3) / 4))) ∧
    (∀ m n, 4 ∣ m →
      fill (m + n) g = ((fill m g).1 ++ (fill n (fill m g).2).1, (fill n (fill m g).2).2)) ∧
    g.nextWide.1.toNat = (word g 0).toNat + UInt32.size * (word g 1).toNat ∧
    g.nextWide.2 = after g 2 ∧
    fill 8 g = (littleEndian 8 g.nextWide.1.toNat, g.nextWide.2) ∧
    g.nextWide.1.toNat.testBit 31 = false ∧ g.nextWide.1.toNat.testBit 63 = false := by
  refine ⟨?_, ?_, ?_, g.toNat_nextWide, rfl, g.fill_eight, g.testBit_nextWide⟩
  · intro buffer
    exact overwrite_eq_fill buffer g
  · intro n
    exact fill_eq_take n g
  · intro m n h
    exact fill_add h n g

/-- Six bytes from seed 1, at once or in two parts. -/
theorem stream_law_sixBytes :
    overwrite [0, 1, 2, 3, 4, 5] ⟨1⟩ = ([0xA6, 0x7E, 0xC6, 0x41, 0xE7, 0xB0], ⟨0x167EB0E7⟩) ∧
      fill (4 + 2) ⟨1⟩ =
        ((fill 4 ⟨1⟩).1 ++ (fill 2 (fill 4 ⟨1⟩).2).1, (fill 2 (fill 4 ⟨1⟩).2).2) := by
  obtain ⟨hbuffer, -, hparts, -⟩ := stream_law ⟨1⟩
  refine ⟨?_, hparts 4 2 (by decide)⟩
  rw [hbuffer]
  decide

end Lcg

end Chip8
