import Chip8.Proofs.RandomDraws
import Mathlib.Algebra.Ring.GeomSum
import Mathlib.Algebra.Ring.Parity
import Mathlib.Data.Fintype.EquivFin
import Mathlib.Data.Nat.ModEq
import Mathlib.Data.Nat.Prime.Basic
import Mathlib.Tactic.Ring

/-!
# The generator has full period

The factor of the generator is one more than a multiple of four, and its summand is odd.  For
a sequence that multiplies and adds so, modulo a power of two, that is all it takes: modulo
any smaller power of two its terms agree exactly if their places do.  The words drawn
therefore run through all the numbers below 2^31, and their low bytes through all bytes,
before any of them comes again.

Main results:

- Theorem `Lcg.two_pow_dvd_geom_sum_iff`: a power of two divides a sum of powers exactly if
  it divides the number of summands.
- Theorem `Lcg.Affine.modEq_add`: what some further terms of such a sequence come to.
- Theorem `Lcg.Affine.modEq_iff`: where the terms of such a sequence agree.
- Theorem `Lcg.period_law`: so it is for the words of the generator, whatever its seed.
-/

namespace Chip8

namespace Lcg

open RandomSource (word)
open Finset (range)

/-! ## Sums of powers -/

/-- The first powers, an even number of them, taken in pairs. -/
theorem geom_sum_two_mul (a m : ℕ) :
    ∑ i ∈ range (2 * m), a ^ i = (a + 1) * ∑ i ∈ range m, (a ^ 2) ^ i := by
  induction m with
  | zero => rfl
  | succ m ih =>
      rw [Nat.mul_succ, Finset.sum_range_succ, Finset.sum_range_succ, ih, Finset.sum_range_succ]
      ring

/-- If `a` is one more than a multiple of four, a power of two divides the sum of its first
powers exactly if it divides their number. -/
theorem two_pow_dvd_geom_sum_iff {a : ℕ} (ha : a % 4 = 1) (k n : ℕ) :
    2 ^ k ∣ ∑ i ∈ range n, a ^ i ↔ 2 ^ k ∣ n := by
  -- pairs of powers are powers of the square, so that each halving uses up one factor two
  induction k generalizing a n with
  | zero => simp only [pow_zero, one_dvd]
  | succ k ih =>
      obtain ⟨b, hb, hodd⟩ : ∃ b, a + 1 = 2 * b ∧ Odd b :=
        ⟨(a + 1) / 2, by omega, Nat.odd_iff.mpr (by omega)⟩
      have hsquare : a ^ 2 % 4 = 1 := by rw [Nat.pow_mod, ha]
      have hpairs (m : ℕ) : ∑ i ∈ range (2 * m), a ^ i = 2 * (b * ∑ i ∈ range m, (a ^ 2) ^ i) := by
        rw [geom_sum_two_mul, hb, Nat.mul_assoc]
      rcases Nat.even_or_odd' n with ⟨m, rfl | rfl⟩
      · have hcoprime : Nat.Coprime (2 ^ k) b := (Nat.coprime_two_left.mpr hodd).pow_left k
        rw [hpairs, Nat.pow_succ', Nat.mul_dvd_mul_iff_left Nat.zero_lt_two,
          Nat.mul_dvd_mul_iff_left Nat.zero_lt_two, hcoprime.dvd_mul_left, ih hsquare]
      · have htwo : 2 ∣ 2 ^ (k + 1) := dvd_pow_self 2 k.succ_ne_zero
        have hsum : ¬2 ∣ ∑ i ∈ range (2 * m + 1), a ^ i := by
          rw [geom_sum_succ, hpairs, Nat.mul_left_comm]
          omega
        have hcount : ¬2 ∣ 2 * m + 1 := by omega
        exact iff_of_false (mt htwo.trans hsum) (mt htwo.trans hcount)

/-! ## Sequences that multiply and add -/

/-- Modulo 2^w, each term of the sequence is the last one times `a` plus `c`. -/
def Affine (u : ℕ → ℕ) (a c w : ℕ) : Prop := ∀ n, u (n + 1) ≡ u n * a + c [MOD 2 ^ w]

namespace Affine

variable {u : ℕ → ℕ} {a c w : ℕ}

/-- The sequence moves on from a term by as many powers of `a`, each multiplied by the first
difference. -/
theorem modEq_add (hu : Affine u a c w) (ha : 0 < a) (n d : ℕ) :
    u (n + d) ≡ u n + (u n * (a - 1) + c) * ∑ i ∈ range d, a ^ i [MOD 2 ^ w] := by
  obtain ⟨b, rfl⟩ : ∃ b, a = b + 1 := Nat.exists_eq_succ_of_ne_zero ha.ne'
  rw [Nat.add_sub_cancel]
  induction d with
  | zero =>
      rw [Finset.sum_range_zero, Nat.mul_zero]
      exact Nat.ModEq.rfl
  | succ d ih =>
      calc u (n + d + 1)
        _ ≡ u (n + d) * (b + 1) + c [MOD 2 ^ w] := hu (n + d)
        _ ≡ (u n + (u n * b + c) * ∑ i ∈ range d, (b + 1) ^ i) * (b + 1) + c [MOD 2 ^ w] :=
          (ih.mul_right _).add_right _
        _ = u n + (u n * b + c) * ∑ i ∈ range (d + 1), (b + 1) ^ i := by
          rw [geom_sum_succ]
          ring

/-- If `a` is one more than a multiple of four and `c` is odd, terms of the sequence agree
modulo a power of two exactly if their places do. -/
theorem modEq_iff (hu : Affine u a c w) (ha : a % 4 = 1) (hc : Odd c) {k : ℕ} (hk : k ≤ w)
    (i j : ℕ) : u i ≡ u j [MOD 2 ^ k] ↔ i ≡ j [MOD 2 ^ k] := by
  wlog h : i ≤ j generalizing i j with hswap
  · rw [Nat.ModEq.comm, hswap j i (Nat.le_of_not_le h), Nat.ModEq.comm]
  obtain ⟨d, rfl⟩ := Nat.exists_eq_add_of_le h
  have hodd : Odd (u i * (a - 1) + c) := by
    have heven : Even (a - 1) := Nat.even_iff.mpr (by omega)
    exact (heven.mul_left _).add_odd hc
  have hcoprime : Nat.Coprime (2 ^ k) (u i * (a - 1) + c) :=
    (Nat.coprime_two_left.mpr hodd).pow_left k
  have hadd := (hu.modEq_add (by omega) i d).of_dvd (pow_dvd_pow 2 hk)
  calc u i ≡ u (i + d) [MOD 2 ^ k]
    _ ↔ u i ≡ u i + (u i * (a - 1) + c) * ∑ n ∈ range d, a ^ n [MOD 2 ^ k] :=
      ⟨fun h => h.trans hadd, fun h => h.trans hadd.symm⟩
    _ ↔ 2 ^ k ∣ (u i * (a - 1) + c) * ∑ n ∈ range d, a ^ n := Nat.left_modEq_add_iff
    _ ↔ 2 ^ k ∣ ∑ n ∈ range d, a ^ n := hcoprime.dvd_mul_left
    _ ↔ 2 ^ k ∣ d := two_pow_dvd_geom_sum_iff ha k d
    _ ↔ i ≡ i + d [MOD 2 ^ k] := Nat.left_modEq_add_iff.symm

end Affine

/-- A sequence whose terms differ modulo `m` unless their places agree has every residue once
among any `m` terms in a row. -/
theorem existsUnique_mod_eq {u : ℕ → ℕ} {m : ℕ} (hu : ∀ i j, u i ≡ u j [MOD m] → i ≡ j [MOD m])
    (start : ℕ) {r : ℕ} (hr : r < m) : ∃! i, start ≤ i ∧ i < start + m ∧ u i % m = r := by
  let residue (i : Fin m) : Fin m := ⟨u (start + i) % m, Nat.mod_lt _ (Nat.zero_lt_of_lt hr)⟩
  have hinj : Function.Injective residue := by
    intro i j h
    have hplaces := Nat.ModEq.add_left_cancel' start (hu _ _ (Fin.mk.inj h))
    exact Fin.ext (hplaces.eq_of_lt_of_lt i.isLt j.isLt)
  rcases Finite.surjective_of_injective hinj ⟨r, hr⟩ with ⟨i, hi⟩
  refine ⟨start + i, ⟨Nat.le_add_right _ _, Nat.add_lt_add_left i.isLt _, Fin.mk.inj hi⟩, ?_⟩
  rintro j ⟨hfirst, hlast, hj⟩
  obtain ⟨d, rfl⟩ := Nat.exists_eq_add_of_le hfirst
  have hd : d < m := by omega
  have heq : (⟨d, hd⟩ : Fin m) = i := hinj ((Fin.ext hj).trans hi.symm)
  rw [← heq]

/-! ## The words drawn -/

/-- The words drawn multiply by the factor of the generator and add its summand. -/
theorem affine_word (g : Lcg) :
    Affine (fun n => (word g n).toNat) multiplier.toNat increment.toNat 31 := by
  intro n
  change (step (word g n)).toNat ≡ _ [MOD 2 ^ 31]
  rw [toNat_step]
  exact Nat.mod_modEq _ _

/-- Words drawn agree in their low bits exactly if their places do. -/
theorem word_modEq_iff (g : Lcg) {k : ℕ} (hk : k ≤ 31) (i j : ℕ) :
    (word g i).toNat ≡ (word g j).toNat [MOD 2 ^ k] ↔ i ≡ j [MOD 2 ^ k] := by
  have hfactor : multiplier.toNat % 4 = 1 := rfl
  have hsummand : Odd increment.toNat := by decide
  exact (affine_word g).modEq_iff hfactor hsummand hk i j

/-- Among any 2^k words in a row, every choice of the low `k` bits comes once. -/
theorem existsUnique_word_mod (g : Lcg) {k : ℕ} (hk : k ≤ 31) (start : ℕ) {r : ℕ}
    (hr : r < 2 ^ k) : ∃! i, start ≤ i ∧ i < start + 2 ^ k ∧ (word g i).toNat % 2 ^ k = r :=
  existsUnique_mod_eq (fun i j => (g.word_modEq_iff hk i j).mp) start hr

/-- Whatever the seed, the words drawn are below 2^31, agree in their low bits exactly if
their places do, and run through all the numbers below 2^31 in any 2^31 draws. Their low
bytes, which are what random instructions get, run through all bytes in any 256 draws and
then come again. -/
theorem period_law (g : Lcg) :
    (∀ i, (word g i).toNat < 2 ^ 31) ∧
    (∀ k ≤ 31, ∀ i j, (word g i).toNat ≡ (word g j).toNat [MOD 2 ^ k] ↔ i ≡ j [MOD 2 ^ k]) ∧
    (∀ start (w : UInt32), w.toNat < 2 ^ 31 →
      ∃! i, start ≤ i ∧ i < start + 2 ^ 31 ∧ word g i = w) ∧
    (∀ start (byte : UInt8), ∃! i, start ≤ i ∧ i < start + 256 ∧ (word g i).toUInt8 = byte) ∧
    ∀ i, (word g (i + 256)).toUInt8 = (word g i).toUInt8 := by
  have hlt (i : ℕ) : (word g i).toNat < 2 ^ 31 := toNat_next_lt _
  refine ⟨hlt, fun k hk => g.word_modEq_iff hk, ?_, ?_, ?_⟩
  · intro start w hw
    have hmod (i : ℕ) : (word g i).toNat % 2 ^ 31 = w.toNat ↔ word g i = w := by
      rw [Nat.mod_eq_of_lt (hlt i), UInt32.toNat_inj]
    simpa only [hmod] using g.existsUnique_word_mod (Nat.le_refl 31) start hw
  · intro start byte
    have hmod (i : ℕ) : (word g i).toNat % 2 ^ 8 = byte.toNat ↔ (word g i).toUInt8 = byte := by
      rw [← UInt32.toNat_toUInt8, UInt8.toNat_inj]
    have hunique := g.existsUnique_word_mod (show 8 ≤ 31 by decide) start byte.toNat_lt
    simp only [hmod] at hunique
    exact hunique
  · intro i
    apply UInt8.toNat_inj.mp
    rw [UInt32.toNat_toUInt8, UInt32.toNat_toUInt8]
    exact (g.word_modEq_iff (show 8 ≤ 31 by decide) (i + 256) i).mpr Nat.add_modEq_right

/-- After 2^31 draws the standard generator gives its first word again, and not after half as
many. -/
theorem period_law_standard :
    word Lcg.standard (2 ^ 31) = 0x25C4A34A ∧ word Lcg.standard (2 ^ 30) ≠ 0x25C4A34A ∧
      ∃! i, 2 ^ 30 ≤ i ∧ i < 2 ^ 30 + 256 ∧ (word Lcg.standard i).toUInt8 = 0x4A := by
  rcases period_law Lcg.standard with ⟨hlt, hmod, -, hbyte, -⟩
  have hfirst : word Lcg.standard 0 = 0x25C4A34A := by decide
  refine ⟨?_, ?_, hbyte (2 ^ 30) 0x4A⟩
  · have hagain := (hmod 31 (Nat.le_refl 31) (2 ^ 31) 0).mpr (by decide)
    rw [← hfirst]
    exact UInt32.toNat_inj.mp (hagain.eq_of_lt_of_lt (hlt _) (hlt _))
  · intro hhalf
    have hagree := congrArg UInt32.toNat (hhalf.trans hfirst.symm)
    have hplaces := (hmod 31 (Nat.le_refl 31) (2 ^ 30) 0).mp (congrArg (· % 2 ^ 31) hagree)
    exact absurd hplaces (by decide)

end Lcg

end Chip8
