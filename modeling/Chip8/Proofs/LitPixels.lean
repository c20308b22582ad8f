import Mathlib.Data.Fintype.Prod
import Mathlib.Data.Finset.SymmDiff
import Mathlib.Data.List.FinRange
import Chip8.Proofs.Coverage

/-!
# How many pixels are lit

Drawing a sprite lights the covered pixels that were unlit and puts out the covered pixels
that were lit.  Every set bit of the sprite that is on the screen has a pixel of its own, so
that the number of lit pixels after drawing follows from three counts from before: the lit
pixels, the bits shown, and the bits that fall on lit pixels.  The flag is read off the same
counts.

Main results:

- Theorem `Screen.litCount_eq_card`: the count of lit pixels is the size of the set of them.
- Theorem `Screen.card_filter_shownBits`: the bits shown are as many as the pixels covered,
  also among those with any one property.
- Theorem `Screen.lit_count_law`: the balance of lit pixels, and the flag as a comparison of
  counts.
-/

namespace Chip8.Screen

open scoped symmDiff

/-! ## Sets of pixels -/

/-- The lit pixels, by row and column. -/
def lit (screen : Screen) : Finset (Fin 32 × Fin 64) :=
  Finset.univ.filter fun place => screen.pixel place.2 place.1 = true

/-- The pixels of the screen that a sprite covers, by row and column. -/
def covered (sprite : List UInt8) (left top : Nat) : Finset (Fin 32 × Fin 64) :=
  Finset.univ.filter fun place => Covers sprite left top place.2 place.1

@[simp]
theorem mem_lit {screen : Screen} {place : Fin 32 × Fin 64} :
    place ∈ screen.lit ↔ screen.pixel place.2 place.1 = true := by
  simp [lit]

@[simp]
theorem mem_covered {sprite : List UInt8} {left top : Nat} {place : Fin 32 × Fin 64} :
    place ∈ covered sprite left top ↔ Covers sprite left top place.2 place.1 := by
  simp [covered]

/-- The cells are the pixels of all places of the screen. -/
theorem cells_eq (screen : Screen) :
    screen.cells =
      (List.finRange 32 ×ˢ List.finRange 64).map fun place => screen.pixel place.2 place.1 := by
  have hrows : screen.rows.toList = (List.finRange 32).map fun y => screen.rows[y] := by
    apply List.ext_getElem
    · simp
    · intro y _ _
      simp
  have hpixels (y : Fin 32) : rowPixels screen.rows[y] =
      (List.finRange 64).map fun x : Fin 64 => screen.pixel x y := by
    rw [rowPixels, ← List.map_coe_finRange_eq_range, List.map_map]
    apply List.map_congr_left
    intro x _
    simp [pixel]
  rw [cells, hrows, List.flatMap_map]
  simp only [hpixels, SProd.sprod, List.product, List.map_flatMap, List.map_map]
  rfl

/-- The count of lit pixels is the size of the set of them. -/
theorem litCount_eq_card (screen : Screen) : screen.litCount = screen.lit.card := by
  have huniv : (Finset.univ : Finset (Fin 32 × Fin 64)).val =
      ↑(List.finRange 32 ×ˢ List.finRange 64) := rfl
  rw [litCount, cells_eq, List.count_eq_countP, List.countP_map, lit, Finset.card,
    Finset.filter_val, huniv, ← Multiset.countP_eq_card_filter, Multiset.coe_countP]
  apply List.countP_congr
  intro place _
  simp

/-! ## The bits of a sprite -/

section Bits

variable (screen : Screen) (sprite : List UInt8) (left top : Nat)

/-- The set bits of a sprite, by row and column in the sprite, that are on the screen when
its upper left corner is in column `left` of row `top`. -/
def shownBits : Finset (Fin sprite.length × Fin 8) :=
  Finset.univ.filter fun bit =>
    sprite[bit.1].toNat.testBit (7 - bit.2) = true ∧ top + bit.1 < 32 ∧ left + bit.2 < 64

/-- Those of them that fall on a lit pixel. -/
def litBits : Finset (Fin sprite.length × Fin 8) :=
  (shownBits sprite left top).filter fun bit => screen.pixel (left + bit.2) (top + bit.1) = true

variable {sprite left top}

theorem mem_shownBits {bit : Fin sprite.length × Fin 8} :
    bit ∈ shownBits sprite left top ↔
      sprite[bit.1].toNat.testBit (7 - bit.2) = true ∧ top + bit.1 < 32 ∧ left + bit.2 < 64 := by
  simp [shownBits]

variable (left top) in
/-- A set bit covers the pixel as far from the corner as it is from the sprite's corner. -/
theorem covers_of_testBit {bit : Fin sprite.length × Fin 8}
    (h : sprite[bit.1].toNat.testBit (7 - bit.2) = true) :
    Covers sprite left top (left + bit.2) (top + bit.1) := by
  refine ⟨Nat.le_add_right _ _, Nat.add_lt_add_left bit.2.isLt _, Nat.le_add_right _ _, ?_⟩
  simpa using h

/-- The bits shown are as many as the pixels covered, also among those with any one
property: every bit has a covered pixel of its own, and a covered pixel is that of the bit
as far from the sprite's corner. -/
theorem card_filter_shownBits (p : Nat → Nat → Prop) [∀ x y, Decidable (p x y)] :
    ((shownBits sprite left top).filter fun bit => p (left + bit.2) (top + bit.1)).card =
      ((covered sprite left top).filter fun place => p place.2 place.1).card := by
  refine Finset.card_bij
    (fun bit h => (⟨top + bit.1, (mem_shownBits.mp (Finset.mem_filter.mp h).1).2.1⟩,
      ⟨left + bit.2, (mem_shownBits.mp (Finset.mem_filter.mp h).1).2.2⟩)) ?_ ?_ ?_
  · intro bit h
    obtain ⟨hshown, hp⟩ := Finset.mem_filter.mp h
    have hcovers := covers_of_testBit left top (mem_shownBits.mp hshown).1
    exact Finset.mem_filter.mpr ⟨mem_covered.mpr hcovers, hp⟩
  · intro bit _ other _ hsame
    simp only [Prod.mk.injEq, Fin.mk.injEq, Nat.add_left_cancel_iff] at hsame
    exact Prod.ext (Fin.ext hsame.1) (Fin.ext hsame.2)
  · rintro ⟨row, column⟩ h
    obtain ⟨hcovered, hp⟩ := Finset.mem_filter.mp h
    obtain ⟨hleft, hright, htop, hrow, hbit⟩ := mem_covered.mp hcovered
    dsimp only at hleft hright htop hrow hbit hp
    have hplace : top + (row.val - top) = row ∧ left + (column.val - left) = column :=
      ⟨Nat.add_sub_cancel' htop, Nat.add_sub_cancel' hleft⟩
    refine ⟨(⟨row - top, hrow⟩, ⟨column - left, by omega⟩), ?_, ?_⟩
    · refine Finset.mem_filter.mpr ⟨mem_shownBits.mpr ⟨hbit, ?_, ?_⟩, ?_⟩
      · simpa only [hplace.1] using row.isLt
      · simpa only [hplace.2] using column.isLt
      · simpa only [hplace.1, hplace.2] using hp
    · exact Prod.ext (Fin.ext hplace.1) (Fin.ext hplace.2)

/-- As many bits are shown as pixels are covered. -/
theorem card_shownBits : (shownBits sprite left top).card = (covered sprite left top).card := by
  simpa using card_filter_shownBits fun _ _ => True

/-- As many bits fall on lit pixels as lit pixels are covered. -/
theorem card_litBits :
    (screen.litBits sprite left top).card = (screen.lit ∩ covered sprite left top).card := by
  rw [litBits, card_filter_shownBits fun x y => screen.pixel x y = true]
  congr 1
  ext place
  simp [and_comm]

end Bits

/-! ## The balance -/

/-- What is in exactly one of two sets, counted from the sets and what they share. -/
theorem card_symmDiff_add {α : Type} [DecidableEq α] (s t : Finset α) :
    (s ∆ t).card + 2 * (s ∩ t).card = s.card + t.card := by
  have hunion : (s ∆ t).card = (s \ t).card + (t \ s).card :=
    Finset.card_union_of_disjoint disjoint_sdiff_sdiff
  have hfirst := Finset.card_sdiff_add_card_inter s t
  have hsecond := Finset.card_sdiff_add_card_inter t s
  rw [Finset.inter_comm] at hsecond
  omega

section Balance

variable (screen : Screen) (x y : UInt8) (sprite : List UInt8)

/-- After drawing, the pixels are lit that were lit or covered but not both. -/
theorem lit_draw :
    (screen.draw x y sprite).1.lit =
      screen.lit ∆ covered sprite (x.toNat % 64) (y.toNat % 32) := by
  ext place
  rw [mem_lit, pixel_draw _ _ _ _ place.2.isLt place.1.isLt, Finset.mem_symmDiff, mem_lit,
    mem_covered]
  cases screen.pixel place.2 place.1 <;> simp

/-- The flag is raised exactly if some lit pixel is covered. -/
theorem hit_draw_iff_card :
    (screen.draw x y sprite).2 = true ↔
      0 < (screen.litBits sprite (x.toNat % 64) (y.toNat % 32)).card := by
  rw [hit_draw, card_litBits, Finset.card_pos]
  constructor
  · rintro ⟨column, row, hcovers, hlit⟩
    exact ⟨(row, column), Finset.mem_inter.mpr ⟨mem_lit.mpr hlit, mem_covered.mpr hcovers⟩⟩
  · rintro ⟨place, hplace⟩
    obtain ⟨hlit, hcovers⟩ := Finset.mem_inter.mp hplace
    exact ⟨place.2, place.1, mem_covered.mp hcovers, mem_lit.mp hlit⟩

/-- Every bit shown lights a pixel or puts one out. -/
theorem litCount_draw :
    (screen.draw x y sprite).1.litCount +
        2 * (screen.litBits sprite (x.toNat % 64) (y.toNat % 32)).card =
      screen.litCount + (shownBits sprite (x.toNat % 64) (y.toNat % 32)).card := by
  rw [litCount_eq_card, litCount_eq_card, lit_draw, card_litBits, card_shownBits]
  exact card_symmDiff_add _ _

/-- Drawing pixel by pixel lights as many pixels as bits are shown, less two for each of them
that falls on a lit pixel; and the flag tells that there is one, or that fewer pixels
have been gained than bits are shown. -/
theorem lit_count_law :
    ∃ drawn hit, screen.plot x y sprite = .ok (drawn, hit) ∧
      drawn.litCount + 2 * (screen.litBits sprite (x.toNat % 64) (y.toNat % 32)).card =
        screen.litCount + (shownBits sprite (x.toNat % 64) (y.toNat % 32)).card ∧
      (hit = true ↔ 0 < (screen.litBits sprite (x.toNat % 64) (y.toNat % 32)).card) ∧
      (hit = true ↔ drawn.litCount <
        screen.litCount + (shownBits sprite (x.toNat % 64) (y.toNat % 32)).card) := by
  have hbalance := litCount_draw screen x y sprite
  have hflag := hit_draw_iff_card screen x y sprite
  refine ⟨(screen.draw x y sprite).1, (screen.draw x y sprite).2, screen.plot_eq x y sprite,
    hbalance, hflag, hflag.trans ?_⟩
  omega

end Balance

end Chip8.Screen
