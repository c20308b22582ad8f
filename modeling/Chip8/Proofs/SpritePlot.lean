import Mathlib.Tactic.ByContra
import Chip8.Screen.Cells

/-!
# Drawing cell by cell is drawing row by row

The machine draws a sprite pixel by pixel through checked cell numbers, and the
screen has a row-wise drawing operation that flips a whole sprite byte at once.
The two are the same operation: no cell number leaves the screen, no sum leaves
its word, every covered pixel is flipped once, and the flags agree.

Main results:

- Theorem `Screen.plotBits_last`: what the columns of a sprite byte not yet drawn
  do to the screen and to the flag.
- Theorem `Screen.plot_eq`: drawing cell by cell never crashes and comes to the
  same as drawing row by row.
-/

namespace Chip8.Screen

/-! ## Flipping pixels of one row -/

/-- From one drawing state to the next, exactly the pixels of row `y` in the
columns of `mask` are flipped, and the flag is raised if one of them was lit. -/
structure Flips (mask : Nat → Bool) (y : Nat) (drawn plotted : Screen × Bool) : Prop where
  pixel : ∀ column row, plotted.1.pixel column row =
    (drawn.1.pixel column row ^^ (decide (row = y) && mask column))
  flag : plotted.2 = true ↔
    drawn.2 = true ∨ ∃ column, mask column = true ∧ drawn.1.pixel column y = true

/-- Flipping nothing changes nothing. -/
theorem Flips.none {mask : Nat → Bool} (hmask : ∀ column, mask column = false) (y : Nat)
    (drawn : Screen × Bool) : Flips mask y drawn drawn where
  pixel column row := by simp [hmask]
  flag := by simp [hmask]

/-- Flipping disjoint sets of columns one after the other flips their union. -/
theorem Flips.trans {first second mask : Nat → Bool} {y : Nat}
    {drawn between plotted : Screen × Bool} (hfirst : Flips first y drawn between)
    (hsecond : Flips second y between plotted)
    (hdisjoint : ∀ column, first column = true → second column = false)
    (hmask : ∀ column, mask column = (first column || second column)) :
    Flips mask y drawn plotted where
  pixel column row := by
    rw [hsecond.pixel, hfirst.pixel, hmask]
    cases hcolumn : first column with
    | false => simp
    | true => simp [hdisjoint column hcolumn]
  flag := by
    rw [hsecond.flag, hfirst.flag, or_assoc]
    apply or_congr Iff.rfl
    constructor
    · rintro (⟨column, hcolumn, hlit⟩ | ⟨column, hcolumn, hlit⟩)
      · exact ⟨column, by simp [hmask, hcolumn], hlit⟩
      · refine ⟨column, by simp [hmask, hcolumn], ?_⟩
        have hnot : first column = false := by
          by_contra hfirst
          simp_all
        simpa [hfirst.pixel, hnot] using hlit
    · rintro ⟨column, hcolumn, hlit⟩
      rw [hmask, Bool.or_eq_true] at hcolumn
      by_cases hin : first column = true
      · exact Or.inl ⟨column, hin, hlit⟩
      · have hnot : first column = false := by simpa using hin
        refine Or.inr ⟨column, by simpa [hnot] using hcolumn, ?_⟩
        simpa [hfirst.pixel, hnot] using hlit

/-- Two bit rows have a lit pixel in common exactly if some column is lit in
both. -/
theorem and_ne_zero_iff (row mask : BitVec 64) :
    (row &&& mask != 0) = true ↔
      ∃ column, mask.getMsbD column = true ∧ row.getMsbD column = true := by
  constructor
  · intro h
    by_contra hnone
    have hzero : row &&& mask = 0 := by
      apply BitVec.eq_of_getMsbD_eq
      intro column _
      have hcolumn := not_exists.mp hnone column
      cases hrow : row.getMsbD column <;> cases hmask : mask.getMsbD column <;>
        simp_all
    simp [hzero] at h
  · rintro ⟨column, hmask, hrow⟩
    simp only [bne_iff_ne, ne_eq]
    intro hzero
    have hbit : (row &&& mask).getMsbD column = true := by simp [hmask, hrow]
    simp [hzero] at hbit

/-- Flipping a bit row at once flips the pixels of its lit columns. -/
theorem flips_flipRow (drawn : Screen × Bool) {y : Nat} (mask : BitVec 64) (hy : y < 32) :
    Flips mask.getMsbD y drawn
      (drawn.1.flipRow y mask hy, drawn.2 || drawn.1.rows[y] &&& mask != 0) where
  pixel column row := pixel_flipRow drawn.1 mask hy column row
  flag := by
    rw [Bool.or_eq_true, and_ne_zero_iff]
    simp [pixel, hy]

/-- Flipping is determined by what is flipped. -/
theorem Flips.unique {mask : Nat → Bool} {y : Nat} {drawn plotted other : Screen × Bool}
    (hplotted : Flips mask y drawn plotted) (hother : Flips mask y drawn other) :
    plotted = other := by
  apply Prod.ext
  · apply ext_pixel
    intro x row _ _
    rw [hplotted.pixel, hother.pixel]
  · rw [Bool.eq_iff_iff, hplotted.flag, hother.flag]

/-! ## Coordinates -/

/-- Coordinates a little past the screen are far from the limit of a count. -/
theorem addCount_ofNat (start : UInt64) {k : Nat} (h : start.toNat + k < 128) :
    Checked.addCount start (UInt64.ofNat k) = .ok (start + UInt64.ofNat k) ∧
      (start + UInt64.ofNat k).toNat = start.toNat + k := by
  have hk : (UInt64.ofNat k).toNat = k := by
    rw [UInt64.toNat_ofNat']
    exact Nat.mod_eq_of_lt (by omega)
  have hsize : UInt64.size = 18446744073709551616 := rfl
  constructor
  · apply Checked.addCount_of_lt
    omega
  · rw [UInt64.toNat_add, hk]
    exact Nat.mod_eq_of_lt (by omega)

/-! ## One sprite byte -/

/-- The columns of a sprite byte from its column `dx` on. -/
def columnsFrom (bits : UInt8) (left dx : Nat) (column : Nat) : Bool :=
  decide (left + dx ≤ column) && (spriteRow bits left).getMsbD column

/-- Beyond the last column of the byte or of the screen nothing is covered. -/
theorem columnsFrom_of_le (bits : UInt8) {left dx : Nat} (h : 64 ≤ left + dx ∨ 8 ≤ dx)
    (column : Nat) : columnsFrom bits left dx column = false := by
  by_cases hcolumn : left + dx ≤ column
  · rw [columnsFrom, getMsbD_spriteRow]
    rcases h with h | h
    · have : ¬column < 64 := by omega
      simp [this]
    · have : ¬column - left < 8 := by omega
      simp [BitVec.getMsbD, this]
  · simp [columnsFrom, hcolumn]

/-- The first column is covered if its bit is set, and the others are those of the
rest of the byte. -/
theorem columnsFrom_eq_or (bits : UInt8) {left dx : Nat} (h : left + dx < 64)
    (column : Nat) :
    columnsFrom bits left dx column =
      ((decide (column = left + dx) && bits.toBitVec.getMsbD dx) ||
        columnsFrom bits left (dx + 1) column) := by
  by_cases hcolumn : column = left + dx
  · subst hcolumn
    simp [columnsFrom, getMsbD_spriteRow, h]
  · have : left + dx ≤ column ↔ left + (dx + 1) ≤ column := by omega
    simp [columnsFrom, hcolumn, this]

/-- Flipping a single pixel flips one column. -/
theorem flips_flipPixel (drawn : Screen × Bool) {x y : UInt64} (hx : x.toNat < 64)
    (hy : y.toNat < 32) :
    ∃ flipped, drawn.1.flipPixel x y = .ok flipped ∧
      Flips (fun column => decide (column = x.toNat)) y.toNat drawn
        (flipped.1, drawn.2 || flipped.2) := by
  obtain ⟨flipped, hflip, hcells⟩ := flipPixel_of_lt drawn.1 hx hy
  refine ⟨_, hflip, ?_, ?_⟩
  · intro column row
    rw [pixel_of_cells_eq_set hx hy hcells]
    by_cases hcolumn : column = x.toNat
    · by_cases hrow : row = y.toNat <;> simp [hcolumn, hrow]
    · simp [hcolumn]
  · simp

/-- Drawing the last `n` columns of a sprite byte pixel by pixel flips exactly
the pixels that these columns cover, and stops at the right edge. -/
theorem plotBits_last (bits : UInt8) {left y : UInt64} (hleft : left.toNat < 64)
    (hy : y.toNat < 32) (n dx : Nat) (hcolumns : dx + n = 8) (drawn : Screen × Bool) :
    ∃ plotted, plotBits bits left y n dx drawn = .ok plotted ∧
      Flips (columnsFrom bits left.toNat dx) y.toNat drawn plotted := by
  induction n generalizing dx drawn with
  | zero =>
      exact ⟨drawn, rfl, Flips.none (columnsFrom_of_le bits (Or.inr (by omega))) _ _⟩
  | succ n ih =>
      obtain ⟨hadd, hx⟩ := addCount_ofNat left (k := dx) (by omega)
      rw [plotBits, hadd, Checked.ok_bind]
      simp only [UInt64.le_iff_toNat_le, hx]
      by_cases hright : 64 ≤ left.toNat + dx
      · exact ⟨drawn, if_pos hright, Flips.none (columnsFrom_of_le bits (Or.inl hright)) _ _⟩
      · have hlt : left.toNat + dx < 64 := by omega
        have hsplit := columnsFrom_eq_or bits hlt
        rw [if_neg (show ¬(64 : UInt64).toNat ≤ left.toNat + dx from hright)]
        cases hbit : bits.toBitVec.getMsbD dx with
        | false =>
            obtain ⟨plotted, hplot, hflips⟩ := ih (dx + 1) (by omega) drawn
            refine ⟨plotted, hplot, ?_⟩
            have hmask : columnsFrom bits left.toNat dx =
                columnsFrom bits left.toNat (dx + 1) := by
              funext column
              simp [hsplit, hbit]
            rwa [hmask]
        | true =>
            obtain ⟨flipped, hflip, hfirst⟩ := flips_flipPixel drawn (hx ▸ hlt) hy
            obtain ⟨plotted, hplot, hrest⟩ := ih (dx + 1) (by omega) _
            rw [if_pos rfl, hflip, Checked.ok_bind]
            refine ⟨plotted, hplot, hfirst.trans hrest ?_ ?_⟩
            · intro column hcolumn
              have : ¬left.toNat + (dx + 1) ≤ column := by
                simp only [hx, decide_eq_true_eq] at hcolumn
                omega
              simp [columnsFrom, this]
            · intro column
              simp [hsplit, hbit, hx]

/-- A sprite byte drawn pixel by pixel is the byte drawn at once. -/
theorem plotBits_eq (bits : UInt8) {left y : UInt64} (hleft : left.toNat < 64)
    (hy : y.toNat < 32) (drawn : Screen × Bool) :
    plotBits bits left y 8 0 drawn =
      .ok (drawn.1.flipRow y.toNat (spriteRow bits left.toNat) hy,
        drawn.2 || drawn.1.rows[y.toNat] &&& spriteRow bits left.toNat != 0) := by
  obtain ⟨plotted, hplot, hflips⟩ := plotBits_last bits hleft hy 8 0 rfl drawn
  have hmask : columnsFrom bits left.toNat 0 = (spriteRow bits left.toNat).getMsbD := by
    funext column
    by_cases hcolumn : left.toNat ≤ column
    · simp [columnsFrom, hcolumn]
    · simp [columnsFrom, getMsbD_spriteRow, hcolumn]
  rw [hmask] at hflips
  rw [hplot, hflips.unique (flips_flipRow drawn (spriteRow bits left.toNat) hy)]

/-! ## Whole sprites -/

/-- Rows drawn cell by cell are rows drawn at once, and the flag collects what was
hit before. -/
theorem plotRows_eq {left top : UInt64} (hleft : left.toNat < 64) (sprite : List UInt8)
    (dy : Nat) (hdy : top.toNat + dy ≤ 32) (drawn : Screen × Bool) :
    plotRows left top dy sprite drawn =
      .ok ((drawn.1.drawRows left.toNat (top.toNat + dy) sprite).1,
        drawn.2 || (drawn.1.drawRows left.toNat (top.toNat + dy) sprite).2) := by
  induction sprite generalizing dy drawn with
  | nil => simp [plotRows, drawRows, pure, Except.pure]
  | cons bits rest ih =>
      obtain ⟨hadd, hy⟩ := addCount_ofNat top (k := dy) (by omega)
      rw [plotRows, hadd, Checked.ok_bind]
      simp only [UInt64.le_iff_toNat_le, hy]
      by_cases hbottom : 32 ≤ top.toNat + dy
      · rw [if_pos (show (32 : UInt64).toNat ≤ top.toNat + dy from hbottom),
          drawRows_of_le _ _ hbottom]
        simp [pure, Except.pure]
      · have hlt : top.toNat + dy < 32 := by omega
        rw [if_neg (show ¬(32 : UInt64).toNat ≤ top.toNat + dy from hbottom),
          plotBits_eq bits hleft (hy ▸ hlt), Checked.ok_bind, ih (dy + 1) (by omega),
          drawRows_cons_of_lt _ _ hlt]
        simp only [hy, Bool.or_assoc, Nat.add_assoc]

/-- Drawing cell by cell never crashes and comes to the same as drawing row by
row. -/
theorem plot_eq (screen : Screen) (x y : UInt8) (sprite : List UInt8) :
    screen.plot x y sprite = .ok (screen.draw x y sprite) := by
  have hleft : (x.toUInt64 % 64).toNat = x.toNat % 64 := by simp
  have htop : (y.toUInt64 % 32).toNat = y.toNat % 32 := by simp
  rw [plot, plotRows_eq (by omega) sprite 0 (by omega), hleft, htop]
  simp [draw]

end Chip8.Screen
