import Chip8.Proofs.SpritePlot

/-!
# A sprite drawn in two parts

A sprite wraps onto the screen where it starts and is cut off where it leaves it.  So the
upper rows of a sprite and its lower rows may be drawn one after the other as long as the
lower ones start on the screen.  From the lower edge on they are dropped, whereas a sprite
drawn at that row would start at the top again.

Main results:

- Theorem `Screen.drawRows_append`: rows drawn in one go are the upper rows and then the
  lower rows, drawn below them.
- Theorems `Screen.draw_append_of_lt` and `Screen.draw_append_of_le`: on which side of the
  lower edge the second part starts decides whether it is drawn or dropped.
- Theorem `Screen.two_part_law`: so it is for the pixel by pixel drawing of the machine.
-/

namespace Chip8.Screen

/-! ## Rows -/

/-- Rows drawn in one go are the upper rows and then the lower rows, drawn below them on the
screen that the upper rows leave, whether they reach below the screen or not. -/
theorem drawRows_append (screen : Screen) (left top : Nat) (upper lower : List UInt8) :
    screen.drawRows left top (upper ++ lower) =
      (((screen.drawRows left top upper).1.drawRows left (top + upper.length) lower).1,
        (screen.drawRows left top upper).2 ||
          ((screen.drawRows left top upper).1.drawRows left (top + upper.length) lower).2) := by
  induction upper generalizing screen top with
  | nil => simp [drawRows]
  | cons bits rest ih =>
      by_cases htop : top < 32
      · have hbelow : top + (bits :: rest).length = top + 1 + rest.length := by
          rw [List.length_cons]
          omega
        rw [List.cons_append, drawRows_cons_of_lt _ _ htop, drawRows_cons_of_lt _ _ htop, ih,
          hbelow, Bool.or_assoc]
      · have hle : 32 ≤ top := Nat.le_of_not_lt htop
        rw [drawRows_of_le _ _ hle, drawRows_of_le _ _ hle,
          drawRows_of_le _ _ (Nat.le_add_right_of_le hle)]
        rfl

/-! ## Whole sprites -/

section Whole

variable (screen : Screen) (x y : UInt8) (upper lower : List UInt8)

/-- If the second part of a sprite starts on the screen, it may be drawn on its own at the
row where it starts. -/
theorem draw_append_of_lt (h : y.toNat % 32 + upper.length < 32) :
    screen.draw x y (upper ++ lower) =
      (((screen.draw x y upper).1.draw x (.ofNat (y.toNat % 32 + upper.length)) lower).1,
        (screen.draw x y upper).2 ||
          ((screen.draw x y upper).1.draw x (.ofNat (y.toNat % 32 + upper.length)) lower).2) := by
  have hrow : (UInt8.ofNat (y.toNat % 32 + upper.length)).toNat % 32 =
      y.toNat % 32 + upper.length := by
    rw [UInt8.toNat_ofNat']
    omega
  simp only [draw, hrow, drawRows_append]

/-- If it would start below the screen, it is not drawn. -/
theorem draw_append_of_le (h : 32 ≤ y.toNat % 32 + upper.length) :
    screen.draw x y (upper ++ lower) = screen.draw x y upper := by
  rw [draw, draw, drawRows_append, drawRows_of_le _ _ h, Bool.or_false]

/-- A sprite drawn pixel by pixel is its upper rows and then its lower rows, drawn where the
upper ones end, with the flag raised if either raises it.  From the lower edge of the screen
on the lower rows are dropped. -/
theorem two_part_law :
    (y.toNat % 32 + upper.length < 32 →
      ∃ first second, screen.plot x y upper = .ok first ∧
        first.1.plot x (.ofNat (y.toNat % 32 + upper.length)) lower = .ok second ∧
        screen.plot x y (upper ++ lower) = .ok (second.1, first.2 || second.2)) ∧
    (32 ≤ y.toNat % 32 + upper.length →
      ∃ drawn, screen.plot x y upper = .ok drawn ∧
        screen.plot x y (upper ++ lower) = .ok drawn) := by
  constructor
  · intro h
    refine ⟨_, _, screen.plot_eq x y upper, plot_eq _ _ _ _, ?_⟩
    rw [plot_eq, draw_append_of_lt _ _ _ _ _ h]
  · intro h
    refine ⟨_, screen.plot_eq x y upper, ?_⟩
    rw [plot_eq, draw_append_of_le _ _ _ _ _ h]

end Whole

/-- A screen with one pixel lit in its last row but one. -/
def dotted : Screen := (blank.draw 1 30 [0x80]).1

/-- From row 29 on two rows fit above the lower edge, and of the two rows below them one is
drawn over the last row; after three rows nothing more is drawn. -/
theorem two_part_law_dotted :
    (∃ first second, dotted.plot 65 61 [0xFF, 0x80] = .ok first ∧ first.2 = true ∧
      first.1.plot 65 31 [0xC0, 0xC0] = .ok second ∧ second.2 = false ∧
      dotted.plot 65 61 [0xFF, 0x80, 0xC0, 0xC0] = .ok (second.1, true)) ∧
    dotted.plot 65 61 [0xFF, 0x80, 0xC0, 0xC0] = dotted.plot 65 61 [0xFF, 0x80, 0xC0] := by
  constructor
  · obtain ⟨first, second, hfirst, hsecond, hboth⟩ :=
      (two_part_law dotted 65 61 [0xFF, 0x80] [0xC0, 0xC0]).1 (by decide)
    have hflags : (dotted.draw 65 61 [0xFF, 0x80]).2 = true ∧
        ((dotted.draw 65 61 [0xFF, 0x80]).1.draw 65 31 [0xC0, 0xC0]).2 = false := by
      decide +kernel
    obtain rfl := Except.ok.inj ((dotted.plot_eq 65 61 [0xFF, 0x80]).symm.trans hfirst)
    obtain rfl := Except.ok.inj ((plot_eq _ 65 31 [0xC0, 0xC0]).symm.trans hsecond)
    rw [hflags.1, Bool.true_or] at hboth
    exact ⟨_, _, hfirst, hflags.1, hsecond, hflags.2, hboth⟩
  · obtain ⟨drawn, hthree, hfour⟩ :=
      (two_part_law dotted 65 61 [0xFF, 0x80, 0xC0] [0xC0]).2 (by decide)
    exact hfour.trans hthree.symm

end Chip8.Screen
