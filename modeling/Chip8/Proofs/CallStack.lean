import Mathlib.Data.List.Basic
import Chip8.CallStack

/-!
# The live part of the call stack

The slots in use form a list of return addresses, the oldest first.  Pushing
appends to that list, popping drops its last entry, and whatever lies in the slots
beyond has no influence on it.

Main results:

- Theorems `CallStack.push_eq` and `CallStack.pop_eq`: with at most sixteen slots
  in use neither operation crashes, and each is refused exactly at its limit.
- Theorems `CallStack.entries_pushed` and `CallStack.entries_popped`: pushing and
  popping on the list of live entries.
- Theorem `CallStack.top?_eq_getLast?`: the newest return address is the last live
  entry.
-/

namespace Chip8.CallStack

/-! ## Operations without checks -/

/-- The stack with one more slot in use. -/
def pushed (stack : CallStack) (addr : UInt16) : CallStack :=
  { slots := stack.slots.setIfInBounds stack.depth.toNat addr
    depth := stack.depth + 1 }

/-- The stack with the newest slot given up. -/
def popped (stack : CallStack) : CallStack := { stack with depth := stack.depth - 1 }

/-- The newest return address, zero if there is none. -/
def newest (stack : CallStack) : UInt16 := stack.top?.getD 0

theorem depth_eq_zero_iff (stack : CallStack) : stack.depth = 0 ↔ stack.depth.toNat = 0 := by
  rw [← UInt8.toNat_inj]
  rfl

theorem toNat_depth_pushed {stack : CallStack} (h : stack.depth.toNat < 16) (addr : UInt16) :
    (stack.pushed addr).depth.toNat = stack.depth.toNat + 1 := by
  rw [pushed, UInt8.toNat_add]
  exact Nat.mod_eq_of_lt (by simp; omega)

theorem toNat_depth_popped {stack : CallStack} (h : 0 < stack.depth.toNat) :
    stack.popped.depth.toNat = stack.depth.toNat - 1 := by
  have hle : (1 : UInt8) ≤ stack.depth := by
    rw [UInt8.le_iff_toNat_le]
    exact h
  rw [popped, UInt8.toNat_sub_of_le _ _ hle]
  rfl

theorem top?_eq_some_getElem {stack : CallStack} (h : stack.depth.toNat ≤ 16)
    (hpos : 0 < stack.depth.toNat) : stack.top? = some stack.slots[stack.depth.toNat - 1] := by
  have hzero : stack.depth ≠ 0 := by
    rw [ne_eq, depth_eq_zero_iff]
    omega
  have hlt : stack.depth.toNat - 1 < 16 := by omega
  simp [top?, hzero, hlt]

/-- Within bounds the newest return address is that in the last slot in use. -/
theorem newest_eq_getElem {stack : CallStack} (h : stack.depth.toNat ≤ 16)
    (hpos : 0 < stack.depth.toNat) : stack.newest = stack.slots[stack.depth.toNat - 1] := by
  rw [newest, top?_eq_some_getElem h hpos]
  rfl

/-- With a slot in use there is a newest return address. -/
theorem top?_eq_some_newest {stack : CallStack} (h : stack.depth.toNat ≤ 16)
    (hpos : 0 < stack.depth.toNat) : stack.top? = some stack.newest := by
  rw [top?_eq_some_getElem h hpos, newest_eq_getElem h hpos]

/-- With a slot left, pushing takes it; with none left, pushing is refused. -/
theorem push_eq (stack : CallStack) (addr : UInt16) :
    stack.push addr =
      .ok (if stack.depth.toNat < 16 then some (stack.pushed addr) else none) := by
  unfold push
  by_cases h : stack.depth.toNat < 16
  · have hadd : Checked.addByte stack.depth 1 = .ok (stack.depth + 1) := by
      apply Checked.addByte_of_lt
      have : UInt8.size = 256 := rfl
      have : (1 : UInt8).toNat = 1 := rfl
      omega
    have hset : stack.slots.set stack.depth.toNat addr =
        stack.slots.setIfInBounds stack.depth.toNat addr := by
      apply Vector.ext
      intro k hk
      rw [Vector.getElem_set, Vector.getElem_setIfInBounds]
    rw [dif_pos h, if_pos h, hadd, Checked.ok_bind, pushed, hset]
    rfl
  · rw [dif_neg h, if_neg h]
    rfl

/-- With a slot in use, popping gives it up; with none in use, popping is
refused. -/
theorem pop_eq {stack : CallStack} (h : stack.depth.toNat ≤ 16) :
    stack.pop = .ok (if stack.depth = 0 then none else some (stack.newest, stack.popped)) := by
  unfold pop
  by_cases hzero : stack.depth = 0
  · rw [if_pos hzero, if_pos hzero]
    rfl
  · have hpos : 0 < stack.depth.toNat := by
      rw [depth_eq_zero_iff] at hzero
      omega
    have hsub : Checked.subByte stack.depth 1 = .ok (stack.depth - 1) :=
      Checked.subByte_of_le hpos
    have hdepth : (stack.depth - 1).toNat = stack.depth.toNat - 1 := toNat_depth_popped hpos
    have hlt : (stack.depth - 1).toNat < 16 := by omega
    have hnewest : stack.slots[(stack.depth - 1).toNat] = stack.newest := by
      simp only [newest_eq_getElem h hpos, hdepth]
    rw [if_neg hzero, if_neg hzero, hsub, Checked.ok_bind,
      Checked.index_of_lt stack.slots hlt, Checked.ok_bind, hnewest]
    rfl

/-- With more than sixteen slots said to be in use, popping addresses one that is not there.
-/
theorem pop_of_lt {stack : CallStack} (h : 16 < stack.depth.toNat) :
    stack.pop = .error .indexOutOfRange := by
  have hzero : stack.depth ≠ 0 := by
    rw [ne_eq, depth_eq_zero_iff]
    omega
  have hsub : Checked.subByte stack.depth 1 = .ok (stack.depth - 1) :=
    Checked.subByte_of_le (Nat.zero_lt_of_lt h)
  have hdepth : (stack.depth - 1).toNat = stack.depth.toNat - 1 :=
    toNat_depth_popped (Nat.zero_lt_of_lt h)
  have hindex : Checked.index stack.slots (stack.depth - 1).toNat = .error .indexOutOfRange := by
    rw [Checked.index, dif_neg (by omega)]
  rw [pop, if_neg hzero, hsub, Checked.ok_bind, hindex, Checked.error_bind]

/-! ## Live entries as a list -/

theorem entries_eq_nil_iff {stack : CallStack} (h : stack.depth.toNat ≤ 16) :
    stack.entries = [] ↔ stack.depth = 0 := by
  rw [← List.length_eq_zero_iff, length_entries h, depth_eq_zero_iff]

/-- Pushing appends to the live entries. -/
theorem entries_pushed {stack : CallStack} (h : stack.depth.toNat < 16) (addr : UInt16) :
    (stack.pushed addr).entries = stack.entries ++ [addr] := by
  rw [entries, toNat_depth_pushed h]
  simp only [pushed, entries, Vector.toList_setIfInBounds]
  rw [List.take_succ_eq_append_getElem (by simpa using h), List.take_set_of_le (Nat.le_refl _)]
  simp

/-- Popping drops the last live entry. -/
theorem entries_popped {stack : CallStack} (h : stack.depth.toNat ≤ 16)
    (hpos : 0 < stack.depth.toNat) : stack.popped.entries = stack.entries.dropLast := by
  have hlength : (stack.slots.toList.take stack.depth.toNat).length = stack.depth.toNat := by
    simp [h]
  rw [entries, toNat_depth_popped hpos, entries, List.dropLast_eq_take, hlength,
    List.take_take, Nat.min_eq_left (Nat.sub_le _ _)]
  rfl

/-- The newest return address is the last live entry. -/
theorem top?_eq_getLast? {stack : CallStack} (h : stack.depth.toNat ≤ 16) :
    stack.top? = stack.entries.getLast? := by
  unfold top?
  by_cases hzero : stack.depth = 0
  · rw [if_pos hzero, (entries_eq_nil_iff h).mpr hzero]
    rfl
  · rw [if_neg hzero, List.getLast?_eq_getElem?, length_entries h]
    rw [depth_eq_zero_iff] at hzero
    have hlt : stack.depth.toNat - 1 < 16 := by omega
    simp [entries, hlt, show stack.depth.toNat - 1 < stack.depth.toNat by omega]

end Chip8.CallStack
