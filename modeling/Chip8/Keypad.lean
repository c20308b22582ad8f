/-!
# Keypad

The pad has the sixteen keys 0 to F.  Key numbers are bytes; numbers past the
pad are never held and pressing them has no effect.

Main results:

- Theorem `Keypad.isPressed_set`: setting a key of the pad is seen at that key
  and nowhere else.
- Theorem `Keypad.isPressed_eq_false`: keys past the pad are never held.
- Theorems `Keypad.firstPressed?_eq_some_iff` and `Keypad.firstPressed?_eq_none_iff`: which
  key is found, and when there is none.
-/

namespace Chip8

/-- Which keys are held down. -/
structure Keypad where
  /-- The state of each key, key 0 first. -/
  held : Vector Bool 16
  deriving DecidableEq

namespace Keypad

/-- How many keys there are. -/
def keyCount : Nat := 16

/-- The pad with no key held. -/
def released : Keypad := ⟨.replicate 16 false⟩

/-- The pad after one key goes down or up. -/
def set (pad : Keypad) (key : UInt8) (down : Bool) : Keypad :=
  if h : key.toNat < 16 then { held := pad.held.set key.toNat down } else pad

/-- The pad after a key goes down. -/
def press (pad : Keypad) (key : UInt8) : Keypad := pad.set key true

/-- The pad after a key goes up. -/
def release (pad : Keypad) (key : UInt8) : Keypad := pad.set key false

/-- Whether a key is held. -/
def isPressed (pad : Keypad) (key : UInt8) : Bool :=
  if h : key.toNat < 16 then pad.held[key.toNat] else false

/-- The keys of the pad in ascending order. -/
def allKeys : List UInt8 := (List.range 16).map UInt8.ofNat

/-- The lowest key held, if any. -/
def firstPressed? (pad : Keypad) : Option UInt8 := allKeys.find? pad.isPressed

/-- The state of each key, key 0 first. -/
def states (pad : Keypad) : List Bool := pad.held.toList

/-! ## What was pressed is held -/

/-- With no key held, every key reads as up. -/
@[simp]
theorem isPressed_released (key : UInt8) : released.isPressed key = false := by
  simp [isPressed, released]

/-- Keys past the pad are never held. -/
theorem isPressed_eq_false (pad : Keypad) {key : UInt8} (h : 16 ≤ key.toNat) :
    pad.isPressed key = false := by
  simp [isPressed, Nat.not_lt.mpr h]

/-- Setting a key past the pad changes nothing. -/
theorem set_of_le (pad : Keypad) {key : UInt8} (down : Bool) (h : 16 ≤ key.toNat) :
    pad.set key down = pad := by
  simp [set, Nat.not_lt.mpr h]

/-- Setting a key of the pad is seen at that key and nowhere else. -/
theorem isPressed_set (pad : Keypad) {key : UInt8} (other : UInt8) (down : Bool)
    (h : key.toNat < 16) :
    (pad.set key down).isPressed other =
      if key = other then down else pad.isPressed other := by
  by_cases hother : other.toNat < 16
  · simp [set, isPressed, h, hother, Vector.getElem_set, UInt8.toNat_inj]
  · have hne : key ≠ other := by rintro rfl; exact hother h
    simp [isPressed, hother, hne]

/-! ## The lowest key -/

/-- The keys of the pad are the numbers below sixteen. -/
theorem mem_allKeys (key : UInt8) : key ∈ allKeys ↔ key.toNat < 16 := by
  simp only [allKeys, List.mem_map, List.mem_range]
  constructor
  · rintro ⟨k, hk, rfl⟩
    rw [UInt8.toNat_ofNat']
    omega
  · intro hkey
    exact ⟨key.toNat, hkey, UInt8.ofNat_toNat⟩

/-- The lowest key held is held, and no key below it is. -/
theorem firstPressed?_eq_some_iff (pad : Keypad) (key : UInt8) :
    pad.firstPressed? = some key ↔
      pad.isPressed key = true ∧ ∀ other, pad.isPressed other = true → key ≤ other := by
  simp only [firstPressed?, allKeys, List.find?_map, Option.map_eq_some_iff,
    List.find?_range_eq_some, Function.comp_apply, Bool.not_eq_true', List.mem_range]
  constructor
  · rintro ⟨k, ⟨hheld, hk, hbelow⟩, rfl⟩
    refine ⟨hheld, fun other hother => ?_⟩
    have hlow : ¬other.toNat < k := by
      intro hlt
      have hup := hbelow other.toNat hlt
      rw [UInt8.ofNat_toNat, hother] at hup
      cases hup
    rw [UInt8.le_iff_toNat_le, UInt8.toNat_ofNat']
    omega
  · rintro ⟨hheld, hlowest⟩
    refine ⟨key.toNat, ⟨?_, ?_, ?_⟩, UInt8.ofNat_toNat⟩
    · rw [UInt8.ofNat_toNat]
      exact hheld
    · apply Decidable.byContradiction
      intro hpast
      rw [pad.isPressed_eq_false (Nat.le_of_not_lt hpast)] at hheld
      cases hheld
    · intro k hk
      cases hother : pad.isPressed (UInt8.ofNat k) with
      | false => rfl
      | true =>
        have hle := UInt8.le_iff_toNat_le.mp (hlowest _ hother)
        have hlt := key.toNat_lt
        rw [UInt8.toNat_ofNat'] at hle
        omega

/-- There is no lowest key held exactly if no key is held. -/
theorem firstPressed?_eq_none_iff (pad : Keypad) :
    pad.firstPressed? = none ↔ ∀ key, pad.isPressed key = false := by
  simp only [firstPressed?, List.find?_eq_none, mem_allKeys, Bool.not_eq_true]
  constructor
  · intro h key
    by_cases hkey : key.toNat < 16
    · exact h key hkey
    · exact pad.isPressed_eq_false (Nat.le_of_not_lt hkey)
  · intro h key _
    exact h key

/-! ## Histories -/

/-- What can happen to the pad. -/
inductive Event where
  /-- A key goes down. -/
  | press (key : UInt8)
  /-- A key goes up. -/
  | release (key : UInt8)
  /-- A key is put into a given state. -/
  | set (key : UInt8) (down : Bool)
  /-- Every key goes up. -/
  | releaseAll
  deriving DecidableEq

/-- The pad after one event. -/
def after (pad : Keypad) : Event → Keypad
  | .press key => pad.press key
  | .release key => pad.release key
  | .set key down => pad.set key down
  | .releaseAll => released

end Keypad

end Chip8
