import Mathlib.Data.List.Induction
import Mathlib.Order.Bounds.Defs
import Chip8.Keypad

/-!
# What was done last to a key

A key of the pad is held exactly if the last event that concerns it put it down.  Its own presses,
releases and settings concern a key, and so does the release of all keys; what is done to other
keys does not, and what is done to numbers past the pad can be left out of a history altogether.

Main results:

- Theorem `Keypad.isPressed_after`: what one event does to a key.
- Theorem `Keypad.isPressed_afterAll`: after any events a key is as the last event that concerns it
  left it, or as it was if there is none.
- Theorem `Keypad.afterAll_filter_onPad`: events past the pad can be left out.
- Theorem `Keypad.key_history_law`: both for a pad with no key held, with the lowest key held as
  the least of those that are.
-/

namespace Chip8.Keypad

/-! ## Events and keys -/

namespace Event

/-- Whether an event is about a key. -/
def concerns (key : UInt8) : Event → Bool
  | .press k | .release k | .set k _ => k == key
  | .releaseAll => true

/-- Whether an event leaves the keys that it is about held. -/
def presses : Event → Bool
  | .press _ => true
  | .set _ down => down
  | .release _ | .releaseAll => false

/-- Whether an event is about keys that the pad has. -/
def onPad : Event → Bool
  | .press k | .release k | .set k _ => decide (k ≤ 15)
  | .releaseAll => true

/-- The last of the events that are about a key. -/
def lastOn? (key : UInt8) (events : List Event) : Option Event :=
  (events.filter (concerns key)).getLast?

theorem lastOn?_concat (key : UInt8) (events : List Event) (event : Event) :
    lastOn? key (events ++ [event]) =
      if event.concerns key then some event else lastOn? key events := by
  rw [lastOn?, List.filter_append]
  cases hkey : event.concerns key with
  | true => simp [hkey]
  | false => simp [hkey, lastOn?]

/-- Of keys pressed one after another, the last event about a key is its own press. -/
theorem lastOn?_map_press (key : UInt8) (keys : List UInt8) :
    lastOn? key (keys.map press) = if key ∈ keys then some (press key) else none := by
  induction keys using List.reverseRecOn with
  | nil => rfl
  | append_singleton keys k ih =>
      rw [List.map_append, List.map_singleton, lastOn?_concat, ih]
      by_cases hk : k = key
      · subst hk
        simp [concerns]
      · simp [concerns, hk, Ne.symm hk]

end Event

/-! ## Single events -/

theorem lt_of_le_fifteen {key : UInt8} : key ≤ 15 ↔ key.toNat < 16 := by
  rw [UInt8.le_iff_toNat_le]
  exact Nat.lt_succ_iff.symm

/-- A key of the pad is as it was set if it is the one set, and as it was if not, whether
the one set is on the pad or past it. -/
theorem isPressed_set_of_lt (pad : Keypad) (key : UInt8) (down : Bool) {other : UInt8}
    (h : other.toNat < 16) :
    (pad.set key down).isPressed other = if key == other then down else pad.isPressed other := by
  by_cases hkey : key.toNat < 16
  · simp [isPressed_set pad other down hkey]
  · have hne : key ≠ other := by
      rintro rfl
      exact hkey h
    simp [set_of_le pad down (Nat.le_of_not_lt hkey), hne]

/-- After an event that concerns it a key of the pad is as that event left it, and after any
other as it was. -/
theorem isPressed_after (pad : Keypad) (event : Event) {key : UInt8} (h : key.toNat < 16) :
    (pad.after event).isPressed key =
      if event.concerns key then event.presses else pad.isPressed key := by
  cases event with
  | press k => exact pad.isPressed_set_of_lt k true h
  | release k => exact pad.isPressed_set_of_lt k false h
  | set k down => exact pad.isPressed_set_of_lt k down h
  | releaseAll => exact isPressed_released key

/-- A number is held after an event that does not concern it if it was held before. -/
theorem isPressed_after_of_not_concerns (pad : Keypad) {event : Event} {key : UInt8}
    (h : event.concerns key = false) :
    (pad.after event).isPressed key = pad.isPressed key := by
  by_cases hkey : key.toNat < 16
  · rw [isPressed_after pad event hkey, h]
    rfl
  · have hpast : 16 ≤ key.toNat := Nat.le_of_not_lt hkey
    rw [isPressed_eq_false _ hpast, isPressed_eq_false _ hpast]

/-- What is done past the pad leaves it alone. -/
theorem after_of_not_onPad (pad : Keypad) {event : Event} (h : event.onPad = false) :
    pad.after event = pad := by
  have hpast {key : UInt8} (hkey : decide (key ≤ 15) = false) : 16 ≤ key.toNat :=
    Nat.le_of_not_lt fun hlt => of_decide_eq_false hkey (lt_of_le_fifteen.mpr hlt)
  cases event with
  | press k => exact pad.set_of_le true (hpast h)
  | release k => exact pad.set_of_le false (hpast h)
  | set k down => exact pad.set_of_le down (hpast h)
  | releaseAll => cases h

/-! ## Histories -/

/-- The pad after events one after another. -/
def afterAll (pad : Keypad) (events : List Event) : Keypad := events.foldl after pad

theorem afterAll_concat (pad : Keypad) (events : List Event) (event : Event) :
    pad.afterAll (events ++ [event]) = (pad.afterAll events).after event :=
  List.foldl_append

/-- After any events a key of the pad is as the last event that concerns it left it, or as
it was if there is none. The induction is from the end, where that event is met first. -/
theorem isPressed_afterAll (pad : Keypad) (events : List Event) {key : UInt8}
    (h : key.toNat < 16) :
    (pad.afterAll events).isPressed key =
      match Event.lastOn? key events with
      | some event => event.presses
      | none => pad.isPressed key := by
  induction events using List.reverseRecOn with
  | nil => rfl
  | append_singleton events event ih =>
      rw [afterAll_concat, isPressed_after _ event h, Event.lastOn?_concat, ih]
      cases event.concerns key <;> rfl

/-- Events past the pad can be left out of a history. -/
theorem afterAll_filter_onPad (pad : Keypad) (events : List Event) :
    pad.afterAll (events.filter Event.onPad) = pad.afterAll events := by
  induction events generalizing pad with
  | nil => rfl
  | cons event rest ih =>
      cases hpad : event.onPad with
      | true =>
          rw [List.filter_cons_of_pos hpad]
          exact ih (pad.after event)
      | false =>
          rw [List.filter_cons_of_neg (Bool.eq_false_iff.mp hpad), ih]
          exact congrArg (afterAll · rest) (pad.after_of_not_onPad hpad).symm

/-- The lowest key found is the least of the keys held. -/
theorem firstPressed?_eq_some_iff_isLeast (pad : Keypad) (key : UInt8) :
    pad.firstPressed? = some key ↔ IsLeast { k | pad.isPressed k = true } key := by
  rw [firstPressed?_eq_some_iff]
  rfl

/-- Whatever was done to a pad with no key held, a number is held exactly if it is on the
pad and the last event that concerns it put it down; leaving out what was done past the pad
makes the same pad; and the lowest key found is the least number held, none if there is no
such number. -/
theorem key_history_law (events : List Event) :
    (∀ key, (released.afterAll events).isPressed key = true ↔
      key ≤ 15 ∧ ∃ event, Event.lastOn? key events = some event ∧ event.presses = true) ∧
    released.afterAll (events.filter Event.onPad) = released.afterAll events ∧
    (∀ key, (released.afterAll events).firstPressed? = some key ↔
      IsLeast { k | (released.afterAll events).isPressed k = true } key) ∧
    ((released.afterAll events).firstPressed? = none ↔
      ¬∃ key, (released.afterAll events).isPressed key = true) := by
  refine ⟨?_, afterAll_filter_onPad released events, firstPressed?_eq_some_iff_isLeast _, ?_⟩
  · intro key
    rw [lt_of_le_fifteen]
    by_cases hkey : key.toNat < 16
    · rw [isPressed_afterAll released events hkey, isPressed_released]
      cases Event.lastOn? key events <;> simp [hkey]
    · simp [isPressed_eq_false _ (Nat.le_of_not_lt hkey), hkey]
  · rw [firstPressed?_eq_none_iff]
    simp

/-- A key released by itself or with all others is up, and pressing a number past the pad
does not keep the lowest key from being found. -/
example :
    (released.afterAll [.press 3, .press 0x10, .releaseAll, .set 7 true, .press 5, .release 5]).firstPressed?
      = some 7 := by decide

end Chip8.Keypad
