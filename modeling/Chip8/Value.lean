import Chip8.Text.Hex

/-!
# Values shown to an observer

An observer of the machine sees values of five kinds.  Each kind has its own
text: a byte and a word are marked hexadecimal numbers of two and four digits, a
count is a plain decimal number, and an array lists its items in brackets.

Main results:

- Theorem `Value.eq_of_same`: the Boolean comparison decides equality.
-/

namespace Chip8

/-- What an observer reads. -/
inductive Value where
  /-- A truth value. -/
  | flag (b : Bool)
  /-- An 8-bit number. -/
  | byte (n : UInt8)
  /-- A 16-bit number. -/
  | word (n : UInt16)
  /-- A 64-bit number. -/
  | count (n : UInt64)
  /-- Values in order. -/
  | array (items : List Value)

namespace Value

/-- The array of the given bytes. -/
def ofBytes (bytes : List UInt8) : Value :=
  .array (bytes.map .byte)

/-- The array of the given words. -/
def ofWords (words : List UInt16) : Value :=
  .array (words.map .word)

/-- The array of the given truth values. -/
def ofFlags (flags : List Bool) : Value :=
  .array (flags.map .flag)

/-! ## Text -/

mutual

/-- The text of a value. -/
def text : Value → String
  | .flag b => if b then "true" else "false"
  | .byte n => Hex.padded 2 n.toNat
  | .word n => Hex.padded 4 n.toNat
  | .count n => toString n.toNat
  | .array items => "[" ++ itemsText items ++ "]"

/-- The texts of the items of an array, set apart by a comma and a blank. -/
def itemsText : List Value → String
  | [] => ""
  | [v] => text v
  | v :: w :: rest => text v ++ ", " ++ itemsText (w :: rest)

end

/-! ## Equality -/

mutual

/-- Whether two values are of one kind and equal. -/
def same : Value → Value → Bool
  | .flag a, .flag b => a == b
  | .byte a, .byte b => a == b
  | .word a, .word b => a == b
  | .count a, .count b => a == b
  | .array as, .array bs => sameItems as bs
  | _, _ => false

/-- Whether two lists of values are equal item by item. -/
def sameItems : List Value → List Value → Bool
  | [], [] => true
  | a :: as, b :: bs => same a b && sameItems as bs
  | _, _ => false

end

mutual

/-- Values that compare as equal are equal. -/
theorem eq_of_same {v w : Value} (h : same v w = true) : v = w := by
  cases v <;> cases w <;> simp_all [same]
  next as bs => exact eq_of_sameItems h

/-- Lists that compare as equal item by item are equal. -/
theorem eq_of_sameItems {vs ws : List Value} (h : sameItems vs ws = true) : vs = ws := by
  match vs, ws with
  | [], [] => rfl
  | v :: vs, w :: ws =>
    simp only [sameItems, Bool.and_eq_true] at h
    rw [eq_of_same h.1, eq_of_sameItems h.2]
  | [], _ :: _ => simp [sameItems] at h
  | _ :: _, [] => simp [sameItems] at h

end

mutual

/-- A value compares as equal with itself. -/
theorem same_self (v : Value) : same v v = true := by
  cases v with
  | array items => exact sameItems_self items
  | _ => simp [same]

/-- A list of values compares as equal with itself. -/
theorem sameItems_self (vs : List Value) : sameItems vs vs = true := by
  match vs with
  | [] => rfl
  | v :: vs => simp [sameItems, same_self v, sameItems_self vs]

end

instance : DecidableEq Value := fun v w =>
  if h : same v w = true then .isTrue (eq_of_same h)
  else .isFalse (fun heq => h (heq ▸ same_self v))

end Value

end Chip8
