/-!
# Checked words and tables

Machine words wrap around unless a rule says otherwise.  This module holds the
operations that must not: a sum that leaves its word, or an index that leaves
its table, is a defect of the caller and ends the run with a `Crash` instead of
an answer.

Main results:

- Theorem `Checked.bind_eq_ok`: a sequence of two checked operations succeeds
  exactly if both do.
- Theorems `Checked.index_of_lt` and `Checked.update_of_lt`: inside the table
  the checked accesses are the plain ones.
- Theorems `Checked.addByte_of_lt`, `Checked.subByte_of_le`,
  `Checked.addWord_of_lt`, `Checked.mulWord_of_lt`, `Checked.addCount_of_lt`
  and `Checked.mulCount_of_lt`: inside the word the checked operations are the
  plain ones.
-/

namespace Chip8

/-- What ends a run without an answer. -/
inductive Crash where
  /-- A table was addressed outside its bounds. -/
  | indexOutOfRange
  /-- A sum left its word. -/
  | addOverflow
  /-- A difference went below zero. -/
  | subOverflow
  /-- A product left its word. -/
  | mulOverflow
  deriving DecidableEq

/-- The report of a crash. -/
def Crash.message : Crash → String
  | .indexOutOfRange => "index out of bounds"
  | .addOverflow => "attempt to add with overflow"
  | .subOverflow => "attempt to subtract with overflow"
  | .mulOverflow => "attempt to multiply with overflow"

/-- The outcome of an operation that may crash. -/
abbrev Checked (α : Type) : Type := Except Crash α

namespace Checked

/-! ## Sequences -/

/-- A successful operation hands its result on. -/
theorem ok_bind {α β : Type} (a : α) (f : α → Checked β) :
    ((.ok a : Checked α) >>= f) = f a := rfl

/-- A crash ends a sequence. -/
theorem error_bind {α β : Type} (c : Crash) (f : α → Checked β) :
    ((.error c : Checked α) >>= f) = .error c := rfl

/-- A sequence of two checked operations succeeds exactly if both do. -/
theorem bind_eq_ok {α β : Type} {x : Checked α} {f : α → Checked β} {b : β} :
    (x >>= f) = .ok b ↔ ∃ a, x = .ok a ∧ f a = .ok b := by
  cases x with
  | error c => simp [error_bind]
  | ok a => simp [ok_bind]

/-! ## Tables -/

variable {α : Type} {n : Nat}

/-- Entry `i` of a table. -/
def index (table : Vector α n) (i : Nat) : Checked α :=
  if h : i < n then .ok table[i] else .error .indexOutOfRange

/-- The table with entry `i` replaced. -/
def update (table : Vector α n) (i : Nat) (entry : α) : Checked (Vector α n) :=
  if h : i < n then .ok (table.set i entry) else .error .indexOutOfRange

/-- Inside the table the checked entry is the entry. -/
theorem index_of_lt (table : Vector α n) {i : Nat} (h : i < n) :
    index table i = .ok table[i] := by
  simp [index, h]

/-- Inside the table the checked replacement is the replacement. -/
theorem update_of_lt (table : Vector α n) {i : Nat} (entry : α) (h : i < n) :
    update table i entry = .ok (table.set i entry) := by
  simp [update, h]

/-! ## Words -/

/-- The sum of two bytes, if it is a byte. -/
def addByte (a b : UInt8) : Checked UInt8 :=
  if a.toNat + b.toNat < UInt8.size then .ok (a + b) else .error .addOverflow

/-- The difference of two bytes, if it is not negative. -/
def subByte (a b : UInt8) : Checked UInt8 :=
  if b.toNat ≤ a.toNat then .ok (a - b) else .error .subOverflow

/-- The sum of two 16-bit words, if it is a 16-bit word. -/
def addWord (a b : UInt16) : Checked UInt16 :=
  if a.toNat + b.toNat < UInt16.size then .ok (a + b) else .error .addOverflow

/-- The product of two 16-bit words, if it is a 16-bit word. -/
def mulWord (a b : UInt16) : Checked UInt16 :=
  if a.toNat * b.toNat < UInt16.size then .ok (a * b) else .error .mulOverflow

/-- The sum of two 64-bit counts, if it is a 64-bit count. -/
def addCount (a b : UInt64) : Checked UInt64 :=
  if a.toNat + b.toNat < UInt64.size then .ok (a + b) else .error .addOverflow

/-- The product of two 64-bit counts, if it is a 64-bit count. -/
def mulCount (a b : UInt64) : Checked UInt64 :=
  if a.toNat * b.toNat < UInt64.size then .ok (a * b) else .error .mulOverflow

/-- A sum of bytes below 256 is their wrapped sum. -/
theorem addByte_of_lt {a b : UInt8} (h : a.toNat + b.toNat < UInt8.size) :
    addByte a b = .ok (a + b) := by
  simp [addByte, h]

/-- A difference of bytes that stays above zero is their wrapped difference. -/
theorem subByte_of_le {a b : UInt8} (h : b.toNat ≤ a.toNat) :
    subByte a b = .ok (a - b) := by
  simp [subByte, h]

/-- A sum of 16-bit words below 65536 is their wrapped sum. -/
theorem addWord_of_lt {a b : UInt16} (h : a.toNat + b.toNat < UInt16.size) :
    addWord a b = .ok (a + b) := by
  simp [addWord, h]

/-- A product of 16-bit words below 65536 is their wrapped product. -/
theorem mulWord_of_lt {a b : UInt16} (h : a.toNat * b.toNat < UInt16.size) :
    mulWord a b = .ok (a * b) := by
  simp [mulWord, h]

/-- A sum of 64-bit counts below 2^64 is their wrapped sum. -/
theorem addCount_of_lt {a b : UInt64} (h : a.toNat + b.toNat < UInt64.size) :
    addCount a b = .ok (a + b) := by
  simp [addCount, h]

/-- A product of 64-bit counts below 2^64 is their wrapped product. -/
theorem mulCount_of_lt {a b : UInt64} (h : a.toNat * b.toNat < UInt64.size) :
    mulCount a b = .ok (a * b) := by
  simp [mulCount, h]

end Checked

end Chip8
