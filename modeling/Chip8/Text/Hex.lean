/-!
# Hexadecimal text

Numbers in base 16 with upper-case digits.  A padded number carries the mark
`0x` and at least a given count of digits; a number that needs more digits keeps
them all.

Main results:

- Theorem `Hex.value_digitList`: the digits of a number read back as the number.
- Theorem `Hex.digitValue?_eq_some_iff`: which characters are digits.
- Theorems `Hex.le_length_fixedList` and `Hex.length_fixedList_of_lt`: how many digits there
  are.
- Theorem `Hex.padded_inj`: numbers with equal texts are equal.
-/

namespace Chip8.Hex

/-! ## Writing -/

/-- The digit of a value below sixteen. -/
def digit (n : Nat) : Char :=
  (Nat.digitChar n).toUpper

/-- The digits of a number, most significant first; zero has one digit. -/
def digitList (n : Nat) : List Char :=
  (Nat.toDigits 16 n).map Char.toUpper

/-- The digits of a number as text. -/
def digits (n : Nat) : String :=
  String.ofList (digitList n)

/-- The digits of a number, filled up with zeros on the left to `width` digits. -/
def fixedList (width n : Nat) : List Char :=
  List.replicate (width - (digitList n).length) '0' ++ digitList n

/-- The digits of a number as text, filled up with zeros to `width` digits. -/
def fixed (width n : Nat) : String :=
  String.ofList (fixedList width n)

/-- A number marked `0x` and filled up with zeros to `width` digits. -/
def padded (width n : Nat) : String :=
  "0x" ++ fixed width n

/-! ## Reading back -/

/-- The value of one digit of either case, if it is a digit. -/
def digitValue? (c : Char) : Option Nat :=
  if '0' ≤ c ∧ c ≤ '9' then some (c.toNat - '0'.toNat)
  else if 'a' ≤ c ∧ c ≤ 'f' then some (c.toNat - 'a'.toNat + 10)
  else if 'A' ≤ c ∧ c ≤ 'F' then some (c.toNat - 'A'.toNat + 10)
  else none

/-- The number that a row of digits stands for. -/
def value (digits : List Char) : Nat :=
  digits.foldl (fun n c => 16 * n + (digitValue? c).getD 0) 0

/-- A digit has the value it was written for. -/
theorem digitValue?_digit {n : Nat} (h : n < 16) : digitValue? (digit n) = some n := by
  have : ∀ k : Fin 16, digitValue? (digit k.val) = some k.val := by decide
  exact this ⟨n, h⟩

/-- So has a lower-case digit. -/
theorem digitValue?_digitChar {n : Nat} (h : n < 16) : digitValue? (Nat.digitChar n) = some n := by
  have : ∀ k : Fin 16, digitValue? (Nat.digitChar k.val) = some k.val := by decide
  exact this ⟨n, h⟩

/-- A character in a range is known by its distance from the first one. -/
theorem eq_ofNat_of_le {first last c : Char} (h : first ≤ c ∧ c ≤ last) :
    c.toNat - first.toNat < last.toNat - first.toNat + 1 ∧
      c = Char.ofNat (first.toNat + (c.toNat - first.toNat)) := by
  have hfirst : first.toNat ≤ c.toNat := h.1
  have hlast : c.toNat ≤ last.toNat := h.2
  refine ⟨by omega, ?_⟩
  rw [Nat.add_sub_cancel' hfirst, Char.ofNat_toNat]

theorem eq_digitChar_of_decimal {c : Char} (h : '0' ≤ c ∧ c ≤ '9') :
    c.toNat - '0'.toNat < 10 ∧ c = Nat.digitChar (c.toNat - '0'.toNat) := by
  have hdigit : ∀ k : Fin 10, Char.ofNat ('0'.toNat + k.val) = Nat.digitChar k.val := by decide
  obtain ⟨hlt, hc⟩ := eq_ofNat_of_le h
  exact ⟨hlt, hc.trans (hdigit ⟨_, hlt⟩)⟩

theorem eq_digitChar_of_lower {c : Char} (h : 'a' ≤ c ∧ c ≤ 'f') :
    c.toNat - 'a'.toNat < 6 ∧ c = Nat.digitChar (c.toNat - 'a'.toNat + 10) := by
  have hdigit : ∀ k : Fin 6, Char.ofNat ('a'.toNat + k.val) = Nat.digitChar (k.val + 10) := by
    decide
  obtain ⟨hlt, hc⟩ := eq_ofNat_of_le h
  exact ⟨hlt, hc.trans (hdigit ⟨_, hlt⟩)⟩

theorem eq_digit_of_upper {c : Char} (h : 'A' ≤ c ∧ c ≤ 'F') :
    c.toNat - 'A'.toNat < 6 ∧ c = digit (c.toNat - 'A'.toNat + 10) := by
  have hdigit : ∀ k : Fin 6, Char.ofNat ('A'.toNat + k.val) = digit (k.val + 10) := by decide
  obtain ⟨hlt, hc⟩ := eq_ofNat_of_le h
  exact ⟨hlt, hc.trans (hdigit ⟨_, hlt⟩)⟩

/-- The characters that have a value are the digits of either case. -/
theorem digitValue?_eq_some_iff {c : Char} {n : Nat} :
    digitValue? c = some n ↔ n < 16 ∧ (c = Nat.digitChar n ∨ c = digit n) := by
  constructor
  · intro h
    rw [digitValue?] at h
    split at h
    next hc =>
      obtain rfl := Option.some.inj h
      obtain ⟨hlt, hdigit⟩ := eq_digitChar_of_decimal hc
      exact ⟨by omega, .inl hdigit⟩
    split at h
    next hc =>
      obtain rfl := Option.some.inj h
      obtain ⟨hlt, hdigit⟩ := eq_digitChar_of_lower hc
      exact ⟨by omega, .inl hdigit⟩
    split at h
    next hc =>
      obtain rfl := Option.some.inj h
      obtain ⟨hlt, hdigit⟩ := eq_digit_of_upper hc
      exact ⟨by omega, .inr hdigit⟩
    next => cases h
  · rintro ⟨hn, rfl | rfl⟩
    · exact digitValue?_digitChar hn
    · exact digitValue?_digit hn

/-- A number below sixteen has one digit. -/
theorem digitList_of_lt {n : Nat} (h : n < 16) : digitList n = [digit n] := by
  simp [digitList, digit, Nat.toDigits_of_lt_base h]

/-- The last digit of a longer number is its remainder by sixteen. -/
theorem digitList_of_le {n : Nat} (h : 16 ≤ n) :
    digitList n = digitList (n / 16) ++ [digit (n % 16)] := by
  simp [digitList, digit, Nat.toDigits_of_base_le (by decide : 1 < 16) h]

/-- One more digit multiplies by sixteen and adds the digit. -/
theorem value_concat (ds : List Char) (c : Char) :
    value (ds ++ [c]) = 16 * value ds + (digitValue? c).getD 0 := by
  simp [value]

/-- The digits of a number read back as the number. -/
theorem value_digitList (n : Nat) : value (digitList n) = n := by
  induction n using Nat.strongRecOn with
  | ind n ih =>
    by_cases h : n < 16
    · simp [digitList_of_lt h, value, digitValue?_digit h]
    · have hlt : n / 16 < n := by omega
      rw [digitList_of_le (by omega), value_concat, ih _ hlt,
        digitValue?_digit (by omega), Option.getD_some]
      omega

/-- Zeros on the left do not change the number. -/
theorem value_replicate_append (k : Nat) (ds : List Char) :
    value (List.replicate k '0' ++ ds) = value ds := by
  have h : (List.replicate k '0').foldl
      (fun n c => 16 * n + (digitValue? c).getD 0) 0 = 0 := by
    induction k with
    | zero => rfl
    | succ k ih => simpa [List.replicate_succ, digitValue?] using ih
  simp [value, List.foldl_append, h]

/-- Filling up with zeros keeps the number. -/
theorem value_fixedList (width n : Nat) : value (fixedList width n) = n := by
  rw [fixedList, value_replicate_append, value_digitList]

/-! ## The shape of what is written -/

/-- Every digit is a letter or a decimal digit. -/
theorem isAlphanum_of_mem_digitList {n : Nat} {c : Char} (h : c ∈ digitList n) :
    c.isAlphanum = true := by
  have hdigit : ∀ k : Fin 16, (digit k.val).isAlphanum = true := by decide
  induction n using Nat.strongRecOn with
  | ind n ih =>
    by_cases hn : n < 16
    · rw [digitList_of_lt hn, List.mem_singleton] at h
      exact h ▸ hdigit ⟨n, hn⟩
    · rw [digitList_of_le (by omega), List.mem_append, List.mem_singleton] at h
      rcases h with h | h
      · exact ih (n / 16) (by omega) h
      · exact h ▸ hdigit ⟨n % 16, by omega⟩

theorem isAlphanum_of_mem_fixedList {width n : Nat} {c : Char} (h : c ∈ fixedList width n) :
    c.isAlphanum = true := by
  rw [fixedList, List.mem_append] at h
  rcases h with h | h
  · exact List.eq_of_mem_replicate h ▸ by decide
  · exact isAlphanum_of_mem_digitList h

/-- Filled up, a number has at least as many digits as asked for. -/
theorem le_length_fixedList (width n : Nat) : width ≤ (fixedList width n).length := by
  rw [fixedList, List.length_append, List.length_replicate]
  omega

/-- A number that needs no more digits than asked for has just as many. -/
theorem length_fixedList_of_lt {width n : Nat} (hwidth : 0 < width) (h : n < Nat.pow 16 width) :
    (fixedList width n).length = width := by
  have hlength : (digitList n).length ≤ width := by
    rw [digitList, List.length_map]
    exact (Nat.length_toDigits_le_iff (by decide) hwidth).mpr h
  rw [fixedList, List.length_append, List.length_replicate]
  omega

/-- A byte filled up to two digits has just these. -/
theorem length_fixedList_byte (n : UInt8) : (fixedList 2 n.toNat).length = 2 :=
  length_fixedList_of_lt (by decide) n.toNat_lt

/-- A number filled up to more digits is told from a byte by their count. -/
theorem length_fixedList_ne_two (width n : Nat) (h : 2 < width) :
    (fixedList width n).length ≠ 2 := by
  have hle := le_length_fixedList width n
  omega

theorem toList_padded (width n : Nat) :
    (padded width n).toList = '0' :: 'x' :: fixedList width n := by
  simp [padded, fixed]

theorem isAlphanum_of_mem_padded {width n : Nat} {c : Char}
    (h : c ∈ (padded width n).toList) : c.isAlphanum = true := by
  rw [toList_padded, List.mem_cons, List.mem_cons] at h
  rcases h with rfl | rfl | h
  · decide
  · decide
  · exact isAlphanum_of_mem_fixedList h

/-! ## Equal texts -/

/-- At one width, numbers with equal filled-up digits are equal. -/
theorem fixedList_inj {width m n : Nat} (h : fixedList width m = fixedList width n) : m = n := by
  rw [← value_fixedList width m, ← value_fixedList width n, h]

theorem fixed_inj {width m n : Nat} (h : fixed width m = fixed width n) : m = n :=
  fixedList_inj (String.ofList_injective h)

/-- At one width, numbers with equal marked texts are equal. -/
theorem padded_inj {width m n : Nat} (h : padded width m = padded width n) : m = n := by
  have hfixed : fixed width m = fixed width n := by
    simpa [padded, ← String.toList_inj] using h
  exact fixed_inj hfixed

end Chip8.Hex
