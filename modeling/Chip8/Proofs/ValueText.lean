import Chip8.Text.Separated
import Chip8.Value

/-!
# Value texts are unambiguous

The texts of values other than arrays are told apart by their shape: a truth value begins with a
letter, a byte has two digits after the mark and a word four, and a count has no mark.  None of
them has a comma or a bracket, so that an item of an array ends at the comma or the bracket after
it, and an array at the bracket that closes it.

Main results:

- Theorem `Value.ofScalarText_text`: values other than arrays read back.
- Theorem `Value.toldApart`: any two values are told apart, whatever follows their texts.
- Theorem `Value.text_law`: values with equal texts are equal.
-/

namespace Chip8.Value

open Text (Ends ToldApart Closes)

/-- The value is not an array. -/
def IsScalar : Value → Prop
  | .array _ => False
  | _ => True

/-- What holds of all other values, and of an array if it holds of its items, holds of every
value. -/
@[elab_as_elim]
theorem array_induction {P : Value → Prop} (scalar : ∀ v, v.IsScalar → P v)
    (array : ∀ items, (∀ item ∈ items, P item) → P (.array items)) (v : Value) : P v :=
  match v with
  | .flag b => scalar (.flag b) trivial
  | .byte n => scalar (.byte n) trivial
  | .word n => scalar (.word n) trivial
  | .count n => scalar (.count n) trivial
  | .array items => array items fun item _ => array_induction scalar array item
termination_by sizeOf v

/-! ## Values other than arrays -/

/-- The value other than an array that a text stands for. -/
def ofScalarText : List Char → Value
  | 't' :: _ => .flag true
  | 'f' :: _ => .flag false
  | '0' :: 'x' :: digits =>
    if digits.length = 2 then .byte (UInt8.ofNat (Hex.value digits))
    else .word (UInt16.ofNat (Hex.value digits))
  | digits => .count (UInt64.ofNat (Nat.ofDigitChars 10 digits 0))

theorem toList_text_count (n : UInt64) : (text (.count n)).toList = Nat.toDigits 10 n.toNat :=
  Nat.toList_repr

/-- A value other than an array is the one that its text stands for. Only a count is all
digits. -/
theorem ofScalarText_text {v : Value} (h : v.IsScalar) : ofScalarText v.text.toList = v := by
  cases v with
  | flag b => cases b <;> rfl
  | byte n =>
      rw [text, Hex.toList_padded, ofScalarText, if_pos (Hex.length_fixedList_byte n),
        Hex.value_fixedList, UInt8.ofNat_toNat]
  | word n =>
      have hlength := Hex.length_fixedList_ne_two 4 n.toNat (by decide)
      rw [text, Hex.toList_padded, ofScalarText, if_neg hlength, Hex.value_fixedList,
        UInt16.ofNat_toNat]
  | count n =>
      have hdigit : ∀ c ∈ Nat.toDigits 10 n.toNat, c.isDigit = true :=
        fun c hc => Nat.isDigit_of_mem_toDigits (by decide) (by decide) hc
      rw [toList_text_count]
      unfold ofScalarText
      split
      case h_4 => rw [Nat.ofDigitChars_toDigits (by decide) (by decide), UInt64.ofNat_toNat]
      all_goals next heq => simp [heq] at hdigit
  | array items => exact h.elim

theorem text_ne_nil (v : Value) : v.text.toList ≠ [] := by
  cases v with
  | flag b => cases b <;> decide
  | byte n => simp [text, Hex.toList_padded]
  | word n => simp [text, Hex.toList_padded]
  | count n =>
      rw [toList_text_count]
      exact Nat.toDigits_ne_nil
  | array items => simp [text]

/-- The text of a value other than an array has letters and digits alone. -/
theorem isAlphanum_of_mem_text {v : Value} (h : v.IsScalar) {c : Char} (hc : c ∈ v.text.toList) :
    c.isAlphanum = true := by
  cases v with
  | flag b =>
      have hletters : ∀ b, (text (.flag b)).toList.all Char.isAlphanum = true := by decide
      exact List.all_eq_true.mp (hletters b) c hc
  | byte n => exact Hex.isAlphanum_of_mem_padded hc
  | word n => exact Hex.isAlphanum_of_mem_padded hc
  | count n =>
      rw [toList_text_count] at hc
      exact Text.isAlphanum_of_mem_toDigits hc
  | array items => exact h.elim

/-! ## Arrays -/

/-- Whether an item of an array ends at a character. -/
def endsItem (c : Char) : Bool := c == ',' || c == ']'

theorem endsItem_of_isAlphanum {c : Char} (h : c.isAlphanum = true) : endsItem c = false := by
  rw [Bool.eq_false_iff]
  intro hend
  simp only [endsItem, Bool.or_eq_true, beq_iff_eq] at hend
  rcases hend with rfl | rfl <;> exact absurd h (by decide)

/-- Items are written as texts in a row. -/
theorem toList_itemsText (items : List Value) :
    (itemsText items).toList = Text.joined text items := by
  induction items with
  | nil => rfl
  | cons v rest ih =>
      cases rest with
      | nil => simp [itemsText, Text.joined]
      | cons w rest =>
          rw [itemsText, String.toList_append, String.toList_append, ih, Text.joined_cons,
            Text.joined_cons, Text.following_cons]
          simp

theorem toList_text_array (items : List Value) :
    (text (.array items)).toList = '[' :: Text.joined text items ++ [']'] := by
  rw [← toList_itemsText]
  simp [text]

theorem not_ends_text (v : Value) : ¬Ends endsItem v.text.toList := by
  by_cases h : v.IsScalar
  · exact Text.not_ends_of_forall v.text_ne_nil fun c hc =>
      endsItem_of_isAlphanum (isAlphanum_of_mem_text h hc)
  · cases v with
    | array items =>
        rw [toList_text_array]
        exact fun hend => absurd (Text.ends_cons.mp hend) (by decide)
    | _ => exact absurd trivial h

/-- No other value begins with the bracket of an array. -/
theorem text_append_ne_array {v : Value} (h : v.IsScalar) (items : List Value) (s t : List Char) :
    v.text.toList ++ s ≠ (text (.array items)).toList ++ t := by
  intro heq
  rw [toList_text_array] at heq
  cases htext : v.text.toList with
  | nil => exact v.text_ne_nil htext
  | cons c rest =>
      rw [htext] at heq
      have hc : c ∈ v.text.toList := htext ▸ List.mem_cons_self
      obtain rfl : c = '[' := (List.cons.inj heq).1
      exact absurd (isAlphanum_of_mem_text h hc) (by decide)

theorem toldApart_of_isScalar {v w : Value} (hv : v.IsScalar) (hw : w.IsScalar) :
    ToldApart endsItem text v w := by
  intro s t hs ht h
  obtain ⟨htext, hrest⟩ := Text.append_inj_of_ends
    (fun c hc => endsItem_of_isAlphanum (isAlphanum_of_mem_text hv hc))
    (fun c hc => endsItem_of_isAlphanum (isAlphanum_of_mem_text hw hc)) hs ht h
  refine ⟨?_, hrest⟩
  rw [← ofScalarText_text hv, ← ofScalarText_text hw, htext]

theorem closes_bracket (rest : List Char) : Closes endsItem (']' :: rest) :=
  { ends := Text.ends_cons.mpr rfl, no_item := by simp }

/-- Arrays are told apart if their items are. -/
theorem toldApart_array {items others : List Value}
    (hitem : ∀ x ∈ items, ∀ y ∈ others, ToldApart endsItem text x y) :
    ToldApart endsItem text (.array items) (.array others) := by
  intro s t _ _ h
  have hitems : Text.joined text items ++ ']' :: s = Text.joined text others ++ ']' :: t := by
    simpa [toList_text_array] using h
  obtain ⟨rfl, hrest⟩ := Text.joined_inj rfl hitem (fun x _ => x.not_ends_text)
    (fun y _ => y.not_ends_text) (closes_bracket s) (closes_bracket t) hitems
  exact ⟨rfl, (List.cons.inj hrest).2⟩

/-- Any two values are told apart, whatever follows their texts. -/
theorem toldApart (v w : Value) : ToldApart endsItem text v w := by
  induction v using array_induction generalizing w with
  | scalar v hv =>
      by_cases hw : w.IsScalar
      · exact toldApart_of_isScalar hv hw
      · cases w with
        | array items => exact fun s t _ _ h => absurd h (text_append_ne_array hv items s t)
        | _ => exact absurd trivial hw
  | array items ih =>
      by_cases hw : w.IsScalar
      · exact fun s t _ _ h => absurd h.symm (text_append_ne_array hw items t s)
      · cases w with
        | array others => exact toldApart_array fun x hx y _ => ih x hx y
        | _ => exact absurd trivial hw

/-- Values with equal texts are equal. -/
theorem text_law (v w : Value) : v.text = w.text ↔ v = w := by
  constructor
  · intro h
    have htext : v.text.toList ++ [] = w.text.toList ++ [] := by rw [h]
    exact (toldApart v w [] [] (Text.ends_nil _) (Text.ends_nil _) htext).1
  · rintro rfl
    rfl

example : text (.array [.byte 1, .array [], .array [.word 2, .flag true]]) =
    "[0x01, [], [0x0002, true]]" := by decide

end Chip8.Value
