import Chip8.Log
import Chip8.Text.Separated

/-!
# The report of a fault tells the fault

A report begins with words that only faults of its kind have, and after them come the numbers of
the fault, each a row of letters and digits with a blank behind it.  So the kind can be read off
one character, and then each number in turn.

Main results:

- Theorem `Fault.message_inj`: faults with equal reports are equal.
- Theorem `Log.Entry.refused_text_inj`: so are faults with equal log texts.
-/

namespace Chip8

/-- A row of letters and digits after an opening, with a blank behind it, is told apart from
what follows it. -/
theorem Text.append_inj_of_opening {opening xs ys s t : List Char}
    (hxs : ∀ c ∈ xs, c.isAlphanum = true) (hys : ∀ c ∈ ys, c.isAlphanum = true)
    (h : opening ++ (xs ++ ' ' :: s) = opening ++ (ys ++ ' ' :: t)) : xs = ys ∧ s = t := by
  obtain ⟨hrow, hrest⟩ := append_inj_of_isAlphanum hxs hys (ends_cons.mpr (by decide))
    (ends_cons.mpr (by decide)) (List.append_cancel_left h)
  exact ⟨hrow, (List.cons.inj hrest).2⟩

theorem Text.toDigits_inj {m n : Nat} (h : Nat.toDigits 10 m = Nat.toDigits 10 n) : m = n := by
  rw [← Nat.ofDigitChars_toDigits (b := 10) (n := m) (by decide) (by decide), h,
    Nat.ofDigitChars_toDigits (by decide) (by decide)]

namespace Fault

/-! ## Reports as characters -/

theorem toList_message_programTooLarge (size max : Nat) :
    (message (.programTooLarge size max)).toList =
      "program image is ".toList ++ (Nat.toDigits 10 size ++
        ' ' :: ("bytes but only ".toList ++ (Nat.toDigits 10 max ++
          ' ' :: "bytes fit from 0x200".toList))) := by
  have hbetween : " bytes but only ".toList = ' ' :: "bytes but only ".toList := by decide
  have hend : " bytes fit from 0x200".toList = ' ' :: "bytes fit from 0x200".toList := by decide
  have hdigits (n : Nat) : (toString n).toList = Nat.toDigits 10 n := Nat.toList_repr
  change ("program image is " ++ toString size ++ " bytes but only " ++ toString max
    ++ " bytes fit from 0x200").toList = _
  simp only [String.toList_append, hbetween, hend, hdigits, List.append_assoc, List.cons_append]

theorem toList_message_stackOverflow (pc : UInt16) :
    (message (.stackOverflow pc)).toList =
      "stack overflow: call at ".toList ++ ((Hex.padded 3 pc.toNat).toList ++
        ' ' :: "with all 16 return slots in use".toList) := by
  have hend : " with all 16 return slots in use".toList =
      ' ' :: "with all 16 return slots in use".toList := by decide
  change ("stack overflow: call at " ++ Hex.padded 3 pc.toNat
    ++ " with all 16 return slots in use").toList = _
  rw [String.toList_append, String.toList_append, hend, List.append_assoc]

theorem toList_message_stackUnderflow (pc : UInt16) :
    (message (.stackUnderflow pc)).toList =
      "stack underflow: return at ".toList ++ ((Hex.padded 3 pc.toNat).toList ++
        ' ' :: "with an empty call stack".toList) := by
  have hend : " with an empty call stack".toList = ' ' :: "with an empty call stack".toList := by
    decide
  change ("stack underflow: return at " ++ Hex.padded 3 pc.toNat
    ++ " with an empty call stack").toList = _
  rw [String.toList_append, String.toList_append, hend, List.append_assoc]

theorem toList_message_invalidKey (key : UInt8) (pc : UInt16) :
    (message (.invalidKey key pc)).toList =
      "key ".toList ++ ((Hex.padded 2 key.toNat).toList ++
        ' ' :: ("tested at ".toList ++ ((Hex.padded 3 pc.toNat).toList ++
          ' ' :: "is outside the 16-key pad".toList))) := by
  have hbetween : " tested at ".toList = ' ' :: "tested at ".toList := by decide
  have hend : " is outside the 16-key pad".toList = ' ' :: "is outside the 16-key pad".toList := by
    decide
  change ("key " ++ Hex.padded 2 key.toNat ++ " tested at " ++ Hex.padded 3 pc.toNat
    ++ " is outside the 16-key pad").toList = _
  simp only [String.toList_append, hbetween, hend, List.append_assoc, List.cons_append]

/-! ## Kinds of faults -/

/-- The character of a report that tells the kind of its fault: the first, or the seventh if
the first is that of both stack faults. -/
def kindMark? (report : List Char) : Option Char :=
  if report[0]? = some 's' then report[6]? else report[0]?

/-- The character that tells the kind of a fault. -/
def kindMark : Fault → Char
  | .programTooLarge _ _ => 'p'
  | .stackOverflow _ => 'o'
  | .stackUnderflow _ => 'u'
  | .invalidKey _ _ => 'k'

theorem kindMark?_append {opening : List Char} (hlength : 0 < opening.length)
    (hstack : opening[0]? = some 's' → 6 < opening.length) (rest : List Char) :
    kindMark? (opening ++ rest) = kindMark? opening := by
  rw [kindMark?, kindMark?, List.getElem?_append_left hlength]
  split
  next h => rw [List.getElem?_append_left (hstack h)]
  next => rfl

/-- The kind of a fault can be read off its report. -/
theorem kindMark?_message (fault : Fault) :
    kindMark? fault.message.toList = some fault.kindMark := by
  cases fault with
  | programTooLarge size max =>
      rw [toList_message_programTooLarge, kindMark?_append (by decide) (by decide), kindMark]
      decide
  | stackOverflow pc =>
      rw [toList_message_stackOverflow, kindMark?_append (by decide) (by decide), kindMark]
      decide
  | stackUnderflow pc =>
      rw [toList_message_stackUnderflow, kindMark?_append (by decide) (by decide), kindMark]
      decide
  | invalidKey key pc =>
      rw [toList_message_invalidKey, kindMark?_append (by decide) (by decide), kindMark]
      decide

/-! ## Equal reports -/

/-- Faults with equal reports are equal. -/
theorem message_inj {f g : Fault} (h : f.message = g.message) : f = g := by
  have hchars := congrArg String.toList h
  have hkind : f.kindMark = g.kindMark := by
    apply Option.some.inj
    rw [← kindMark?_message, ← kindMark?_message, h]
  have hdigits {n : Nat} : ∀ c ∈ Nat.toDigits 10 n, c.isAlphanum = true :=
    fun c => Text.isAlphanum_of_mem_toDigits
  have hpadded {width n : Nat} : ∀ c ∈ (Hex.padded width n).toList, c.isAlphanum = true :=
    fun c => Hex.isAlphanum_of_mem_padded
  have hword {a b : UInt16} (h : (Hex.padded 3 a.toNat).toList = (Hex.padded 3 b.toNat).toList) :
      a = b := UInt16.toNat_inj.mp (Hex.padded_inj (String.toList_inj.mp h))
  cases f with
  | programTooLarge size max =>
      cases g with
      | programTooLarge size' max' =>
          rw [toList_message_programTooLarge, toList_message_programTooLarge] at hchars
          obtain ⟨hsize, hrest⟩ := Text.append_inj_of_opening hdigits hdigits hchars
          obtain ⟨hmax, -⟩ := Text.append_inj_of_opening hdigits hdigits hrest
          rw [Text.toDigits_inj hsize, Text.toDigits_inj hmax]
      | _ => exact absurd hkind (by simp [kindMark])
  | stackOverflow pc =>
      cases g with
      | stackOverflow pc' =>
          rw [toList_message_stackOverflow, toList_message_stackOverflow] at hchars
          rw [hword (Text.append_inj_of_opening hpadded hpadded hchars).1]
      | _ => exact absurd hkind (by simp [kindMark])
  | stackUnderflow pc =>
      cases g with
      | stackUnderflow pc' =>
          rw [toList_message_stackUnderflow, toList_message_stackUnderflow] at hchars
          rw [hword (Text.append_inj_of_opening hpadded hpadded hchars).1]
      | _ => exact absurd hkind (by simp [kindMark])
  | invalidKey key pc =>
      cases g with
      | invalidKey key' pc' =>
          rw [toList_message_invalidKey, toList_message_invalidKey] at hchars
          obtain ⟨hkey, hrest⟩ := Text.append_inj_of_opening hpadded hpadded hchars
          obtain ⟨hpc, -⟩ := Text.append_inj_of_opening hpadded hpadded hrest
          rw [UInt8.toNat_inj.mp (Hex.padded_inj (String.toList_inj.mp hkey)), hword hpc]
      | _ => exact absurd hkind (by simp [kindMark])

end Fault

/-- Faults with equal log texts are equal. -/
theorem Log.Entry.refused_text_inj {f g : Fault}
    (h : text (.refused f) = text (.refused g)) : f = g := by
  have hmessages : "chip8: " ++ f.message = "chip8: " ++ g.message := h
  apply Fault.message_inj
  simpa [← String.toList_inj] using hmessages

end Chip8
