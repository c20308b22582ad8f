/-!
# Texts that can be taken apart

A text made of parts can be read in one way only if each part ends where it can be seen to end:
at the end of the text or at a character that the part itself does not have.  Items in a row,
set apart by a comma and a blank, are told apart one by one in this way.

Main results:

- Theorem `Text.append_inj_of_ends`: a part without a stop is told apart from what follows it.
- Theorem `Text.joined_inj`: items whose texts are told apart one by one are told apart in a
  row.
-/

namespace Chip8.Text

/-! ## One part -/

/-- What follows a part: nothing, or first of all a character that stops it. -/
def Ends (stop : Char → Bool) (rest : List Char) : Prop :=
  ∀ c, rest.head? = some c → stop c = true

theorem ends_nil (stop : Char → Bool) : Ends stop [] := by
  simp [Ends]

theorem ends_cons {stop : Char → Bool} {c : Char} {rest : List Char} :
    Ends stop (c :: rest) ↔ stop c = true := by
  simp [Ends]

theorem Ends.of_append {stop : Char → Bool} {part rest : List Char}
    (h : Ends stop (part ++ rest)) : Ends stop part := by
  cases part with
  | nil => exact ends_nil stop
  | cons c part => exact ends_cons.mpr (ends_cons.mp h)

/-- A part with characters of its own begins with none that stops it. -/
theorem not_ends_of_forall {stop : Char → Bool} {part : List Char} (hne : part ≠ [])
    (h : ∀ c ∈ part, stop c = false) : ¬Ends stop part := by
  cases part with
  | nil => exact absurd rfl hne
  | cons c part => simp [ends_cons, h c]

/-- A part without a stop is told apart from what follows it. -/
theorem append_inj_of_ends {stop : Char → Bool} {xs ys s t : List Char}
    (hxs : ∀ c ∈ xs, stop c = false) (hys : ∀ c ∈ ys, stop c = false) (hs : Ends stop s)
    (ht : Ends stop t) (h : xs ++ s = ys ++ t) : xs = ys ∧ s = t := by
  induction xs generalizing ys with
  | nil =>
      cases ys with
      | nil => exact ⟨rfl, h⟩
      | cons d ys =>
          rw [List.nil_append] at h
          rw [h, List.cons_append, ends_cons] at hs
          simp [hys d] at hs
  | cons c xs ih =>
      cases ys with
      | nil =>
          rw [List.nil_append] at h
          rw [← h, List.cons_append, ends_cons] at ht
          simp [hxs c] at ht
      | cons d ys =>
          obtain ⟨rfl, hrest⟩ := List.cons.inj h
          obtain ⟨rfl, rfl⟩ := ih (fun c hc => hxs c (List.mem_cons_of_mem _ hc))
            (fun c hc => hys c (List.mem_cons_of_mem _ hc)) hrest
          exact ⟨rfl, rfl⟩

/-! ## Letters and digits -/

theorem isAlphanum_of_mem_toDigits {n : Nat} {c : Char} (h : c ∈ Nat.toDigits 10 n) :
    c.isAlphanum = true := by
  have hdigit : c.isDigit = true := Nat.isDigit_of_mem_toDigits (by decide) (by decide) h
  simp [Char.isAlphanum, hdigit]

/-- A row of letters and digits is told apart from what follows it if that begins with a
character of another kind. -/
theorem append_inj_of_isAlphanum {xs ys s t : List Char} (hxs : ∀ c ∈ xs, c.isAlphanum = true)
    (hys : ∀ c ∈ ys, c.isAlphanum = true) (hs : Ends (fun c => !c.isAlphanum) s)
    (ht : Ends (fun c => !c.isAlphanum) t) (h : xs ++ s = ys ++ t) : xs = ys ∧ s = t :=
  append_inj_of_ends (fun c hc => by simp [hxs c hc]) (fun c hc => by simp [hys c hc]) hs ht h

/-! ## Items in a row -/

/-- A comma and a blank. -/
def separator : List Char := [',', ' ']

variable {α : Type} {stop : Char → Bool} {text : α → String} {xs ys : List α}
  {s t : List Char}

/-- The texts of items in a row. -/
def joined (text : α → String) (xs : List α) : List Char :=
  separator.intercalate (xs.map fun x => (text x).toList)

/-- The texts of items in a row after another one, each after a separator. -/
def following (text : α → String) (xs : List α) : List Char :=
  xs.flatMap fun x => separator ++ (text x).toList

theorem joined_nil : joined text [] = [] := rfl

theorem following_cons (x : α) (xs : List α) :
    following text (x :: xs) = ',' :: ' ' :: ((text x).toList ++ following text xs) := by
  simp [following, separator]

/-- Items in a row are the first one and those that follow it. -/
theorem joined_cons (x : α) (xs : List α) :
    joined text (x :: xs) = (text x).toList ++ following text xs := by
  induction xs generalizing x with
  | nil => simp [joined, following]
  | cons y rest ih =>
      have hrest : joined text (x :: y :: rest) =
          (text x).toList ++ separator ++ joined text (y :: rest) :=
        List.intercalate_cons_cons
      rw [hrest, ih, following_cons]
      simp [separator]

/-- The texts of two items are told apart, whatever follows them. -/
def ToldApart (stop : Char → Bool) (text : α → String) (x y : α) : Prop :=
  ∀ s t, Ends stop s → Ends stop t →
    (text x).toList ++ s = (text y).toList ++ t → x = y ∧ s = t

/-- What follows a row: its items are stopped there, and no other one comes. -/
structure Closes (stop : Char → Bool) (rest : List Char) : Prop where
  ends : Ends stop rest
  no_item : rest.head? ≠ some ','

theorem closes_nil (stop : Char → Bool) : Closes stop [] :=
  { ends := ends_nil stop, no_item := by simp }

theorem ends_following (hcomma : stop ',' = true) (hs : Closes stop s) :
    Ends stop (following text xs ++ s) := by
  cases xs with
  | nil => exact hs.ends
  | cons x xs => exact ends_cons.mpr hcomma

theorem not_closes_following_cons (x : α) (xs : List α) :
    ¬Closes stop (following text (x :: xs) ++ s) := by
  intro h
  exact h.no_item (by rw [following_cons]; rfl)

/-- Items that follow another one are told apart if any two of them are. -/
theorem following_inj (hcomma : stop ',' = true)
    (hitem : ∀ x ∈ xs, ∀ y ∈ ys, ToldApart stop text x y) (hs : Closes stop s)
    (ht : Closes stop t) (h : following text xs ++ s = following text ys ++ t) :
    xs = ys ∧ s = t := by
  induction xs generalizing ys with
  | nil =>
      cases ys with
      | nil => exact ⟨rfl, h⟩
      | cons y ys =>
          have hfirst : s = following text (y :: ys) ++ t := h
          exact absurd (hfirst ▸ hs) (not_closes_following_cons y ys)
  | cons x xs ih =>
      cases ys with
      | nil =>
          have hfirst : t = following text (x :: xs) ++ s := h.symm
          exact absurd (hfirst ▸ ht) (not_closes_following_cons x xs)
      | cons y ys =>
          have hrest : (text x).toList ++ (following text xs ++ s) =
              (text y).toList ++ (following text ys ++ t) := by
            simpa [following_cons] using h
          obtain ⟨rfl, hlater⟩ := hitem x List.mem_cons_self y List.mem_cons_self _ _
            (ends_following hcomma hs) (ends_following hcomma ht) hrest
          obtain ⟨rfl, rfl⟩ := ih
            (fun x hx y hy => hitem x (List.mem_cons_of_mem _ hx) y (List.mem_cons_of_mem _ hy))
            hlater
          exact ⟨rfl, rfl⟩

/-- Items in a row are told apart if any two of them are and none has a text that is empty or
begins with a stop. -/
theorem joined_inj (hcomma : stop ',' = true)
    (hitem : ∀ x ∈ xs, ∀ y ∈ ys, ToldApart stop text x y)
    (hxs : ∀ x ∈ xs, ¬Ends stop (text x).toList) (hys : ∀ y ∈ ys, ¬Ends stop (text y).toList)
    (hs : Closes stop s) (ht : Closes stop t) (h : joined text xs ++ s = joined text ys ++ t) :
    xs = ys ∧ s = t := by
  cases xs with
  | nil =>
      cases ys with
      | nil => exact ⟨rfl, h⟩
      | cons y ys =>
          have hfirst : s = (text y).toList ++ (following text ys ++ t) := by
            simpa [joined_nil, joined_cons] using h
          exact absurd (hfirst ▸ hs.ends).of_append (hys y List.mem_cons_self)
  | cons x xs =>
      cases ys with
      | nil =>
          have hfirst : t = (text x).toList ++ (following text xs ++ s) := by
            simpa [joined_nil, joined_cons] using h.symm
          exact absurd (hfirst ▸ ht.ends).of_append (hxs x List.mem_cons_self)
      | cons y ys =>
          have hrest : (text x).toList ++ (following text xs ++ s) =
              (text y).toList ++ (following text ys ++ t) := by
            simpa [joined_cons] using h
          obtain ⟨rfl, hlater⟩ := hitem x List.mem_cons_self y List.mem_cons_self _ _
            (ends_following hcomma hs) (ends_following hcomma ht) hrest
          obtain ⟨rfl, rfl⟩ := following_inj hcomma
            (fun x hx y hy => hitem x (List.mem_cons_of_mem _ hx) y (List.mem_cons_of_mem _ hy))
            hs ht hlater
          exact ⟨rfl, rfl⟩

end Chip8.Text
