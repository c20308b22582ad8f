import Chip8.Instruction.Decode
import Chip8.Log
import Chip8.Text.Separated

/-!
# Assembly texts tell instructions apart

A mnemonic has no blank and an operand no comma, so that the text of an instruction falls into
its mnemonic and the texts of its operands in one way only.  An operand is told by how its text
begins and by how many digits it has, but for a word as data, which can look like an address; it
follows one mnemonic of its own.  The mnemonic and the operands together are the instruction,
whatever words stand in its fields.

Main results:

- Theorem `Operand.ofText_text`: operands other than data read back.
- Theorem `Instruction.assemble?_operands`: the mnemonic and the operands of an instruction make
  it up.
- Theorem `Instruction.text_inj`: instructions with equal texts are equal.
- Theorem `Log.Entry.fetched_text_inj`: the entry of a fetched instruction tells the address, the
  word and the instruction.
- Theorem `Instruction.disassembly_law`: the two together, for instructions and for the words
  that stand for them.
-/

namespace Chip8

open Text (Ends ToldApart)

/-! ## Operands -/

namespace Operand

/-- Whether the operand is an instruction word as data. Its text is also that of an address
with four digits. -/
def isData : Operand → Bool
  | .data _ => true
  | _ => false

/-- The operand other than data that a text stands for. -/
def ofText : List Char → Operand
  | 'V' :: digits => .register (UInt8.ofNat (Hex.value digits))
  | '0' :: 'x' :: digits =>
    if digits.length = 2 then .byte (UInt8.ofNat (Hex.value digits))
    else .address (UInt16.ofNat (Hex.value digits))
  | ['I'] => .index
  | ['[', 'I', ']'] => .atIndex
  | ['D', 'T'] => .delayTimer
  | ['S', 'T'] => .soundTimer
  | ['K'] => .key
  | ['F'] => .glyph
  | ['B'] => .decimal
  | digits => .rows (UInt8.ofNat (Nat.ofDigitChars 10 digits 0))

/-- A register is written as V and a hexadecimal digit. -/
theorem toList_text_register (x : UInt8) :
    (text (.register x)).toList = 'V' :: Hex.digitList x.toNat := by
  simp [text, Hex.digits]

/-- A number of rows is written in decimal. -/
theorem toList_text_rows (n : UInt8) : (text (.rows n)).toList = Nat.toDigits 10 n.toNat :=
  Nat.toList_repr

/-- An operand other than data is the one that its text stands for. Only a number of rows is
all digits. -/
theorem ofText_text {o : Operand} (h : o.isData = false) : ofText o.text.toList = o := by
  cases o with
  | register x =>
      rw [toList_text_register, ofText, Hex.value_digitList, UInt8.ofNat_toNat]
  | byte kk =>
      rw [text, Hex.toList_padded, ofText, if_pos (Hex.length_fixedList_byte kk),
        Hex.value_fixedList, UInt8.ofNat_toNat]
  | address addr =>
      have hlength := Hex.length_fixedList_ne_two 3 addr.toNat (by decide)
      rw [text, Hex.toList_padded, ofText, if_neg hlength, Hex.value_fixedList,
        UInt16.ofNat_toNat]
  | rows n =>
      have hdigit : ∀ c ∈ Nat.toDigits 10 n.toNat, c.isDigit = true :=
        fun c hc => Nat.isDigit_of_mem_toDigits (by decide) (by decide) hc
      rw [toList_text_rows]
      unfold ofText
      split
      case h_10 => rw [Nat.ofDigitChars_toDigits (by decide) (by decide), UInt8.ofNat_toNat]
      all_goals next heq => simp [heq] at hdigit
  | data opcode => cases h
  | _ => rfl

/-- Operands with equal texts are equal if both are data or neither is. -/
theorem text_inj {o p : Operand} (hdata : o.isData = p.isData) (h : o.text = p.text) : o = p := by
  cases hp : p.isData with
  | false => rw [← ofText_text (hdata.trans hp), ← ofText_text hp, h]
  | true =>
      cases p with
      | data b =>
          cases o with
          | data a => exact congrArg Operand.data (UInt16.toNat_inj.mp (Hex.padded_inj h))
          | _ => cases hdata
      | _ => cases hp

/-- No operand has an empty text. -/
theorem text_ne_nil (o : Operand) : o.text.toList ≠ [] := by
  cases o with
  | register x => simp [toList_text_register]
  | byte kk => simp [text, Hex.toList_padded]
  | address addr => simp [text, Hex.toList_padded]
  | rows n => rw [toList_text_rows]; exact Nat.toDigits_ne_nil
  | data opcode => simp [text, Hex.toList_padded]
  | _ => decide

/-- Whether an operand ends at a character. -/
def endsOperand (c : Char) : Bool := c == ','

/-- Letters and digits end no operand. -/
theorem endsOperand_of_isAlphanum {c : Char} (h : c.isAlphanum = true) :
    endsOperand c = false := by
  rw [endsOperand, beq_eq_false_iff_ne]
  rintro rfl
  exact absurd h (by decide)

/-- The text of an operand has no comma. -/
theorem endsOperand_of_mem_text {o : Operand} {c : Char} (hc : c ∈ o.text.toList) :
    endsOperand c = false := by
  have hletters : ∀ o : Operand, o.text.toList.all (endsOperand · == false) → c ∈ o.text.toList →
      endsOperand c = false := fun o hall hc => by simpa using List.all_eq_true.mp hall c hc
  cases o with
  | register x =>
      rw [toList_text_register, List.mem_cons] at hc
      rcases hc with rfl | hc
      · decide
      · exact endsOperand_of_isAlphanum (Hex.isAlphanum_of_mem_digitList hc)
  | byte kk => exact endsOperand_of_isAlphanum (Hex.isAlphanum_of_mem_padded hc)
  | address addr => exact endsOperand_of_isAlphanum (Hex.isAlphanum_of_mem_padded hc)
  | rows n =>
      rw [toList_text_rows] at hc
      exact endsOperand_of_isAlphanum (Text.isAlphanum_of_mem_toDigits hc)
  | data opcode => exact endsOperand_of_isAlphanum (Hex.isAlphanum_of_mem_padded hc)
  | _ => exact hletters _ (by decide) hc

/-- No operand starts with a character that ends one. -/
theorem not_ends_text (o : Operand) : ¬Ends endsOperand o.text.toList :=
  Text.not_ends_of_forall o.text_ne_nil fun _ hc => endsOperand_of_mem_text hc

/-- Operands are told apart if both are data or neither is. -/
theorem toldApart {o p : Operand} (hdata : o.isData = p.isData) :
    ToldApart endsOperand text o p := by
  intro s t hs ht h
  obtain ⟨htext, hrest⟩ := Text.append_inj_of_ends (fun _ hc => endsOperand_of_mem_text hc)
    (fun _ hc => endsOperand_of_mem_text hc) hs ht h
  exact ⟨text_inj hdata (String.toList_inj.mp htext), hrest⟩

end Operand

/-! ## Instructions -/

namespace Instruction

/-- The instruction of a mnemonic and operands, if they go together. -/
def assemble? : String → List Operand → Option Instruction
  | "CLS", [] => some .clearScreen
  | "RET", [] => some .ret
  | "SYS", [.address addr] => some (.hostCall addr)
  | "JP", [.address addr] => some (.jump addr)
  | "JP", [.register _, .address addr] => some (.jumpOffset addr)
  | "CALL", [.address addr] => some (.call addr)
  | "SE", [.register x, .byte kk] => some (.skipIfByte x kk)
  | "SE", [.register x, .register y] => some (.skipIfSame x y)
  | "SNE", [.register x, .byte kk] => some (.skipUnlessByte x kk)
  | "SNE", [.register x, .register y] => some (.skipUnlessSame x y)
  | "LD", [.register x, .byte kk] => some (.setByte x kk)
  | "LD", [.register x, .register y] => some (.copy x y)
  | "LD", [.index, .address addr] => some (.setIndex addr)
  | "LD", [.register x, .delayTimer] => some (.getDelay x)
  | "LD", [.register x, .key] => some (.waitKey x)
  | "LD", [.delayTimer, .register x] => some (.setDelay x)
  | "LD", [.soundTimer, .register x] => some (.setSound x)
  | "LD", [.glyph, .register x] => some (.glyph x)
  | "LD", [.decimal, .register x] => some (.storeDecimal x)
  | "LD", [.atIndex, .register x] => some (.storeRegisters x)
  | "LD", [.register x, .atIndex] => some (.loadRegisters x)
  | "ADD", [.register x, .byte kk] => some (.addByte x kk)
  | "ADD", [.register x, .register y] => some (.add x y)
  | "ADD", [.index, .register x] => some (.addIndex x)
  | "OR", [.register x, .register y] => some (.or x y)
  | "AND", [.register x, .register y] => some (.and x y)
  | "XOR", [.register x, .register y] => some (.xor x y)
  | "SUB", [.register x, .register y] => some (.sub x y)
  | "SHR", [.register x] => some (.shiftRight x)
  | "SUBN", [.register x, .register y] => some (.subFrom x y)
  | "SHL", [.register x] => some (.shiftLeft x)
  | "RND", [.register x, .byte kk] => some (.random x kk)
  | "DRW", [.register x, .register y, .rows n] => some (.draw x y n)
  | "SKP", [.register x] => some (.skipIfKey x)
  | "SKNP", [.register x] => some (.skipUnlessKey x)
  | "DW", [.data opcode] => some (.unassigned opcode)
  | _, _ => none

/-- The mnemonic and the operands of an instruction make it up. -/
theorem assemble?_operands (ins : Instruction) :
    assemble? ins.mnemonic ins.operands = some ins := by
  cases ins <;> rfl

/-- Only one mnemonic has a word as data after it, and it has nothing else. -/
theorem isData_of_mem_operands {ins : Instruction} {o : Operand} (h : o ∈ ins.operands) :
    o.isData = (ins.mnemonic == "DW") := by
  have hall : ins.operands.all (·.isData == (ins.mnemonic == "DW")) = true := by
    cases ins <;> rfl
  exact beq_iff_eq.mp (List.all_eq_true.mp hall o h)

/-- Mnemonics are of letters and digits. -/
theorem isAlphanum_of_mem_mnemonic {ins : Instruction} {c : Char}
    (h : c ∈ ins.mnemonic.toList) : c.isAlphanum = true := by
  have hall : ins.mnemonic.toList.all Char.isAlphanum = true := by
    cases ins <;> (rw [mnemonic]; decide)
  exact List.all_eq_true.mp hall c h

/-- What follows the mnemonic. -/
def operandChars : List Operand → List Char
  | [] => []
  | operands => ' ' :: Text.joined Operand.text operands

theorem toList_operandsText (operands : List Operand) :
    (operandsText operands).toList = Text.joined Operand.text operands := by
  rw [operandsText, String.toList_intercalate, List.map_map]
  rfl

/-- The text of an instruction is its mnemonic and its operands. -/
theorem toList_text (ins : Instruction) :
    ins.text.toList = ins.mnemonic.toList ++ operandChars ins.operands := by
  rw [text]
  cases ins.operands with
  | nil => simp [operandChars]
  | cons o rest => simp [operandChars, toList_operandsText]

/-- What stands behind a mnemonic is empty or starts with a character of no mnemonic. -/
theorem ends_operandChars (operands : List Operand) :
    Ends (fun c => !c.isAlphanum) (operandChars operands) := by
  cases operands with
  | nil => exact Text.ends_nil _
  | cons o rest => exact Text.ends_cons.mpr (by decide)

/-- Operands with equal texts are equal if all of them are data or none is. -/
theorem operandChars_inj {os ps : List Operand}
    (hdata : ∀ o ∈ os, ∀ p ∈ ps, o.isData = p.isData) (h : operandChars os = operandChars ps) :
    os = ps := by
  have hjoined : Text.joined Operand.text os ++ [] = Text.joined Operand.text ps ++ [] := by
    cases os <;> cases ps <;> simp_all [operandChars]
  exact (Text.joined_inj rfl (fun o ho p hp => Operand.toldApart (hdata o ho p hp))
    (fun o _ => o.not_ends_text) (fun p _ => p.not_ends_text) (Text.closes_nil _)
    (Text.closes_nil _) hjoined).1

/-- Instructions with equal texts are equal. -/
theorem text_inj {a b : Instruction} (h : a.text = b.text) : a = b := by
  have hchars : a.mnemonic.toList ++ operandChars a.operands =
      b.mnemonic.toList ++ operandChars b.operands := by
    rw [← toList_text, ← toList_text, h]
  obtain ⟨hname, hrest⟩ := Text.append_inj_of_isAlphanum
    (fun _ hc => isAlphanum_of_mem_mnemonic hc) (fun _ hc => isAlphanum_of_mem_mnemonic hc)
    (ends_operandChars _) (ends_operandChars _) hchars
  have hmnemonic : a.mnemonic = b.mnemonic := String.toList_inj.mp hname
  have hoperands : a.operands = b.operands := by
    refine operandChars_inj (fun o ho p hp => ?_) hrest
    rw [isData_of_mem_operands ho, isData_of_mem_operands hp, hmnemonic]
  have hsome : some a = some b := by
    rw [← assemble?_operands a, ← assemble?_operands b, hmnemonic, hoperands]
  exact Option.some.inj hsome

end Instruction

/-! ## Entries of fetched instructions -/

namespace Log.Entry

/-- The line of a fetch is the address, the word and the text of the instruction. -/
theorem toList_text_fetched (pc opcode : UInt16) (ins : Instruction) :
    (text (.fetched pc opcode ins)).toList =
      (Hex.padded 3 pc.toNat).toList ++
        ':' :: ' ' :: (Hex.fixedList 4 opcode.toNat ++ ' ' :: ' ' :: ins.text.toList) := by
  have hcolon : ": ".toList = [':', ' '] := by decide
  have hblanks : "  ".toList = [' ', ' '] := by decide
  change (Hex.padded 3 pc.toNat ++ ": " ++ Hex.fixed 4 opcode.toNat ++ "  " ++ ins.text).toList = _
  rw [String.toList_append, String.toList_append, String.toList_append, String.toList_append,
    hcolon, hblanks, Hex.fixed, String.toList_ofList]
  simp only [List.append_assoc, List.cons_append, List.nil_append]

/-- The entry of a fetched instruction tells the address, the word and the instruction. -/
theorem fetched_text_inj {pc pc' opcode opcode' : UInt16} {ins ins' : Instruction}
    (h : text (.fetched pc opcode ins) = text (.fetched pc' opcode' ins')) :
    pc = pc' ∧ opcode = opcode' ∧ ins = ins' := by
  have hchars := congrArg String.toList h
  rw [toList_text_fetched, toList_text_fetched] at hchars
  obtain ⟨hpc, hafter⟩ := Text.append_inj_of_isAlphanum
    (fun _ hc => Hex.isAlphanum_of_mem_padded hc) (fun _ hc => Hex.isAlphanum_of_mem_padded hc)
    (Text.ends_cons.mpr (by decide)) (Text.ends_cons.mpr (by decide)) hchars
  have hword : Hex.fixedList 4 opcode.toNat ++ ' ' :: ' ' :: ins.text.toList =
      Hex.fixedList 4 opcode'.toNat ++ ' ' :: ' ' :: ins'.text.toList :=
    (List.cons.inj (List.cons.inj hafter).2).2
  obtain ⟨hopcode, hins⟩ := Text.append_inj_of_isAlphanum
    (fun _ hc => Hex.isAlphanum_of_mem_fixedList hc)
    (fun _ hc => Hex.isAlphanum_of_mem_fixedList hc)
    (Text.ends_cons.mpr (by decide)) (Text.ends_cons.mpr (by decide)) hword
  have htext : ins.text = ins'.text :=
    String.toList_inj.mp (List.cons.inj (List.cons.inj hins).2).2
  exact ⟨UInt16.toNat_inj.mp (Hex.padded_inj (String.toList_inj.mp hpc)),
    UInt16.toNat_inj.mp (Hex.fixedList_inj hopcode), Instruction.text_inj htext⟩

end Log.Entry

/-! ## The words of a program -/

/-- Texts of instructions tell them apart, whatever stands in their fields; so two words
have one text just if they stand for one instruction, and the entry of a fetched word tells
the word and where it was fetched. -/
theorem Instruction.disassembly_law (a b : Instruction) (pc pc' opcode opcode' : UInt16) :
    (a.text = b.text ↔ a = b) ∧
      ((decode opcode).text = (decode opcode').text ↔ decode opcode = decode opcode') ∧
      ((Log.Entry.fetched pc opcode (decode opcode)).text =
          (Log.Entry.fetched pc' opcode' (decode opcode')).text ↔
        pc = pc' ∧ opcode = opcode') := by
  refine ⟨⟨text_inj, congrArg text⟩, ⟨text_inj, congrArg text⟩, ?_, ?_⟩
  · intro h
    obtain ⟨hpc, hopcode, -⟩ := Log.Entry.fetched_text_inj h
    exact ⟨hpc, hopcode⟩
  · rintro ⟨rfl, rfl⟩
    rfl

end Chip8
