import ChipEight.Instruction
import ChipEight.Proofs.Hexadecimal
import Mathlib.Algebra.Group.Nat.Defs
namespace ChipEight

def breaks (c : Char) : Bool := c == ' ' || c == ','

def Whole (chars : List Char) : Prop := chars ≠ [] ∧ ∀ c ∈ chars, breaks c = false

instance (chars : List Char) : Decidable (Whole chars) :=
  have : Decidable (∀ c ∈ chars, breaks c = false) := List.decidableBAll _ chars
  inferInstanceAs (Decidable (_ ∧ _))

def parts (chars : List Char) : List (List Char) :=
  (chars.splitOnP breaks).filter fun part => !part.isEmpty

-- The operand that is written so. Numbers to base sixteen are told apart by their width, and
-- what is left is a number to base ten.
def Operand.read : List Char → Operand
  | ['I'] => .index
  | ['[', 'I', ']'] => .indexed
  | ['D', 'T'] => .delay
  | ['S', 'T'] => .sound
  | ['K'] => .key
  | ['F'] => .glyph
  | ['B'] => .decimal
  | 'V' :: digits => .register (.low (hexValue digits))
  | '0' :: 'x' :: digits => match digits.length with
    | 2 => .byte (UInt8.ofNat (hexValue digits))
    | 3 => .target (Fin.ofNat 4096 (hexValue digits))
    | _ => .word (UInt16.ofNat (hexValue digits))
  | digits => .count (Register.low (digits.foldl (fun value c => value * 10 + capitalDigits.idxOf c) 0))

def Alu.named? : String → Option Alu
  | "LD" => some .copy
  | "OR" => some .or
  | "AND" => some .and
  | "XOR" => some .xor
  | "ADD" => some .add
  | "SUB" => some .sub
  | "SHR" => some .shiftRight
  | "SUBN" => some .subFrom
  | "SHL" => some .shiftLeft
  | _ => none

def Mnemonic.instruction? (m : Mnemonic) : Option Instruction :=
  match m.operands with
  | [] => match m.name with
    | "CLS" => some .clear
    | "RET" => some .ret
    | _ => none
  | [.target target] => match m.name with
    | "SYS" => some (.system target)
    | "JP" => some (.jump target)
    | "CALL" => some (.call target)
    | _ => none
  | [.word word] => some (.unknown word)
  | [.register x] => match m.name with
    | "SKP" => some (.skip (.pressed x))
    | "SKNP" => some (.skip (.released x))
    | _ => none
  | [.register x, .byte kk] => match m.name with
    | "SE" => some (.skip (.isByte x kk))
    | "SNE" => some (.skip (.notByte x kk))
    | "LD" => some (.loadByte x kk)
    | "ADD" => some (.addByte x kk)
    | "RND" => some (.random x kk)
    | _ => none
  | [.register x, .register y] => match m.name with
    | "SE" => some (.skip (.same x y))
    | "SNE" => some (.skip (.differ x y))
    | name => (Alu.named? name).map (.alu · x y)
  | [.register x, .register y, .count rows] => some (.draw x y rows)
  | [.register _, .target target] => some (.jumpOffset target)
  | [.index, .target target] => some (.loadIndex target)
  | [.index, .register x] => some (.addIndex x)
  | [.register x, .delay] => some (.readDelay x)
  | [.register x, .key] => some (.waitKey x)
  | [.register x, .indexed] => some (.load x)
  | [.delay, .register x] => some (.setDelay x)
  | [.sound, .register x] => some (.setSound x)
  | [.glyph, .register x] => some (.glyph x)
  | [.decimal, .register x] => some (.decimal x)
  | [.indexed, .register x] => some (.store x)
  | _ => none

section Parts

variable {part rest : List Char} {c : Char}

theorem parts_whole (whole : Whole part) : parts part = [part] := by
  unfold parts
  rw [List.splitOnP_eq_singleton whole.2]
  simp [whole.1]

theorem parts_break (stops : breaks c = true) : parts (c :: rest) = parts rest := by
  have split := List.splitOnP_append_cons [] rest stops
  unfold parts
  rw [← List.nil_append (c :: rest), split]
  rfl

theorem parts_next (whole : Whole part) (stops : breaks c = true) :
    parts (part ++ c :: rest) = part :: parts rest := by
  unfold parts
  rw [List.splitOnP_append_cons _ _ stops, List.splitOnP_eq_singleton whole.2]
  simp [whole.1]

theorem parts_intercalate {all : List (List Char)} (whole : ∀ part ∈ all, Whole part) :
    parts ([',', ' '].intercalate all) = all := by
  induction all with
  | nil => rfl
  | cons part others ih =>
    obtain ⟨wholeNow, wholeRest⟩ := List.forall_mem_cons.mp whole
    cases others with
    | nil =>
      rw [List.intercalate_singleton]
      exact parts_whole wholeNow
    | cons next others =>
      rw [List.intercalate_cons_cons, List.append_assoc]
      exact (parts_next wholeNow rfl).trans (congrArg _ ((parts_break rfl).trans (ih wholeRest)))

end Parts

theorem length_hexDigits_le {width n : Nat} (positive : 0 < width) (bound : n < 16 ^ width) :
    (hexDigits n).length ≤ width := by
  fun_induction hexDigits n generalizing width with
  | case1 => exact positive
  | case2 n several ih =>
    cases width with
    | zero => cases positive
    | succ width =>
      have rest : n / 16 < 16 ^ width := Nat.div_lt_of_lt_mul (by rwa [← Nat.pow_succ'])
      have positiveRest : 0 < width := by
        apply Nat.pos_of_ne_zero
        intro none
        rw [none] at bound
        exact several bound
      rw [List.length_append]
      exact Nat.succ_le_succ (ih positiveRest rest)

theorem length_hex {width n : Nat} (positive : 0 < width) (bound : n < 16 ^ width) :
    (hex width n).toList.length = width := by
  have fits := length_hexDigits_le positive bound
  simp only [hex, List.leftpad, String.toList_ofList, List.length_append, List.length_replicate]
  omega

theorem hexValue_hex {width : Nat} (positive : 0 < width) (n : Nat) :
    hexValue (hex width n).toList = n := (hex_hexadecimal positive n).value

theorem whole_hex {start : List Char} {width n : Nat} (positive : 0 < width) (whole : Whole start) :
    Whole (start ++ (hex width n).toList) := by
  refine ⟨by simp [whole.1], ?_⟩
  have digits : Whole capitalDigits := by decide
  intro c present
  rcases List.mem_append.mp present with first | digit
  · exact whole.2 c first
  · exact digits.2 c ((hex_hexadecimal positive n).capital c digit)

namespace Operand

theorem read_text (operand : Operand) : read operand.text.toList = operand := by
  cases operand with
  | register x =>
    have chars : (register x).text.toList = 'V' :: (hex 1 x.val).toList := String.toList_append
    have low : Register.low x.val = x := Fin.ext (Nat.mod_eq_of_lt x.isLt)
    simp [chars, read, hexValue_hex, low]
  | byte kk =>
    have chars : (byte kk).text.toList = '0' :: 'x' :: (hex 2 kk.toNat).toList :=
      String.toList_append
    have width : (hex 2 kk.toNat).toList.length = 2 := length_hex (by decide) kk.toNat_lt
    simp only [chars, read, width, hexValue_hex (by decide : 0 < 2), UInt8.ofNat_toNat]
  | target place =>
    have chars : (target place).text.toList = '0' :: 'x' :: (hex 3 place.val).toList :=
      String.toList_append
    have width : (hex 3 place.val).toList.length = 3 := length_hex (by decide) place.isLt
    simp only [chars, read, width, hexValue_hex (by decide : 0 < 3), Fin.ofNat_val_eq_self]
  | word bits =>
    have chars : (word bits).text.toList = '0' :: 'x' :: (hex 4 bits.toNat).toList :=
      String.toList_append
    have width : (hex 4 bits.toNat).toList.length = 4 := length_hex (by decide) bits.toNat_lt
    simp only [chars, read, width, hexValue_hex (by decide : 0 < 4), UInt16.ofNat_toNat]
  | count rows =>
    revert rows
    decide
  | _ => rfl

theorem text_whole (operand : Operand) : Whole operand.text.toList := by
  have two : Whole ['0', 'x'] := by decide
  cases operand with
  | register x =>
    have one : Whole ['V'] := by decide
    exact String.toList_append ▸ whole_hex (by decide) one
  | byte kk => exact String.toList_append ▸ whole_hex (by decide) two
  | target place => exact String.toList_append ▸ whole_hex (by decide) two
  | word bits => exact String.toList_append ▸ whole_hex (by decide) two
  | count rows =>
    revert rows
    decide
  | _ => decide

end Operand

namespace Mnemonic

variable {m other : Mnemonic}

theorem parts_text (whole : Whole m.name.toList) :
    parts m.text.toList = m.name.toList :: m.operands.map fun operand => operand.text.toList := by
  obtain ⟨name, operands⟩ := m
  cases operands with
  | nil => exact parts_whole whole
  | cons operand others =>
    have chars : (Mnemonic.mk name (operand :: others)).text.toList = name.toList ++ ' ' ::
        [',', ' '].intercalate ((operand :: others).map fun operand => operand.text.toList) := by
      simp [text, Function.comp_def]
    rw [chars, parts_next whole rfl, parts_intercalate]
    intro part present
    obtain ⟨operand, _, rfl⟩ := List.mem_map.mp present
    exact operand.text_whole

theorem text_injective (whole : Whole m.name.toList) (wholeOther : Whole other.name.toList)
    (same : m.text = other.text) : m = other := by
  have sameParts := congrArg (fun text => parts text.toList) same
  simp only [parts_text whole, parts_text wholeOther, List.cons.injEq] at sameParts
  obtain ⟨names, operands⟩ := sameParts
  have sameOperands := congrArg (List.map Operand.read) operands
  simp only [List.map_map, Function.comp_def, Operand.read_text, List.map_id'] at sameOperands
  obtain ⟨_, _⟩ := m
  cases String.toList_inj.mp names
  cases sameOperands
  rfl

end Mnemonic

namespace Instruction

theorem name_whole (instruction : Instruction) : Whole instruction.mnemonic.name.toList := by
  cases instruction with
  | skip condition => cases condition <;> simp [mnemonic, Condition.mnemonic, Whole, breaks]
  | alu op => cases op <;> simp [mnemonic, Alu.name, Whole, breaks]
  | _ => simp [mnemonic, Whole, breaks]

theorem instruction?_mnemonic (instruction : Instruction) :
    instruction.mnemonic.instruction? = some instruction := by
  cases instruction with
  | skip condition => cases condition <;> rfl
  | alu op => cases op <;> rfl
  | _ => rfl

theorem text_injective : Function.Injective text := by
  intro one two same
  have mnemonics := Mnemonic.text_injective one.name_whole two.name_whole same
  have read := congrArg Mnemonic.instruction? mnemonics
  rw [instruction?_mnemonic, instruction?_mnemonic] at read
  exact Option.some.inj read

end Instruction
end ChipEight
