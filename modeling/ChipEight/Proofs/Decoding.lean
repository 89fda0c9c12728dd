import ChipEight.Instruction
namespace ChipEight

def Alu.digit : Alu → Nat
  | .copy => 0x0
  | .or => 0x1
  | .and => 0x2
  | .xor => 0x3
  | .add => 0x4
  | .sub => 0x5
  | .shiftRight => 0x6
  | .subFrom => 0x7
  | .shiftLeft => 0xE

theorem Alu.ofDigit_digit (op : Alu) : ofDigit? op.digit = some op := by
  cases op <;> rfl

theorem Alu.digit_of_ofDigit {n : Nat} {op : Alu} (named : ofDigit? n = some op) :
    n = op.digit := by
  unfold ofDigit? at named
  split at named <;> cases named <;> rfl

inductive Word.Strange (w : Word) : Prop where
  | same (family : w.family.val = 0x5) (digit : w.n.val ≠ 0)
  | alu (family : w.family.val = 0x8) (digit : ∀ op : Alu, w.n.val ≠ op.digit)
  | differ (family : w.family.val = 0x9) (digit : w.n.val ≠ 0)
  | key (family : w.family.val = 0xE) (pressed : w.kk.toNat ≠ 0x9E) (released : w.kk.toNat ≠ 0xA1)
  | rest (family : w.family.val = 0xF)
      (digits : w.kk.toNat ∉ [0x07, 0x0A, 0x15, 0x18, 0x1E, 0x29, 0x33, 0x55, 0x65])

namespace Instruction

-- The table of the instructions, a rule for each of its rows.
inductive Reads (w : Word) : Instruction → Prop where
  | clear (word : w = 0x00E0) : Reads w .clear
  | ret (word : w = 0x00EE) : Reads w .ret
  | system (family : w.family.val = 0x0) (notClear : w ≠ 0x00E0) (notRet : w ≠ 0x00EE) :
      Reads w (.system w.target)
  | jump (family : w.family.val = 0x1) : Reads w (.jump w.target)
  | call (family : w.family.val = 0x2) : Reads w (.call w.target)
  | isByte (family : w.family.val = 0x3) : Reads w (.skip (.isByte w.x w.kk))
  | notByte (family : w.family.val = 0x4) : Reads w (.skip (.notByte w.x w.kk))
  | same (family : w.family.val = 0x5) (digit : w.n.val = 0) : Reads w (.skip (.same w.x w.y))
  | loadByte (family : w.family.val = 0x6) : Reads w (.loadByte w.x w.kk)
  | addByte (family : w.family.val = 0x7) : Reads w (.addByte w.x w.kk)
  | alu (family : w.family.val = 0x8) (digit : w.n.val = op.digit) : Reads w (.alu op w.x w.y)
  | differ (family : w.family.val = 0x9) (digit : w.n.val = 0) :
      Reads w (.skip (.differ w.x w.y))
  | loadIndex (family : w.family.val = 0xA) : Reads w (.loadIndex w.target)
  | jumpOffset (family : w.family.val = 0xB) : Reads w (.jumpOffset w.target)
  | random (family : w.family.val = 0xC) : Reads w (.random w.x w.kk)
  | draw (family : w.family.val = 0xD) : Reads w (.draw w.x w.y w.n)
  | pressed (family : w.family.val = 0xE) (digits : w.kk.toNat = 0x9E) :
      Reads w (.skip (.pressed w.x))
  | released (family : w.family.val = 0xE) (digits : w.kk.toNat = 0xA1) :
      Reads w (.skip (.released w.x))
  | readDelay (family : w.family.val = 0xF) (digits : w.kk.toNat = 0x07) : Reads w (.readDelay w.x)
  | waitKey (family : w.family.val = 0xF) (digits : w.kk.toNat = 0x0A) : Reads w (.waitKey w.x)
  | setDelay (family : w.family.val = 0xF) (digits : w.kk.toNat = 0x15) : Reads w (.setDelay w.x)
  | setSound (family : w.family.val = 0xF) (digits : w.kk.toNat = 0x18) : Reads w (.setSound w.x)
  | addIndex (family : w.family.val = 0xF) (digits : w.kk.toNat = 0x1E) : Reads w (.addIndex w.x)
  | glyph (family : w.family.val = 0xF) (digits : w.kk.toNat = 0x29) : Reads w (.glyph w.x)
  | decimal (family : w.family.val = 0xF) (digits : w.kk.toNat = 0x33) : Reads w (.decimal w.x)
  | store (family : w.family.val = 0xF) (digits : w.kk.toNat = 0x55) : Reads w (.store w.x)
  | load (family : w.family.val = 0xF) (digits : w.kk.toNat = 0x65) : Reads w (.load w.x)
  | unknown (strange : w.Strange) : Reads w (.unknown w)

variable {w : Word} {instruction : Instruction}

theorem ofWord_reads (w : Word) : Reads w (ofWord w) := by
  have bound := w.family.isLt
  unfold ofWord
  split
  · rename_i family
    split
    · rename_i word
      exact .clear word
    · rename_i notClear
      split
      · rename_i word
        exact .ret word
      · rename_i notRet
        exact .system family notClear notRet
  · rename_i family
    exact .jump family
  · rename_i family
    exact .call family
  · rename_i family
    exact .isByte family
  · rename_i family
    exact .notByte family
  · rename_i family
    split
    · rename_i digit
      exact .same family digit
    · rename_i digit
      exact .unknown (.same family digit)
  · rename_i family
    exact .loadByte family
  · rename_i family
    exact .addByte family
  · rename_i family
    split
    · rename_i named
      exact .alu family (Alu.digit_of_ofDigit named)
    · rename_i unnamed
      refine .unknown (.alu family ?_)
      intro op digit
      rw [digit, Alu.ofDigit_digit] at unnamed
      cases unnamed
  · rename_i family
    split
    · rename_i digit
      exact .differ family digit
    · rename_i digit
      exact .unknown (.differ family digit)
  · rename_i family
    exact .loadIndex family
  · rename_i family
    exact .jumpOffset family
  · rename_i family
    exact .random family
  · rename_i family
    exact .draw family
  · rename_i family
    split
    · rename_i digits
      exact .pressed family digits
    · rename_i digits
      exact .released family digits
    · rename_i pressed released
      exact .unknown (.key family pressed released)
  · -- The last row of the table is what the others have left.
    have family : w.family.val = 0xF := by
      simp only [imp_false] at *
      omega
    split
    · rename_i digits
      exact .readDelay family digits
    · rename_i digits
      exact .waitKey family digits
    · rename_i digits
      exact .setDelay family digits
    · rename_i digits
      exact .setSound family digits
    · rename_i digits
      exact .addIndex family digits
    · rename_i digits
      exact .glyph family digits
    · rename_i digits
      exact .decimal family digits
    · rename_i digits
      exact .store family digits
    · rename_i digits
      exact .load family digits
    · refine .unknown (.rest family ?_)
      simp_all

theorem ofWord_of_strange (strange : w.Strange) : ofWord w = .unknown w := by
  cases strange with
  | same family digit => simp [ofWord, family, digit]
  | alu family digit =>
    cases named : Alu.ofDigit? w.n.val with
    | none => simp [ofWord, family, named]
    | some op => exact absurd (Alu.digit_of_ofDigit named) (digit op)
  | differ family digit => simp [ofWord, family, digit]
  | key family pressed released => simp [ofWord, family]
  | rest family digits =>
    simp only [List.mem_cons, not_or] at digits
    simp [ofWord, family, digits]

theorem ofWord_of_reads (reads : Reads w instruction) : ofWord w = instruction := by
  cases reads with
  | clear word =>
    rw [word]
    rfl
  | ret word =>
    rw [word]
    rfl
  | system family notClear notRet => simp [ofWord, family, notClear, notRet]
  | same family digit => simp [ofWord, family, digit]
  | alu family digit => simp [ofWord, family, digit, Alu.ofDigit_digit]
  | differ family digit => simp [ofWord, family, digit]
  | pressed family digits => simp [ofWord, family, digits]
  | released family digits => simp [ofWord, family, digits]
  | readDelay family digits => simp [ofWord, family, digits]
  | waitKey family digits => simp [ofWord, family, digits]
  | setDelay family digits => simp [ofWord, family, digits]
  | setSound family digits => simp [ofWord, family, digits]
  | addIndex family digits => simp [ofWord, family, digits]
  | glyph family digits => simp [ofWord, family, digits]
  | decimal family digits => simp [ofWord, family, digits]
  | store family digits => simp [ofWord, family, digits]
  | load family digits => simp [ofWord, family, digits]
  | unknown strange => exact ofWord_of_strange strange
  | jump family => simp [ofWord, family]
  | call family => simp [ofWord, family]
  | isByte family => simp [ofWord, family]
  | notByte family => simp [ofWord, family]
  | loadByte family => simp [ofWord, family]
  | addByte family => simp [ofWord, family]
  | loadIndex family => simp [ofWord, family]
  | jumpOffset family => simp [ofWord, family]
  | random family => simp [ofWord, family]
  | draw family => simp [ofWord, family]

theorem ofWord_exact : ofWord w = instruction ↔ Reads w instruction := by
  refine ⟨?_, ofWord_of_reads⟩
  rintro rfl
  exact ofWord_reads w

example : ofWord 0x8AB6 = .alu .shiftRight (.low 0xA) (.low 0xB) := rfl

end Instruction
end ChipEight
