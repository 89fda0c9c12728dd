import ChipEight.Fault
namespace ChipEight

def capitalDigits : List Char := "0123456789ABCDEF".toList

def hexValue (digits : List Char) : Nat :=
  digits.foldl (fun value c => value * 16 + capitalDigits.idxOf c) 0

-- A number in capital digits, filled up with zeros to a least width and no further.
structure Hexadecimal (width n : Nat) (text : String) : Prop where
  capital : ∀ c ∈ text.toList, c ∈ capitalDigits
  value : hexValue text.toList = n
  wide : width ≤ text.length
  tight : width < text.length → text.toList.head? ≠ some '0'

variable {n d : Nat}

theorem hexDigit_spec (single : d < 16) :
    hexDigit d ∈ capitalDigits ∧ capitalDigits.idxOf (hexDigit d) = d ∧
      (hexDigit d = '0' → d = 0) := by
  have all : ∀ d : Fin 16, hexDigit d.val ∈ capitalDigits ∧
      capitalDigits.idxOf (hexDigit d.val) = d.val ∧ (hexDigit d.val = '0' → d.val = 0) := by
    decide
  exact all ⟨d, single⟩

theorem hexValue_snoc (digits : List Char) (c : Char) :
    hexValue (digits ++ [c]) = hexValue digits * 16 + capitalDigits.idxOf c := by
  simp [hexValue]

theorem hexValue_zeros (count : Nat) (digits : List Char) :
    hexValue (List.replicate count '0' ++ digits) = hexValue digits := by
  induction count with
  | zero => rfl
  | succ count ih => exact ih

theorem hexDigits_capital (n : Nat) : ∀ c ∈ hexDigits n, c ∈ capitalDigits := by
  fun_induction hexDigits n with
  | case1 n single => simpa using (hexDigit_spec single).1
  | case2 n _ ih =>
    intro c present
    rcases List.mem_append.mp present with earlier | last
    · exact ih c earlier
    · cases List.mem_singleton.mp last
      exact (hexDigit_spec (Nat.mod_lt _ (by decide))).1

theorem hexValue_hexDigits (n : Nat) : hexValue (hexDigits n) = n := by
  fun_induction hexDigits n with
  | case1 n single => simpa [hexValue] using (hexDigit_spec single).2.1
  | case2 n _ ih =>
    rw [hexValue_snoc, ih, (hexDigit_spec (Nat.mod_lt _ (by decide))).2.1]
    exact Nat.div_add_mod' n 16

theorem hexDigits_ne_nil (n : Nat) : hexDigits n ≠ [] := by
  unfold hexDigits
  split <;> simp

theorem hexDigits_head (positive : 0 < n) : (hexDigits n).head? ≠ some '0' := by
  fun_induction hexDigits n with
  | case1 n single =>
    intro zero
    have none := (hexDigit_spec single).2.2 (Option.some.inj zero)
    omega
  | case2 n several ih =>
    obtain ⟨first, rest, digits⟩ := List.exists_cons_of_ne_nil (hexDigits_ne_nil (n / 16))
    rw [digits] at ih ⊢
    exact ih (by omega)

theorem hex_hexadecimal {width : Nat} (positive : 0 < width) (n : Nat) :
    Hexadecimal width n (hex width n) := by
  have chars : (hex width n).toList =
      List.replicate (width - (hexDigits n).length) '0' ++ hexDigits n := by
    simp [hex, List.leftpad]
  have length : (hex width n).length = max width (hexDigits n).length := by
    rw [← String.length_toList, chars, List.length_append, List.length_replicate]
    omega
  refine ⟨?_, ?_, ?_, ?_⟩
  · rw [chars]
    intro c present
    rcases List.mem_append.mp present with filled | digit
    · rw [List.eq_of_mem_replicate filled]
      decide
    · exact hexDigits_capital n c digit
  · rw [chars, hexValue_zeros, hexValue_hexDigits]
  · rw [length]
    exact Nat.le_max_left _ _
  · intro longer
    rw [length] at longer
    have unfilled : width - (hexDigits n).length = 0 := by omega
    rw [chars, unfilled]
    refine hexDigits_head (Nat.pos_of_ne_zero ?_)
    rintro rfl
    have short : (hexDigits 0).length = 1 := by
      unfold hexDigits
      rfl
    omega

end ChipEight
