import ChipEight.Proofs.Confinement
import ChipEight.Proofs.Lossless
namespace ChipEight

-- Fx55 saves V0 up to Vx to memory, and Fx65 restores them.
def Word.saving (x : Register) : Word := .ofDigits 0xF x 0x55

def Word.restoring (x : Register) : Word := .ofDigits 0xF x 0x65

namespace Memory

variable {m n : Memory} {address a count more : Nat} {values others : List UInt8}

theorem ext_byte (same : ∀ a, m.byte a = n.byte a) : m = n := by
  have bytes : m.bytes = n.bytes := by
    apply Vector.ext
    intro a inside
    have here := same a
    simpa [byte, inside] using here
  cases m
  cases n
  cases bytes
  rfl

theorem putAll_append :
    m.putAll address (values ++ others) =
      (m.putAll address values).putAll (address + values.length) others := by
  induction values generalizing m address with
  | nil => rfl
  | cons value rest ih =>
    rw [List.cons_append, putAll, putAll, ih, List.length_cons, Nat.add_right_comm, Nat.add_assoc]

theorem bytesFrom_append :
    m.bytesFrom address (count + more) =
      m.bytesFrom address count ++ m.bytesFrom (address + count) more := by
  rw [bytesFrom, ← List.range'_append_1, List.map_append]
  rfl

theorem bytesFrom_putAll (length : values.length = count)
    (inside : address + count ≤ memorySize) :
    (m.putAll address values).bytesFrom address count = values := by
  subst length
  induction values generalizing m address with
  | nil => rfl
  | cons value rest ih =>
    rw [List.length_cons] at inside
    rw [List.length_cons, bytesFrom, List.range'_succ, List.map_cons,
      byte_putAll_first (by omega)]
    exact congrArg (value :: ·) (ih (m := m.put address value) (by omega))

theorem putAll_bytesFrom : m.putAll address (m.bytesFrom address count) = m := by
  induction count generalizing address with
  | zero => rfl
  | succ count ih =>
    have same : m.put address (m.byte address) = m := by
      apply ext_byte
      intro a
      by_cases inside : address < memorySize
      · rw [byte_put _ _ inside]
        split
        · rename_i here
          rw [here]
        · rfl
      · exact byte_put_outside _ _ (Nat.not_lt.mp inside)
    rw [bytesFrom, List.range'_succ, List.map_cons, putAll, same]
    exact ih

end Memory

namespace State

variable {s t : State} {d : Dialect} {dice : Dice} {x : Register} {v : Vector UInt8 16}
  {first count : Nat} {values : List UInt8}

theorem toList_setRegisters (room : first + values.length ≤ 16) :
    (setRegisters v first values).toList =
      v.toList.take first ++ values ++ v.toList.drop (first + values.length) := by
  induction values generalizing v first with
  | nil => simp [setRegisters]
  | cons value rest ih =>
    rw [List.length_cons] at room
    have place : first < v.toList.length := by
      rw [Vector.length_toList]
      omega
    rw [setRegisters, ih (by omega), Vector.toList_setIfInBounds, List.take_add_one,
      List.getElem?_set_self place, List.take_set_of_le (Nat.le_refl _),
      List.drop_set_of_lt (by omega), List.length_cons, Nat.add_right_comm, Nat.add_assoc]
    simp

theorem take_setRegisters (moved : values.length = x.val + 1) :
    (setRegisters v 0 values).toList.take (x.val + 1) = values := by
  have bound := x.isLt
  rw [toList_setRegisters (by omega), List.take_zero, List.nil_append]
  exact List.take_left' moved

theorem length_take_registers : (v.toList.take (x.val + 1)).length = x.val + 1 := by
  have bound := x.isLt
  rw [List.length_take, Vector.length_toList]
  omega

theorem setRegisters_take : setRegisters v 0 (v.toList.take (x.val + 1)) = v := by
  have bound := x.isLt
  have length : (v.toList.take (x.val + 1)).length = x.val + 1 := length_take_registers
  apply Vector.toList_inj.mp
  rw [toList_setRegisters (by omega), length, List.take_zero, List.nil_append, Nat.zero_add]
  exact List.take_append_drop _ _

theorem ofWord_saving : Instruction.ofWord (.saving x) = .store x := by
  revert x
  decide

theorem ofWord_restoring : Instruction.ofWord (.restoring x) = .load x := by
  revert x
  decide

theorem ofWord_decimal : Instruction.ofWord (.ofDigits 0xF x 0x33) = .decimal x := by
  revert x
  decide

theorem index_congr (same : s.i = t.i) :
    (s.advanceIndex d count).i = (t.advanceIndex d count).i := by
  unfold advanceIndex
  rw [same]
  split
  · rfl
  · exact same

theorem saves (s : State) (d : Dialect) (dice : Dice)
    (inside : s.i.toNat + (x.val + 1) ≤ memorySize) :
    ∃ after, s.execute d (.ofWord (.saving x)) dice = .finished after dice ∧ after.v = s.v ∧
      after.memory = s.memory.putAll s.i.toNat (s.v.toList.take (x.val + 1)) ∧
      after.i = (s.advanceIndex d (x.val + 1)).i := by
  rw [ofWord_saving]
  refine ⟨_, execute_completes (.store inside), ?_, ?_, ?_⟩
  · rw [advanceIndex_eq]
  · rw [advanceIndex_eq]
    rfl
  · exact index_congr rfl

theorem restores (s : State) (d : Dialect) (dice : Dice)
    (inside : s.i.toNat + (x.val + 1) ≤ memorySize) :
    ∃ after, s.execute d (.ofWord (.restoring x)) dice = .finished after dice ∧
      after.v = setRegisters s.v 0 (s.memory.bytesFrom s.i.toNat (x.val + 1)) ∧
      after.memory = s.memory ∧ after.i = (s.advanceIndex d (x.val + 1)).i := by
  rw [ofWord_restoring]
  refine ⟨_, execute_completes (.load inside), ?_, ?_, ?_⟩
  · rw [advanceIndex_eq]
  · rw [advanceIndex_eq]
  · exact index_congr rfl

theorem writes_digits (s : State) (d : Dialect) (dice : Dice)
    (inside : s.i.toNat + 3 ≤ memorySize) :
    ∃ after, s.execute d (.ofWord (.ofDigits 0xF x 0x33)) dice = .finished after dice ∧
      after.i = s.i ∧ after.memory = s.memory.putAll s.i.toNat (decimalDigits (s.value x)) := by
  rw [ofWord_decimal]
  exact ⟨_, execute_completes (.decimal inside), rfl, rfl⟩

theorem saved_restored (inside : s.i.toNat + (x.val + 1) ≤ memorySize) :
    ∃ saved restored, s.execute d (.ofWord (.saving x)) dice = .finished saved dice ∧
      { saved with i := s.i }.execute d (.ofWord (.restoring x)) dice =
        .finished restored dice ∧ restored.v = s.v := by
  obtain ⟨saved, stored, kept, written, _⟩ := saves s d dice inside
  obtain ⟨restored, loaded, moved, _⟩ := restores { saved with i := s.i } d dice inside
  refine ⟨saved, restored, stored, loaded, ?_⟩
  have back : saved.memory.bytesFrom s.i.toNat (x.val + 1) = s.v.toList.take (x.val + 1) := by
    rw [written]
    exact Memory.bytesFrom_putAll length_take_registers inside
  rw [moved, back, kept, setRegisters_take]

theorem restored_saved (inside : s.i.toNat + (x.val + 1) ≤ memorySize) :
    ∃ restored saved, s.execute d (.ofWord (.restoring x)) dice = .finished restored dice ∧
      { restored with i := s.i }.execute d (.ofWord (.saving x)) dice = .finished saved dice ∧
      saved.memory = s.memory := by
  obtain ⟨restored, loaded, moved, kept, _⟩ := restores s d dice inside
  obtain ⟨saved, stored, _, written, _⟩ := saves { restored with i := s.i } d dice inside
  refine ⟨restored, saved, loaded, stored, ?_⟩
  rw [written, moved, kept, take_setRegisters Memory.length_bytesFrom, Memory.putAll_bytesFrom]

theorem decimal_digits (value : UInt8) :
    (value / 100).toNat ≤ 9 ∧ (value / 10 % 10).toNat ≤ 9 ∧ (value % 10).toNat ≤ 9 ∧
      100 * (value / 100).toNat + 10 * (value / 10 % 10).toNat + (value % 10).toNat =
        value.toNat := by
  have bound := value.toNat_lt
  have hundreds : (value / 100).toNat = value.toNat / 100 := UInt8.toNat_div _ _
  have tens : (value / 10 % 10).toNat = value.toNat / 10 % 10 := by simp
  have ones : (value % 10).toNat = value.toNat % 10 := UInt8.toNat_mod _ _
  omega

theorem value_of_take {r : Register} (upTo : r.val ≤ x.val)
    (held : s.v.toList.take (x.val + 1) = values) : values[r.val]? = some (s.value r) := by
  rw [← held, List.getElem?_take_of_lt (by omega)]
  simp [value]

theorem decimal_restored (inside : s.i.toNat + 3 ≤ memorySize) :
    ∃ written restored,
      s.execute d (.ofWord (.ofDigits 0xF x 0x33)) dice = .finished written dice ∧
      written.i = s.i ∧ written.execute d (.ofWord 0xF265) dice = .finished restored dice ∧
      (restored.value 0).toNat ≤ 9 ∧ (restored.value 1).toNat ≤ 9 ∧ (restored.value 2).toNat ≤ 9 ∧
      100 * (restored.value 0).toNat + 10 * (restored.value 1).toNat +
        (restored.value 2).toNat = (s.value x).toNat := by
  obtain ⟨written, executed, index, memory⟩ := writes_digits (x := x) s d dice inside
  have again : written.i.toNat + 3 ≤ memorySize := by rwa [index]
  obtain ⟨restored, loaded, moved, _⟩ := restores (x := 2) written d dice again
  refine ⟨written, restored, executed, index, loaded, ?_⟩
  have digits : restored.v.toList.take 3 = decimalDigits (s.value x) := by
    have read : written.memory.bytesFrom written.i.toNat 3 = decimalDigits (s.value x) := by
      rw [memory, index]
      exact Memory.bytesFrom_putAll rfl inside
    rw [moved]
    exact (take_setRegisters (x := 2) Memory.length_bytesFrom).trans read
  have hundreds := value_of_take (x := 2) (r := 0) (by decide) digits
  have tens := value_of_take (x := 2) (r := 1) (by decide) digits
  have ones := value_of_take (x := 2) (r := 2) (by decide) digits
  rw [← Option.some.inj hundreds, ← Option.some.inj tens, ← Option.some.inj ones]
  exact decimal_digits (s.value x)

end State
end ChipEight
