import ChipEight.Proofs.Confinement
namespace ChipEight

def State.number (s : State) (r : Register) : Int := (s.value r).toNat

namespace Word

def shifted (w : Word) (d : Dialect) : Register := if d.shiftsVy then w.y else w.x

structure Takes (w : Word) (s after : State) (a b : Register) : Prop where
  enough : after.number .flag = 1 ↔ s.number a ≥ s.number b
  difference : w.x ≠ .flag →
    s.number a - s.number b = after.number w.x - 256 * (1 - after.number .flag)

-- The operations that report in VF, a rule for each in whole numbers: what VF tells, and what
-- Vx then holds unless it is VF itself.
inductive Reckons (w : Word) (d : Dialect) (s after : State) : Prop where
  | add (digit : w.n.val = 0x4)
      (carry : after.number .flag = 1 ↔ s.number w.x + s.number w.y > 255)
      (sum : w.x ≠ .flag →
        s.number w.x + s.number w.y = 256 * after.number .flag + after.number w.x)
  | sub (digit : w.n.val = 0x5) (takes : w.Takes s after w.x w.y)
  | subFrom (digit : w.n.val = 0x7) (takes : w.Takes s after w.y w.x)
  | shiftRight (digit : w.n.val = 0x6)
      (lowest : after.number .flag = s.number (w.shifted d) % 2)
      (halves : w.x ≠ .flag →
        s.number (w.shifted d) = 2 * after.number w.x + after.number .flag)
  | shiftLeft (digit : w.n.val = 0xE)
      (highest : after.number .flag = s.number (w.shifted d) / 128)
      (doubles : w.x ≠ .flag →
        2 * s.number (w.shifted d) = 256 * after.number .flag + after.number w.x)

end Word

namespace Alu

variable (a b : UInt8)

theorem add_carry :
    a.toNat + b.toNat = 256 * (decide (255 < a.toNat + b.toNat)).toNat + (a + b).toNat := by
  have left := a.toNat_lt
  have right := b.toNat_lt
  rw [UInt8.toNat_add]
  by_cases above : 255 < a.toNat + b.toNat
  · simp only [above, decide_true, Bool.toNat_true]
    omega
  · simp only [above, decide_false, Bool.toNat_false]
    omega

theorem sub_borrow :
    (a.toNat : Int) - b.toNat = (a - b).toNat - 256 * (1 - ((decide (b ≤ a)).toNat : Int)) := by
  have left := a.toNat_lt
  have right := b.toNat_lt
  rw [UInt8.toNat_sub]
  by_cases enough : b ≤ a
  · have below : b.toNat ≤ a.toNat := UInt8.le_iff_toNat_le.mp enough
    simp only [enough, decide_true, Bool.toNat_true]
    omega
  · have above : ¬ b.toNat ≤ a.toNat := fun below => enough (UInt8.le_iff_toNat_le.mpr below)
    simp only [enough, decide_false, Bool.toNat_false]
    omega

theorem shiftRight_bit :
    (a.toNat % 2 == 1).toNat = a.toNat % 2 ∧ a.toNat = 2 * (a >>> 1).toNat + a.toNat % 2 := by
  have half : (a >>> 1).toNat = a.toNat / 2 := by simp [Nat.shiftRight_eq_div_pow]
  constructor
  · rcases Nat.mod_two_eq_zero_or_one a.toNat with even | odd
    · rw [even]
      rfl
    · rw [odd]
      rfl
  · rw [half]
    omega

theorem shiftLeft_bit :
    (decide (128 ≤ a.toNat)).toNat = a.toNat / 128 ∧
      2 * a.toNat = 256 * (a.toNat / 128) + (a <<< 1).toNat := by
  have bound := a.toNat_lt
  have doubled : (a <<< 1).toNat = 2 * a.toNat % 256 := by
    simp [Nat.shiftLeft_eq, Nat.mul_comm]
  constructor
  · by_cases high : 128 ≤ a.toNat
    · simp only [high, decide_true, Bool.toNat_true]
      omega
    · simp only [high, decide_false, Bool.toNat_false]
      omega
  · rw [doubled]
    omega

end Alu

namespace State

variable {s after : State} {w : Word} {d : Dialect} {op : Alu} {a b : Register}
  {result : UInt8} {flag : Bool}

theorem compute_written (s : State) (d : Dialect) (op : Alu) (x y : Register)
    (applied : op.apply d (s.value x) (s.value y) = (result, some flag)) :
    (s.compute d op x y).number .flag = flag.toNat ∧
      (x ≠ .flag → (s.compute d op x y).number x = result.toNat) := by
  have written : s.compute d op x y = (s.setV x result).setFlag flag := by
    rw [compute, applied]
  rw [written]
  constructor
  · unfold number setFlag
    rw [value_setV_self]
    cases flag <;> rfl
  · intro other
    unfold number
    rw [value_setFlag other, value_setV_self]

theorem number_eq_one {p : Prop} [Decidable p] : ((decide p).toNat : Int) = 1 ↔ p := by
  by_cases holds : p
  · simp [holds]
  · simp [holds]

theorem takes_written (flag : after.number .flag = (decide (s.value b ≤ s.value a)).toNat)
    (result : w.x ≠ .flag → after.number w.x = (s.value a - s.value b).toNat) :
    w.Takes s after a b := by
  constructor
  · rw [flag, number_eq_one, UInt8.le_iff_toNat_le, number, number]
    omega
  · intro other
    rw [flag, result other]
    exact Alu.sub_borrow (s.value a) (s.value b)

theorem value_shifted :
    (if d.shiftsVy then s.value w.y else s.value w.x) = s.value (w.shifted d) := by
  unfold Word.shifted
  split <;> rfl

theorem reckons_add (digit : w.n.val = 0x4)
    (flag : after.number .flag =
      (decide (255 < (s.value w.x).toNat + (s.value w.y).toNat)).toNat)
    (result : w.x ≠ .flag → after.number w.x = (s.value w.x + s.value w.y).toNat) :
    w.Reckons d s after := by
  have total := Alu.add_carry (s.value w.x) (s.value w.y)
  refine .add digit ?_ ?_
  · rw [flag, number_eq_one, number, number]
    omega
  · intro other
    rw [flag, result other, number, number]
    omega

theorem reckons_shiftRight (digit : w.n.val = 0x6)
    (flag : after.number .flag = ((s.value (w.shifted d)).toNat % 2 == 1).toNat)
    (result : w.x ≠ .flag → after.number w.x = (s.value (w.shifted d) >>> 1).toNat) :
    w.Reckons d s after := by
  obtain ⟨lowest, halves⟩ := Alu.shiftRight_bit (s.value (w.shifted d))
  rw [lowest] at flag
  refine .shiftRight digit ?_ ?_
  · rw [flag, number]
    omega
  · intro other
    rw [flag, result other, number]
    omega

theorem reckons_shiftLeft (digit : w.n.val = 0xE)
    (flag : after.number .flag = (decide (128 ≤ (s.value (w.shifted d)).toNat)).toNat)
    (result : w.x ≠ .flag → after.number w.x = (s.value (w.shifted d) <<< 1).toNat) :
    w.Reckons d s after := by
  obtain ⟨highest, doubles⟩ := Alu.shiftLeft_bit (s.value (w.shifted d))
  rw [highest] at flag
  refine .shiftLeft digit ?_ ?_
  · rw [flag, number]
    omega
  · intro other
    rw [flag, result other, number]
    omega

theorem compute_reckons (digit : w.n.val = op.digit)
    (reports : op.digit ∈ [0x4, 0x5, 0x6, 0x7, 0xE]) :
    ∃ flag : Bool, (s.compute d op w.x w.y).number .flag = flag.toNat ∧
      w.Reckons d s (s.compute d op w.x w.y) := by
  cases op with
  | add =>
    obtain ⟨flag, result⟩ := compute_written s d .add w.x w.y rfl
    exact ⟨_, flag, reckons_add digit flag result⟩
  | sub =>
    obtain ⟨flag, result⟩ := compute_written s d .sub w.x w.y rfl
    exact ⟨_, flag, .sub digit (takes_written flag result)⟩
  | subFrom =>
    obtain ⟨flag, result⟩ := compute_written s d .subFrom w.x w.y rfl
    exact ⟨_, flag, .subFrom digit (takes_written flag result)⟩
  | shiftRight =>
    obtain ⟨flag, result⟩ := compute_written s d .shiftRight w.x w.y rfl
    rw [value_shifted] at flag result
    exact ⟨_, flag, reckons_shiftRight digit flag result⟩
  | shiftLeft =>
    obtain ⟨flag, result⟩ := compute_written s d .shiftLeft w.x w.y rfl
    rw [value_shifted] at flag result
    exact ⟨_, flag, reckons_shiftLeft digit flag result⟩
  | copy => exact absurd reports (by decide)
  | or => exact absurd reports (by decide)
  | and => exact absurd reports (by decide)
  | xor => exact absurd reports (by decide)

theorem execute_alu (family : w.family.val = 0x8) (digit : w.n.val = op.digit) (dice : Dice) :
    s.execute d (.ofWord w) dice = .finished (s.compute d op w.x w.y) dice := by
  rw [Instruction.ofWord_of_reads (.alu family digit)]
  rfl

end State

-- 8xy4 to 8xy7 and 8xyE agree with whole numbers, whichever registers x and y name, and VF holds
-- what is reported even where it is Vx.
theorem arithmetic_exact {w : Word} (family : w.family.val = 0x8)
    (digit : w.n.val ∈ [0x4, 0x5, 0x6, 0x7, 0xE]) (s : State) (d : Dialect) (dice : Dice) :
    ∃ after, s.execute d (.ofWord w) dice = .finished after dice ∧
      (after.number .flag = 0 ∨ after.number .flag = 1) ∧ w.Reckons d s after ∧
      (∀ r, r ≠ w.x → r ≠ .flag → after.value r = s.value r) ∧
      after = { s with v := after.v } := by
  obtain ⟨op, named⟩ : ∃ op : Alu, w.n.val = op.digit := by
    simp only [List.mem_cons, List.not_mem_nil, or_false] at digit
    rcases digit with four | five | six | seven | fourteen
    · exact ⟨.add, four⟩
    · exact ⟨.sub, five⟩
    · exact ⟨.shiftRight, six⟩
    · exact ⟨.subFrom, seven⟩
    · exact ⟨.shiftLeft, fourteen⟩
  obtain ⟨flag, reported, reckons⟩ :=
    State.compute_reckons (s := s) (d := d) named (named ▸ digit)
  refine ⟨_, State.execute_alu family named dice, ?_, reckons, ?_, State.compute_eq⟩
  · rw [reported]
    cases flag
    · exact .inl rfl
    · exact .inr rfl
  · intro r other unflagged
    exact State.value_compute other fun _ => unflagged

theorem arithmetic_exact_doubled :
    ∃ (s after : State) (dice : Dice), s.number .flag = 200 ∧
      s.execute .vip (.ofWord 0x8FF4) dice = .finished after dice ∧ after.number .flag = 1 := by
  obtain ⟨s, full⟩ : ∃ s : State, s.number .flag = 200 :=
    ⟨State.fresh.setV .flag 200, congrArg (fun value => (value.toNat : Int)) State.value_setV_self⟩
  obtain ⟨after, executed, _, reckons, _⟩ :=
    arithmetic_exact (w := 0x8FF4) (by decide) (by decide) s .vip (.ofList [])
  have carried : after.number .flag = 1 := by
    cases reckons with
    | add _ carry =>
      apply carry.mpr
      change s.number .flag + s.number .flag > 255
      omega
    | _ digit => exact absurd digit (by decide)
  exact ⟨s, after, .ofList [], full, executed, carried⟩

end ChipEight
