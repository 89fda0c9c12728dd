import ChipEight.Session
import Mathlib.Algebra.Order.Floor.Div
import Mathlib.GroupTheory.GroupAction.Ring
namespace ChipEight.Pace

def granted : List (UInt32 × UInt32) → Nat
  | [] => 0
  | share :: rest => share.1.toNat + granted rest

def carriedOn (carried : UInt32) : List (UInt32 × UInt32) → UInt32
  | [] => carried
  | share :: rest => carriedOn share.2 rest

variable {speed carried : UInt32} {frames : Nat} {share : UInt32 × UInt32}
  {before window behind row : List (UInt32 × UInt32)}

theorem length_shares (speed : UInt32) (frames : Nat) (carried : UInt32) :
    (shares speed frames carried).length = frames := by
  induction frames generalizing carried with
  | zero => rfl
  | succ frames ih => rw [shares, List.length_cons, ih]

theorem split_exact (speed carried : UInt32) :
    (split speed carried).1.toNat = (carried.toNat + speed.toNat) / frameRate ∧
      (split speed carried).2.toNat = (carried.toNat + speed.toNat) % frameRate := by
  have total := split_total speed carried
  have below := split_carried speed carried
  simp only [frameRate] at *
  omega

theorem shares_total (speed : UInt32) (frames : Nat) (carried : UInt32) :
    frameRate * granted (shares speed frames carried) +
        (carriedOn carried (shares speed frames carried)).toNat =
      carried.toNat + frames * speed.toNat := by
  induction frames generalizing carried with
  | zero => simp [shares, granted, carriedOn]
  | succ frames ih =>
    have one := split_total speed carried
    have rest := ih (split speed carried).2
    rw [shares, granted, carriedOn, Nat.mul_add, Nat.succ_mul]
    omega

theorem shares_behind (cut : shares speed frames carried = before ++ row) :
    row = shares speed row.length (carriedOn carried before) := by
  induction before generalizing frames carried with
  | nil =>
    have length : row.length = frames := by
      rw [← length_shares speed frames carried, cut, List.nil_append]
    rw [length]
    exact cut.symm
  | cons first rest ih =>
    cases frames with
    | zero => cases cut
    | succ frames =>
      rw [shares, List.cons_append] at cut
      obtain ⟨same, cut⟩ := List.cons.inj cut
      rw [carriedOn, ← same]
      exact ih cut

theorem shares_front (cut : shares speed frames carried = window ++ behind) :
    window = shares speed window.length carried := by
  induction window generalizing frames carried with
  | nil => rfl
  | cons first rest ih =>
    cases frames with
    | zero => cases cut
    | succ frames =>
      rw [shares, List.cons_append] at cut
      obtain ⟨same, cut⟩ := List.cons.inj cut
      rw [List.length_cons, shares, same, ← ih (same ▸ cut)]

theorem shares_window (cut : shares speed frames carried = before ++ window ++ behind) :
    window = shares speed window.length (carriedOn carried before) := by
  rw [List.append_assoc] at cut
  exact shares_front (shares_behind cut).symm

theorem carriedOn_append :
    carriedOn carried (before ++ row) = carriedOn (carriedOn carried before) row := by
  induction before generalizing carried with
  | nil => rfl
  | cons share rest ih => exact ih

theorem carriedOn_below (small : carried.toNat < 60) (speed : UInt32) (frames : Nat) :
    (carriedOn carried (shares speed frames carried)).toNat < 60 := by
  induction frames generalizing carried with
  | zero => exact small
  | succ frames ih => exact ih (split_carried speed carried)

theorem window_total (cut : shares speed frames carried = before ++ window ++ behind) :
    60 * granted window + (carriedOn carried (before ++ window)).toNat =
      (carriedOn carried before).toNat + window.length * speed.toNat := by
  have total := shares_total speed window.length (carriedOn carried before)
  rw [← shares_window cut, ← carriedOn_append] at total
  exact total

theorem window_ends (small : carried.toNat < 60)
    (cut : shares speed frames carried = before ++ window ++ behind) :
    (carriedOn carried before).toNat < 60 ∧ (carriedOn carried (before ++ window)).toNat < 60 := by
  have start := carriedOn_below small speed before.length
  have stop := carriedOn_below small speed (before ++ window).length
  rw [← shares_front (cut.trans (List.append_assoc ..))] at start
  rw [← shares_front cut] at stop
  exact ⟨start, stop⟩

theorem window_near (small : carried.toNat < 60)
    (cut : shares speed frames carried = before ++ window ++ behind) :
    granted window = window.length * speed.toNat / 60 ∨
      granted window = window.length * speed.toNat ⌈/⌉ 60 := by
  have total := window_total cut
  obtain ⟨start, stop⟩ := window_ends small cut
  rw [Nat.ceilDiv_eq_add_pred_div]
  generalize window.length * speed.toNat = due at *
  omega

theorem window_second (small : carried.toNat < 60)
    (cut : shares speed frames carried = before ++ window ++ behind)
    (second : window.length = 60) :
    granted window = speed.toNat ∧
      carriedOn carried (before ++ window) = carriedOn carried before := by
  have total := window_total cut
  obtain ⟨start, stop⟩ := window_ends small cut
  rw [second] at total
  constructor
  · omega
  · apply UInt32.toNat_inj.mp
    omega

-- No instruction is lost and none is added at any speed. Every window of frames gets what is due
-- to it up to rounding, and every second gets exactly its speed.
theorem shares_fair (speed carried : UInt32) (frames : Nat) :
    (shares speed frames carried).length = frames ∧
      60 * granted (shares speed frames carried) +
          (carriedOn carried (shares speed frames carried)).toNat =
        carried.toNat + frames * speed.toNat ∧
      (∀ before share behind, shares speed frames carried = before ++ share :: behind →
        share.1.toNat = ((carriedOn carried before).toNat + speed.toNat) / 60 ∧
        share.2.toNat = ((carriedOn carried before).toNat + speed.toNat) % 60 ∧
        share.2.toNat < 60) ∧
      (carried.toNat < 60 → ∀ before window behind,
        shares speed frames carried = before ++ window ++ behind →
        (granted window = window.length * speed.toNat / 60 ∨
          granted window = window.length * speed.toNat ⌈/⌉ 60) ∧
        (window.length = 60 → granted window = speed.toNat ∧
          carriedOn carried (before ++ window) = carriedOn carried before)) := by
  refine ⟨length_shares .., shares_total .., ?_, ?_⟩
  · intro before share behind cut
    have single : [share] = _ := shares_window (cut.trans (List.append_cons ..))
    obtain ⟨named, _⟩ := List.cons.inj single
    rw [named]
    obtain ⟨quotient, remainder⟩ := split_exact speed (carriedOn carried before)
    exact ⟨quotient, remainder, split_carried ..⟩
  · intro small before window behind cut
    exact ⟨window_near small cut, window_second small cut⟩

theorem shares_fair_fastest :
    ∃ before window behind, shares 0xFFFFFFFF 70 59 = before ++ window ++ behind ∧
      before.length = 1 ∧ window.length = 60 ∧ granted window = 0xFFFFFFFF ∧
      carriedOn 59 (before ++ window) = carriedOn 59 before := by
  obtain ⟨length, _, _, windows⟩ := shares_fair 0xFFFFFFFF 59 70
  generalize shares 0xFFFFFFFF 70 59 = row at *
  have cut : row = row.take 1 ++ (row.drop 1).take 60 ++ (row.drop 1).drop 60 := by
    rw [List.append_assoc, List.take_append_drop, List.take_append_drop]
  have second : ((row.drop 1).take 60).length = 60 := by simp [length]
  obtain ⟨_, whole⟩ := windows (by decide) _ _ _ cut
  obtain ⟨sum, back⟩ := whole second
  exact ⟨_, _, _, cut, by simp [length], second, sum, back⟩

end ChipEight.Pace
