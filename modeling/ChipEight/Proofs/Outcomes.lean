import ChipEight.Proofs.Confinement
import ChipEight.Proofs.Halting
namespace ChipEight

namespace Word

inductive Overruns (w : Word) (s : State) : Prop where
  | skip (skips : w.Skips s) (last : 0xFFFE ≤ s.pc.toNat)
  | wait (waits : w.waits = true) (first : s.pc.toNat < 2)
  | strange (strange : w.Strange) (first : s.pc.toNat < 2)

end Word

variable {w : Word} {s : State} {dialect : Dialect} {fault : Fault}

theorem traps_iff_overruns : Traps s (.ofWord w) ↔ w.Overruns s := by
  constructor
  · intro traps
    generalize read : Instruction.ofWord w = instruction at traps
    have reads := Instruction.ofWord_exact.mp read
    cases traps with
    | skip holds last => exact .skip (Word.skips_iff.mpr ⟨_, read, holds⟩) last
    | waitKey first =>
      cases reads with
      | waitKey family digits => exact .wait (Word.waits_iff.mpr ⟨family, digits⟩) first
    | unknown first =>
      cases reads with
      | unknown strange => exact .strange strange first
  · intro overruns
    cases overruns with
    | skip skips last =>
      obtain ⟨condition, read, holds⟩ := Word.skips_iff.mp skips
      rw [read]
      exact .skip holds last
    | wait waits first =>
      obtain ⟨family, digits⟩ := Word.waits_iff.mp waits
      rw [Instruction.ofWord_of_reads (.waitKey family digits)]
      exact .waitKey first
    | strange strange first =>
      rw [Instruction.ofWord_of_strange strange]
      exact .unknown first

-- A strange word is only refused at an address of its own, and no other word both fails and traps.
theorem not_traps_of_fails {instruction : Instruction} (fails : Fails dialect s instruction fault) :
    ¬ Traps s instruction := by
  intro traps
  cases traps with
  | skip => cases fails with
    | range reaches => cases reaches
  | waitKey => cases fails with
    | range reaches => cases reaches
  | unknown first => cases fails with
    | range reaches => cases reaches
    | unknown _ past => exact absurd first (Nat.not_lt.mpr past)

theorem fails_iff_stays :
    Fails dialect s (.ofWord w) fault ↔ ¬ w.Overruns s ∧ w.Refused dialect s fault := by
  constructor
  · intro fails
    have stays : ¬ w.Overruns s := fun overruns =>
      not_traps_of_fails fails (traps_iff_overruns.mpr overruns)
    exact ⟨stays, (fails_iff_refused.mp fails).1⟩
  · rintro ⟨stays, refused⟩
    refine fails_iff_refused.mpr ⟨refused, fun strange => ?_⟩
    exact Nat.not_lt.mp fun first => stays (.strange strange first)

-- No state and no word is left out: there is no result where the pc would pass an end, a fault that
-- leaves everything alone for each reason a word can be refused for, and otherwise success.
theorem execute_outcomes (dialect : Dialect) (s : State) (w : Word) (dice : Dice) :
    ((∃ trap, s.execute dialect (.ofWord w) dice = .trapped trap) ↔ w.Overruns s) ∧
      (∀ fault after rest, s.execute dialect (.ofWord w) dice = .failed fault after rest ↔
        ¬ w.Overruns s ∧ w.Refused dialect s fault ∧ after = s ∧ rest = dice) ∧
      ((∃ after rest, s.execute dialect (.ofWord w) dice = .finished after rest) ↔
        ¬ w.Overruns s ∧ ∀ fault, ¬ w.Refused dialect s fault) := by
  have trapped : (∃ trap, s.execute dialect (.ofWord w) dice = .trapped trap) ↔ w.Overruns s :=
    State.execute_trapped_iff.trans traps_iff_overruns
  have failed : ∀ fault after rest, s.execute dialect (.ofWord w) dice = .failed fault after rest ↔
      ¬ w.Overruns s ∧ w.Refused dialect s fault ∧ after = s ∧ rest = dice := by
    intro fault after rest
    rw [State.execute_failed_iff, fails_iff_stays]
    constructor
    · rintro ⟨same, kept, stays, refused⟩
      exact ⟨stays, refused, same, kept⟩
    · rintro ⟨stays, refused, same, kept⟩
      exact ⟨same, kept, stays, refused⟩
  refine ⟨trapped, failed, ?_, ?_⟩
  · rintro ⟨after, rest, finished⟩
    have stays : ¬ w.Overruns s := by
      intro overruns
      obtain ⟨_, again⟩ := trapped.mpr overruns
      cases finished.symm.trans again
    refine ⟨stays, ?_⟩
    intro fault refused
    cases finished.symm.trans ((failed fault s dice).mpr ⟨stays, refused, rfl, rfl⟩)
  · rintro ⟨stays, unrefused⟩
    rcases State.completes_or_fails_or_traps dialect s dice (.ofWord w) with
      ⟨after, rest, completes⟩ | ⟨fault, fails⟩ | traps
    · exact ⟨after, rest, State.execute_completes completes⟩
    · exact absurd (fails_iff_stays.mp fails).2 (unrefused fault)
    · exact absurd (traps_iff_overruns.mp traps) stays

end ChipEight
