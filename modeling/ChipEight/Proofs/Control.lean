import ChipEight.Proofs.Effects
namespace ChipEight

namespace Instruction

-- Where an instruction that is carried out leads. All states here are those an
-- instruction works on, whose pc is past it.
def pcAfter (dialect : Dialect) (s : State) : Instruction → UInt16
  | .jump target => UInt16.ofNat target.val
  | .call target => UInt16.ofNat target.val
  | .jumpOffset target => UInt16.ofNat (target.val + (s.jumpBase dialect target).toNat)
  | .ret => s.stack.oldestFirst.getLastD s.pc
  | .skip condition => if s.holds condition then s.pc + 2 else s.pc
  | .waitKey _ => s.pc - 2
  | _ => s.pc

def callsAfter (s : State) : Instruction → List UInt16
  | .call _ => s.stack.oldestFirst ++ [s.pc]
  | .ret => s.stack.oldestFirst.dropLast
  | _ => s.stack.oldestFirst

def waitAfter (s : State) : Instruction → Option KeyWait
  | .waitKey x => some ⟨UInt8.ofNat x.val, s.keypad⟩
  | _ => s.wait

end Instruction

namespace State

variable {s : State} {dialect : Dialect} {op : Alu} {x y : Register} {count : Nat}

theorem compute_eq :
    s.compute dialect op x y = { s with v := (s.compute dialect op x y).v } := by
  unfold compute
  split <;> rfl

theorem advanceIndex_eq :
    s.advanceIndex dialect count = { s with i := (s.advanceIndex dialect count).i } := by
  unfold advanceIndex
  split <;> rfl

end State

namespace Completes

variable {dialect : Dialect} {s after : State} {dice rest : Dice} {instruction : Instruction}

theorem pc_eq (completes : Completes dialect s dice instruction after rest) :
    after.pc = instruction.pcAfter dialect s := by
  cases completes with
  | @ret stack address popped =>
    change address = s.stack.oldestFirst.getLastD s.pc
    rw [CallStack.pop_ok popped, List.getLastD_concat]
  | skip holds => exact (if_pos holds).symm
  | stay fails => exact (if_neg (by simp [fails])).symm
  | alu =>
    rw [State.compute_eq]
    rfl
  | store =>
    rw [State.advanceIndex_eq]
    rfl
  | load =>
    rw [State.advanceIndex_eq]
    rfl
  | _ => rfl

theorem calls_eq (completes : Completes dialect s dice instruction after rest) :
    after.stack.oldestFirst = instruction.callsAfter s := by
  cases completes with
  | ret popped =>
    change _ = s.stack.oldestFirst.dropLast
    rw [CallStack.pop_ok popped, List.dropLast_concat]
  | call pushed => exact CallStack.push_ok pushed
  | alu =>
    rw [State.compute_eq]
    rfl
  | store =>
    rw [State.advanceIndex_eq]
    rfl
  | load =>
    rw [State.advanceIndex_eq]
    rfl
  | _ => rfl

theorem wait_eq (completes : Completes dialect s dice instruction after rest) :
    after.wait = instruction.waitAfter s := by
  cases completes with
  | alu =>
    rw [State.compute_eq]
    rfl
  | store =>
    rw [State.advanceIndex_eq]
    rfl
  | load =>
    rw [State.advanceIndex_eq]
    rfl
  | _ => rfl

theorem waits {wait : KeyWait} (completes : Completes dialect s dice instruction after rest)
    (unwaiting : s.wait = none) (waiting : after.wait = some wait) :
    ∃ x, instruction = .waitKey x ∧ wait = ⟨UInt8.ofNat x.val, s.keypad⟩ ∧
      after = { s with pc := s.pc - 2, wait := some wait } := by
  have came := completes.wait_eq.symm.trans waiting
  cases instruction with
  | waitKey x =>
    cases completes
    cases came
    exact ⟨x, rfl, rfl, rfl⟩
  | _ => cases unwaiting.symm.trans came

end Completes
end ChipEight
