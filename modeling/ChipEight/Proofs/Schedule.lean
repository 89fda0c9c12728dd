import ChipEight.Proofs.Footprint
import ChipEight.Proofs.Halting
import ChipEight.Session
namespace ChipEight

namespace Pace

def due (speed : UInt32) (frames : Nat) : Nat := frames * speed.toNat / frameRate

theorem split_due {speed carried : UInt32} {frames : Nat}
    (carries : carried.toNat = frames * speed.toNat % frameRate) :
    due speed frames + (split speed carried).1.toNat = due speed (frames + 1) ∧
      (split speed carried).2.toNat = (frames + 1) * speed.toNat % frameRate := by
  have total := split_total speed carried
  have below := split_carried speed carried
  rw [carries] at total
  simp only [due, Nat.succ_mul, frameRate] at *
  generalize frames * speed.toNat = steps at *
  omega

end Pace

inductive Advances (first : Machine) : List Moment → Machine → Prop where
  | nil : Advances first [] first
  | step (earlier : Advances first steps m) (ran : m.step = .ok turn) (done : turn.reply = .done) :
      Advances first (⟨m, .step, turn⟩ :: steps) turn.machine

structure Frame where
  steps : List Moment
  stepped : Machine

def Frame.draws (frame : Frame) : Bool := frame.steps.any Moment.draws

def stepCount : List Frame → Nat
  | [] => 0
  | frame :: earlier => stepCount earlier + frame.steps.length

-- Frames by the clock, the latest first: the steps that are due, a tick, and the
-- picture is asked for.
inductive Played (first : Machine) (speed : UInt32) : List Frame → Machine → Prop where
  | start : Played first speed [] first
  | frame (earlier : Played first speed frames m) (advances : Advances m steps stepped)
      (share : Pace.due speed frames.length + steps.length = Pace.due speed (frames.length + 1)) :
      Played first speed (⟨steps, stepped⟩ :: frames) stepped.tick.takeFrame.1

inductive Interrupted (first : Machine) (speed : UInt32) : List Frame → Machine → Fault → Prop where
  | step (earlier : Played first speed frames m) (advances : Advances m steps failing)
      (within : Pace.due speed frames.length + steps.length < Pace.due speed (frames.length + 1))
      (ran : failing.step = .ok turn) (refused : turn.reply = .refused fault) :
      Interrupted first speed frames failing fault

variable {m first last : Machine} {steps past : List Moment} {frames : List Frame}
  {speed : UInt32} {turn : Turn} {frame : Frame}

theorem Machine.stepped_reply (stepped : Stepped m turn) :
    turn.reply = .done ∨ ∃ fault, turn.reply = .refused fault ∧
      turn.machine.state.pc = m.state.pc := by
  cases stepped_answered stepped with
  | unloaded _ refused same => exact .inr ⟨_, refused, by rw [same]⟩
  | halted _ refused same => exact .inr ⟨_, refused, by rw [same]⟩
  | failed _ _ refused only => exact .inr ⟨_, refused, by rw [only]⟩
  | done _ done => exact .inl done

theorem Machine.takeFrame_drawn : m.takeFrame.1.state.drawn = false := by
  cases drawn : m.state.drawn <;> simp [takeFrame, drawn]

theorem Machine.takeFrame_screen : m.takeFrame.1.state.screen = m.state.screen := by
  obtain ⟨_, _, _, touched⟩ : m.Touched m.takeFrame.1 := touched_takeFrame
  rw [touched]

namespace Advances

theorem runs (advances : Advances first steps last) : Runs first steps last := by
  induction advances with
  | nil => exact .nil
  | step _ ran _ ih => exact .call ih ran

theorem drawn (advances : Advances first steps last) :
    last.state.drawn = (first.state.drawn || steps.any Moment.draws) := by
  induction advances with
  | nil => exact (Bool.or_false _).symm
  | step _ ran _ ih =>
    rw [Machine.stepped_drawn (Machine.step_ok_iff.mp ran), ih, List.any_cons, Bool.or_assoc,
      Bool.or_comm (List.any _ _)]

-- The flag tells of the steps alone where it was not set before them.
theorem draws (advances : Advances first steps last) (undrawn : first.state.drawn = false) :
    last.state.drawn = Frame.draws ⟨steps, last⟩ := by
  rw [advances.drawn, undrawn]
  rfl

theorem screen (advances : Advances first steps last) (still : steps.any Moment.draws = false) :
    last.state.screen = first.state.screen := by
  induction advances with
  | nil => rfl
  | step _ ran _ ih =>
    obtain ⟨stillNow, stillBefore⟩ := Bool.or_eq_false_iff.mp (List.any_cons.symm.trans still)
    exact (Machine.stepped_screen (Machine.step_ok_iff.mp ran) stillNow).trans (ih stillBefore)

end Advances

theorem Reached.advances (reached : Reached m past) (count : Nat) :
    (∃ steps last, Advances m steps last ∧ steps.length = count) ∨
      ∃ steps failing turn fault, Advances m steps failing ∧ steps.length < count ∧
        failing.step = .ok turn ∧ turn.reply = .refused fault := by
  induction count with
  | zero => exact .inl ⟨_, _, .nil, rfl⟩
  | succ count ih =>
    rcases ih with ⟨steps, last, advances, length⟩ |
      ⟨steps, failing, turn, fault, advances, before, ran, refused⟩
    · obtain ⟨turn, ran⟩ := Machine.step_answers (reached.runs advances.runs).sound
      rcases Machine.stepped_reply (Machine.step_ok_iff.mp ran) with done | ⟨fault, refused, _⟩
      · exact .inl ⟨_, _, .step advances ran done, congrArg Nat.succ length⟩
      · exact .inr ⟨_, _, _, _, advances, length ▸ Nat.lt_succ_self _, ran, refused⟩
    · exact .inr ⟨_, _, _, _, advances, Nat.lt_succ_of_lt before, ran, refused⟩

namespace Played

theorem runs (played : Played first speed frames last) : ∃ since, Runs first since last := by
  induction played with
  | start => exact ⟨_, .nil⟩
  | @frame _ _ _ stepped _ advances _ ih =>
    obtain ⟨since, runs⟩ := ih
    have ticked : stepped.handle .tick = .ok _ := rfl
    have taken : stepped.tick.handle .takeFrame = .ok _ := rfl
    exact ⟨_, .call (.call (runs.append advances.runs) ticked) taken⟩

theorem steps_due (played : Played first speed frames last) :
    stepCount frames = Pace.due speed frames.length := by
  induction played with
  | start => simp [stepCount, Pace.due]
  | frame _ _ share ih =>
    rw [stepCount, ih]
    exact share

theorem undrawn (played : Played first speed frames last) (undrawn : first.state.drawn = false) :
    last.state.drawn = false := by
  cases played with
  | start => exact undrawn
  | frame => exact Machine.takeFrame_drawn

theorem screen (played : Played first speed frames last) :
    last.state.screen = (frames.find? Frame.draws).elim first.state.screen (·.stepped.state.screen) := by
  induction played with
  | start => rfl
  | @frame frames m steps stepped _ advances _ ih =>
    rw [Machine.takeFrame_screen, List.find?_cons]
    cases draws : Frame.draws ⟨steps, stepped⟩ with
    | true => rfl
    | false => exact (advances.screen draws).trans ih

end Played

theorem Reached.played (reached : Reached m past) (speed : UInt32) (count : Nat) :
    (∃ frames last, Played m speed frames last ∧ frames.length = count) ∨
      ∃ frames failing fault, Interrupted m speed frames failing fault ∧ frames.length < count := by
  induction count with
  | zero => exact .inl ⟨_, _, .start, rfl⟩
  | succ count ih =>
    rcases ih with ⟨frames, last, played, length⟩ | ⟨frames, failing, fault, interrupted, before⟩
    · obtain ⟨since, runs⟩ := played.runs
      have monotone : Pace.due speed frames.length ≤ Pace.due speed (frames.length + 1) :=
        Nat.div_le_div_right (Nat.mul_le_mul_right _ (Nat.le_succ _))
      rcases (reached.runs runs).advances
          (Pace.due speed (frames.length + 1) - Pace.due speed frames.length) with
        ⟨steps, stepped, advances, share⟩ |
        ⟨steps, failing, turn, fault, advances, within, ran, refused⟩
      · exact .inl ⟨_, _, .frame played advances (by omega), congrArg Nat.succ length⟩
      · exact .inr ⟨_, _, _, .step played advances (by omega) ran refused,
          length ▸ Nat.lt_succ_self _⟩
    · exact .inr ⟨_, _, _, interrupted, Nat.lt_succ_of_lt before⟩

end ChipEight
