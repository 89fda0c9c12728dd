import ChipEight.Proofs.Control
import ChipEight.Proofs.Runs
namespace ChipEight

theorem toNat_add_two {a : UInt16} (room : a.toNat + 2 < 0x10000) : (a + 2).toNat = a.toNat + 2 := by
  simp [UInt16.toNat_add, Nat.mod_eq_of_lt room]

theorem toNat_sub_two {a : UInt16} (past : 2 ≤ a.toNat) : (a - 2).toNat = a.toNat - 2 :=
  UInt16.toNat_sub_of_le _ _ (UInt16.le_iff_toNat_le.mpr past)

theorem toNat_ofNat_le {n bound : Nat} (le : n ≤ bound) : (UInt16.ofNat n).toNat ≤ bound := by
  rw [UInt16.toNat_ofNat']
  exact Nat.le_trans (Nat.mod_le _ _) le

structure Returnable (address : UInt16) : Prop where
  even : address.toNat % 2 = 0
  past : 2 ≤ address.toNat
  inside : address.toNat ≤ memorySize

def Instruction.leaps : Instruction → Bool
  | .jump _ | .call _ | .jumpOffset _ => true
  | _ => false

namespace Instruction

variable {dialect : Dialect} {s : State} {instruction : Instruction}

theorem pcAfter_leap (leaps : instruction.leaps = true) :
    (instruction.pcAfter dialect s).toNat ≤ 0x10FE := by
  cases instruction with
  | jump target => exact toNat_ofNat_le (Nat.le_trans (Nat.le_of_lt target.isLt) (by decide))
  | call target => exact toNat_ofNat_le (Nat.le_trans (Nat.le_of_lt target.isLt) (by decide))
  | jumpOffset target =>
    have base := (s.jumpBase dialect target).toNat_lt
    have start := target.isLt
    exact toNat_ofNat_le (by omega)
  | _ => cases leaps

-- A skip may lead two words on, and so past the end of memory, but never to an odd pc.
theorem pcAfter_straight (straight : instruction.leaps = false) (here : Returnable s.pc)
    (calls : ∀ address ∈ s.stack.oldestFirst, Returnable address) :
    (instruction.pcAfter dialect s).toNat % 2 = 0 ∧
      (instruction.pcAfter dialect s).toNat ≤ memorySize + 2 := by
  obtain ⟨even, past, inside⟩ := here
  simp only [memorySize] at inside
  cases instruction with
  | jump => cases straight
  | call => cases straight
  | jumpOffset => cases straight
  | ret =>
    have back : Returnable (s.stack.oldestFirst.getLastD s.pc) := by
      rw [List.getLastD_eq_getLast?]
      cases last : s.stack.oldestFirst.getLast? with
      | none => exact ⟨even, past, inside⟩
      | some address => exact calls address (List.mem_of_getLast? last)
    exact ⟨back.even, Nat.le_add_right_of_le back.inside⟩
  | skip condition =>
    change (if s.holds condition then s.pc + 2 else s.pc).toNat % 2 = 0 ∧
      (if s.holds condition then s.pc + 2 else s.pc).toNat ≤ 4098
    split
    · rw [toNat_add_two (by omega)]
      omega
    · omega
  | waitKey x =>
    change (s.pc - 2).toNat % 2 = 0 ∧ (s.pc - 2).toNat ≤ 4098
    rw [toNat_sub_two past]
    omega
  | _ => exact ⟨even, Nat.le_add_right_of_le inside⟩

theorem callsAfter_returnable (here : Returnable s.pc)
    (calls : ∀ address ∈ s.stack.oldestFirst, Returnable address) :
    ∀ address ∈ instruction.callsAfter s, Returnable address := by
  intro address present
  cases instruction with
  | call target =>
    rcases List.mem_append.mp present with earlier | last
    · exact calls address earlier
    · cases List.mem_singleton.mp last
      exact here
  | ret => exact calls address (List.dropLast_subset _ present)
  | _ => exact calls address present

end Instruction

-- Checked sums of the pc never pass either end behind an instruction in memory.
theorem not_traps {s : State} {instruction : Instruction} (here : Returnable s.pc) :
    ¬ Traps s instruction := by
  obtain ⟨_, past, inside⟩ := here
  simp only [memorySize] at inside
  intro traps
  cases traps with
  | skip _ last => omega
  | waitKey first => omega
  | unknown first => omega

namespace Machine

structure Awaits (m : Machine) (wait : KeyWait) : Prop extends Running m where
  instruction : ∃ w x, m.Fetches w ∧ Instruction.ofWord w = .waitKey x ∧
    wait.register = UInt8.ofNat x.val

structure Sound (m : Machine) : Prop where
  pc : m.state.pc.toNat ≤ 0x10FE
  calls : ∀ address ∈ m.state.stack.oldestFirst, Returnable address
  waits : ∀ wait, m.state.wait = some wait → m.Awaits wait

variable {m later : Machine} {wait : KeyWait} {w : Word} {event : Event} {turn : Turn}
  {events : List Event} {past since : List Moment}

theorem Awaits.named (awaits : m.Awaits wait) : wait.register.toNat < 16 := by
  obtain ⟨_, x, _, _, named⟩ := awaits.instruction
  rw [named, UInt8.toNat_ofNat']
  exact Nat.lt_of_le_of_lt (Nat.mod_le _ _) x.isLt

theorem Fetches.returnable (fetches : m.Fetches w) : Returnable m.state.past.pc := by
  obtain ⟨even, inside, _⟩ := fetches
  simp only [memorySize] at inside
  have moved : m.state.past.pc.toNat = m.state.pc.toNat + 2 := toNat_add_two (by omega)
  refine ⟨?_, ?_, ?_⟩ <;> rw [moved]
  · omega
  · omega
  · simp only [memorySize]
    omega

theorem empty_sound (dialect : Dialect) (seed : Option UInt64) (entropy : Dice) :
    (empty dialect seed entropy).Sound where
  pc := (by decide : programStart.toNat ≤ 0x10FE)
  calls := nofun
  waits := nofun

theorem started_sound (m : Machine) (program : List UInt8) (entropy : Dice) :
    (m.started program entropy).Sound where
  pc := (by decide : programStart.toNat ≤ 0x10FE)
  calls := nofun
  waits := nofun

theorem touched_awaits (touched : m.Touched later) (awaits : m.Awaits wait) :
    later.Awaits wait := by
  obtain ⟨_, _, _, rfl⟩ := touched
  obtain ⟨⟨loaded, unhalted⟩, w, x, fetches, read, named⟩ := awaits
  exact ⟨⟨loaded, unhalted⟩, w, x, fetches.same rfl rfl, read, named⟩

theorem touched_sound (touched : m.Touched later) (sound : m.Sound) : later.Sound := by
  have waits := sound.waits
  obtain ⟨_, _, _, rfl⟩ := touched
  refine ⟨sound.pc, sound.calls, ?_⟩
  intro wait waiting
  exact touched_awaits ⟨_, _, _, rfl⟩ (waits wait waiting)

theorem completes_sound {after : State} {rest : Dice} (sound : m.Sound) (ready : m.Ready)
    (fetches : m.Fetches w)
    (completes : Completes m.dialect m.state.past m.dice (.ofWord w) after rest) :
    Sound { m with state := after, dice := rest } := by
  have here := fetches.returnable
  refine ⟨?_, ?_, ?_⟩
  · change after.pc.toNat ≤ 0x10FE
    rw [completes.pc_eq]
    cases leaps : (Instruction.ofWord w).leaps with
    | true => exact Instruction.pcAfter_leap leaps
    | false =>
      exact Nat.le_trans (Instruction.pcAfter_straight leaps here sound.calls).2 (by decide)
  · change ∀ address ∈ after.stack.oldestFirst, Returnable address
    rw [completes.calls_eq]
    exact Instruction.callsAfter_returnable here sound.calls
  · intro wait waiting
    obtain ⟨x, read, rfl, rfl⟩ := completes.waits ready.unwaiting waiting
    have again := m.state.past_pc_back
    exact ⟨⟨ready.loaded, ready.unhalted⟩, w, x, fetches.same again rfl, read, rfl⟩

theorem halted_sound {fault : Fault} (sound : m.Sound) (ready : m.Ready) :
    Sound { m with halt := some fault } := by
  refine { sound with waits := ?_ }
  intro wait waiting
  cases ready.unwaiting.symm.trans waiting

theorem stepped_sound (sound : m.Sound) (stepped : Stepped m turn) : turn.machine.Sound := by
  cases stepped with
  | unloaded => exact sound
  | halted => exact sound
  | @idle wait running waiting quiet =>
    refine { sound with waits := ?_ }
    intro again waits
    cases waits
    obtain ⟨w, x, fetches, read, named⟩ := (sound.waits wait waiting).instruction
    exact ⟨⟨running.loaded, running.unhalted⟩, w, x, fetches.same rfl rfl, read, named⟩
  | @resumed wait key running waiting =>
    obtain ⟨_, _, fetches, _⟩ := (sound.waits wait waiting).instruction
    refine ⟨?_, sound.calls, nofun⟩
    exact Nat.le_trans fetches.returnable.inside (by decide)
  | misaligned ready => exact halted_sound sound ready
  | outside ready => exact halted_sound sound ready
  | completes ready fetches completes => exact completes_sound sound ready fetches completes
  | fails ready => exact halted_sound sound ready

theorem handle_sound (sound : m.Sound) (handled : m.handle event = .ok turn) :
    turn.machine.Sound := by
  cases handle_handled handled with
  | load => exact started_sound _ _ _
  | step stepped => exact stepped_sound sound stepped
  | other _ _ touched => exact touched_sound touched sound

theorem not_stranded (sound : m.Sound) : ¬ Stranded m := by
  intro stranded
  cases stranded with
  | register _ waiting _ unnamed => exact Nat.not_lt.mpr unnamed (sound.waits _ waiting).named
  | resume _ _ _ last =>
    have bound := sound.pc
    omega
  | executing _ fetches traps => exact not_traps fetches.returnable traps

theorem step_answers (sound : m.Sound) : ∃ turn, m.step = .ok turn := by
  rcases stepped_or_stranded m with ⟨turn, stepped⟩ | stranded
  · exact ⟨turn, step_stepped stepped⟩
  · exact absurd stranded (not_stranded sound)

theorem run_answers (sound : m.Sound) (events : List Event) :
    ∃ last replies, m.run events = .ok (last, replies) := by
  induction events generalizing m with
  | nil => exact ⟨_, _, rfl⟩
  | cons event rest ih =>
    obtain ⟨turn, handled⟩ := handle_answers event (step_answers sound)
    obtain ⟨last, replies, ran⟩ := ih (handle_sound sound handled)
    exact ⟨last, _, run_cons handled ran⟩

end Machine

theorem Reached.sound {m : Machine} {past : List Moment} (reached : Reached m past) : m.Sound := by
  induction reached using Reached.induct with
  | new dialect seed entropy => exact Machine.empty_sound dialect seed entropy
  | call m past event turn _ handled ih => exact Machine.handle_sound ih handled

theorem Reached.run {m : Machine} {past : List Moment} (reached : Reached m past)
    (events : List Event) :
    ∃ last since, m.run events = .ok (last, answers since) ∧ calls since = events ∧
      Runs m since last := by
  obtain ⟨last, replies, ran⟩ := Machine.run_answers reached.sound events
  obtain ⟨since, runs, called, rfl⟩ := run_runs ran
  exact ⟨last, since, ran, called, runs⟩

end ChipEight
