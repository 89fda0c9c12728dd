import ChipEight.Proofs.Halting
namespace ChipEight

theorem Instruction.leaps_ofWord {w : Word} :
    (ofWord w).leaps = true ↔ w.family.val = 1 ∨ w.family.val = 2 ∨ w.family.val = 0xB := by
  constructor
  · have reads := ofWord_reads w
    generalize ofWord w = instruction at reads
    intro leaps
    cases reads with
    | jump family => exact .inl family
    | call family => exact .inr (.inl family)
    | jumpOffset family => exact .inr (.inr family)
    | _ => cases leaps
  · rintro (family | family | family)
    · rw [ofWord_of_reads (.jump family), leaps]
    · rw [ofWord_of_reads (.call family), leaps]
    · rw [ofWord_of_reads (.jumpOffset family), leaps]

structure Moment.Leapt (moment : Moment) : Prop where
  step : moment.event = .step
  done : moment.turn.reply = .done
  word : ∃ w, moment.before.activity = .executing w ∧
    (w.family.val = 1 ∨ w.family.val = 2 ∨ w.family.val = 0xB)

-- Since 1nnn, 2nnn or Bnnn was carried out, nothing has been stepped or loaded.
inductive LastLeapt : List Moment → Prop where
  | leap (leapt : Moment.Leapt moment) : LastLeapt (moment :: past)
  | other (unstepped : moment.event ≠ .step) (unloading : moment.event.loads = false)
      (leapt : LastLeapt past) : LastLeapt (moment :: past)

namespace Machine

variable {m : Machine} {turn : Turn} {past : List Moment}

theorem step_done_even (sound : m.Sound) (stepped : Stepped m turn) (done : turn.reply = .done) :
    Moment.Leapt ⟨m, .step, turn⟩ ∨ turn.machine.state.pc.toNat % 2 = 0 := by
  cases stepped with
  | unloaded => cases done
  | halted => cases done
  | misaligned => cases done
  | outside => cases done
  | fails => cases done
  | idle _ waiting =>
    obtain ⟨_, _, fetches, _⟩ := (sound.waits _ waiting).instruction
    exact .inr fetches.even
  | resumed _ waiting =>
    obtain ⟨_, _, fetches, _⟩ := (sound.waits _ waiting).instruction
    exact .inr fetches.returnable.even
  | @completes w after rest ready fetches completes =>
    cases leaps : (Instruction.ofWord w).leaps with
    | true =>
      have word := Instruction.leaps_ofWord.mp leaps
      exact .inl ⟨rfl, rfl, w, activity_word ready fetches, word⟩
    | false =>
      right
      change after.pc.toNat % 2 = 0
      rw [completes.pc_eq]
      exact (Instruction.pcAfter_straight leaps fetches.returnable sound.calls).1

theorem done_of_running (stepped : Stepped m turn) (running : turn.machine.Running) :
    turn.reply = .done := by
  obtain ⟨loaded, unhalted⟩ := running
  cases stepped_answered stepped with
  | unloaded unloaded _ same => cases unloaded.symm.trans (same ▸ loaded)
  | halted halted _ same => cases halted.symm.trans (same ▸ unhalted)
  | failed _ _ _ only =>
    rw [only] at unhalted
    cases unhalted
  | done _ done => exact done

theorem misaligned_of_refused {pc : UInt16} (stepped : Stepped m turn)
    (refused : turn.reply = .refused (.misaligned pc)) : m.Ready ∧ m.state.pc.toNat % 2 = 1 := by
  cases stepped_answered stepped with
  | unloaded _ answer => cases answer.symm.trans refused
  | halted _ answer => cases answer.symm.trans refused
  | done _ answer => cases answer.symm.trans refused
  | failed ready failing answer =>
    cases answer.symm.trans refused
    cases failing with
    | misaligned odd => exact ⟨ready, odd⟩
    | word _ refuses => cases refuses

end Machine

-- An odd pc that a step may yet meet has been written down in the program.
theorem Reached.odd {m : Machine} {past : List Moment} (reached : Reached m past)
    (odd : m.state.pc.toNat % 2 = 1) (running : m.Running) : LastLeapt past := by
  have startEven : ¬ programStart.toNat % 2 = 1 := by decide
  induction reached using Reached.induct with
  | new => exact absurd odd startEven
  | call m past event turn reached handled ih =>
    cases Machine.handle_handled handled with
    | load => exact absurd odd startEven
    | other unstepped unloading touched =>
      obtain ⟨_, _, _, same⟩ := touched
      rw [same] at odd running
      exact .other unstepped unloading (ih odd ⟨running.loaded, running.unhalted⟩)
    | step stepped =>
      have done := Machine.done_of_running stepped running
      rcases Machine.step_done_even reached.sound stepped done with leapt | even
      · exact .leap leapt
      · rw [even] at odd
        cases odd

-- No call traps, whatever came before it. Odd addresses are met only where the
-- program has named them in a jump or a call, never behind a return or a skip.
theorem run_sound (dialect : Dialect) (seed : Option UInt64) (entropy : Dice)
    (events : List Event) :
    ∃ m past, (Machine.empty dialect seed entropy).run events = .ok (m, answers past) ∧
      calls past = events ∧ Runs (.empty dialect seed entropy) past m ∧
      m.state.pc.toNat ≤ 0x10FE ∧
      m.state.stack.oldestFirst.length = m.state.stack.depth ∧ m.state.stack.depth ≤ 16 ∧
      (∀ address ∈ m.state.stack.oldestFirst,
        address.toNat % 2 = 0 ∧ 0x002 ≤ address.toNat ∧ address.toNat ≤ 0x1000) ∧
      m.state.screen.rows.length = 32 ∧ (∀ row ∈ m.state.screen.rows, row.length = 64) ∧
      m.state.screen.points.toList.length = 2048 ∧
      (∀ moment ∈ past, moment.event = .step → moment.turn.reply = .done → ¬ moment.Leapt →
        moment.turn.machine.state.pc.toNat % 2 = 0) ∧
      ∀ since moment earlier pc, past = since ++ moment :: earlier → moment.event = .step →
        moment.turn.reply = .refused (.misaligned pc) → LastLeapt earlier := by
  have reached := Reached.empty dialect seed entropy
  obtain ⟨m, past, ran, called, runs⟩ := reached.run events
  have sound := (reached.runs runs).sound
  have divided : ∀ since moment earlier, past = since ++ moment :: earlier →
      moment.event = .step →
      Reached moment.before earlier ∧ Machine.Stepped moment.before moment.turn := by
    rintro since moment earlier rfl step
    obtain ⟨before, handled, _⟩ := runs.divided
    rw [step] at handled
    exact ⟨⟨dialect, seed, entropy, before⟩, Machine.step_ok_iff.mp handled⟩
  refine ⟨m, past, ran, called, runs, sound.pc, m.state.stack.length_oldestFirst,
    m.state.stack.bounded, ?_, m.state.screen.length_rows,
    fun _ => m.state.screen.length_of_mem_rows, Vector.length_toList, ?_, ?_⟩
  · intro address present
    obtain ⟨even, behind, inside⟩ := sound.calls address present
    exact ⟨even, behind, inside⟩
  · intro moment present step done still
    obtain ⟨since, earlier, split⟩ := List.append_of_mem present
    obtain ⟨before, stepped⟩ := divided since moment earlier split step
    rcases Machine.step_done_even before.sound stepped done with leapt | even
    · obtain ⟨_, _, word⟩ := leapt
      exact absurd ⟨step, done, word⟩ still
    · exact even
  · intro since moment earlier pc split step refused
    obtain ⟨before, stepped⟩ := divided since moment earlier split step
    obtain ⟨ready, odd⟩ := Machine.misaligned_of_refused stepped refused
    exact before.odd odd ready.toRunning

end ChipEight
