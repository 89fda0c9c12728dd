import ChipEight.Proofs.Soundness
namespace ChipEight

def lastLook (entry : Keypad) : List Moment → Keypad
  | [] => entry
  | ⟨m, .step, _⟩ :: _ => m.state.keypad
  | _ :: earlier => lastLook entry earlier

-- At no step a key was held that had not been held at the step before it.
inductive Quiet (entry : Keypad) : List Moment → Prop where
  | nil : Quiet entry []
  | step (quiet : Quiet entry earlier) (stepped : moment.event = .step)
      (unpressed : ∀ key, ¬ moment.before.state.keypad.Fresh (lastLook entry earlier) key) :
      Quiet entry (moment :: earlier)
  | other (quiet : Quiet entry earlier) (unstepped : moment.event ≠ .step) :
      Quiet entry (moment :: earlier)

variable {m last : Machine} {past since : List Moment} {moment : Moment} {entry : Keypad}
  {event : Event} {turn : Turn} {register : UInt8}

theorem lastLook_other (unstepped : event ≠ .step) :
    lastLook entry (⟨m, event, turn⟩ :: since) = lastLook entry since := by
  cases event with
  | step => exact absurd rfl unstepped
  | _ => rfl

theorem Keypad.fresh_press {pad : Keypad} {byte : UInt8} (onPad : byte.toNat < keyCount)
    (up : pad.held[byte.toNat] = false) : (pad.press byte).1.Fresh pad ⟨byte.toNat, onPad⟩ := by
  refine ⟨?_, up⟩
  simp [press, change, onPad]

theorem Keypad.press_fresh {pad : Keypad} {byte : UInt8} {key : Key}
    (fresh : (pad.press byte).1.Fresh pad key) : key.val = byte.toNat := by
  obtain ⟨down, up⟩ := fresh
  unfold press change at down
  split at down
  · by_contra other
    rw [Fin.getElem_fin, Vector.getElem_set_ne _ _ (Ne.symm other), ← Fin.getElem_fin, up] at down
    cases down
  · cases up.symm.trans down

namespace Machine

def awaiting (m : Machine) (wait : KeyWait) : Machine := { m with state.wait := some wait }

theorem Touched.awaiting {later : Machine} {wait : KeyWait} (touched : (m.awaiting wait).Touched later)
    (next : KeyWait) : (m.awaiting next).Touched (later.awaiting next) := by
  obtain ⟨timers, drawn, keypad, rfl⟩ := touched
  exact ⟨timers, drawn, keypad, rfl⟩

def resumed (m : Machine) (x : Register) (key : Key) : Machine :=
  { m with state := { m.state.setV x (UInt8.ofNat key.val) with
      pc := m.state.pc + 2, wait := none } }

theorem step_waitKey {w : Word} (ready : m.Ready) (fetches : m.Fetches w)
    (family : w.family.val = 0xF) (digits : w.kk.toNat = 0x0A) :
    ∃ notes, m.step =
      .ok ⟨m.awaiting ⟨UInt8.ofNat w.x.val, m.state.keypad⟩, .done, notes⟩ := by
  have entered : Completes m.dialect m.state.past m.dice (.waitKey w.x)
      { m.state with
        pc := m.state.past.pc - 2, wait := some ⟨UInt8.ofNat w.x.val, m.state.keypad⟩ } m.dice :=
    .waitKey fetches.returnable.past
  rw [m.state.past_pc_back, ← Instruction.ofWord_of_reads (.waitKey family digits)] at entered
  exact ⟨_, step_stepped (.completes ready fetches entered)⟩

theorem step_idle {wait : KeyWait} (running : m.Running) (waiting : m.state.wait = some wait)
    (unpressed : ∀ key, ¬ m.state.keypad.Fresh wait.seen key) :
    m.step = .ok ⟨m.awaiting ⟨wait.register, m.state.keypad⟩, .done, []⟩ :=
  step_stepped (.idle running waiting (Keypad.fresh_eq_none_iff.mpr unpressed))

end Machine

structure Looked (x : Register) (seen : Keypad) (moment : Moment) : Prop where
  done : moment.turn.reply = .done
  idle : (∀ key, ¬ moment.before.state.keypad.Fresh seen key) →
    moment.turn.machine = moment.before.awaiting ⟨UInt8.ofNat x.val, moment.before.state.keypad⟩
  ends : (∃ key, moment.before.state.keypad.Fresh seen key) →
    ∃ key, moment.before.state.keypad.Fresh seen key ∧
      (∀ lower, lower < key → ¬ moment.before.state.keypad.Fresh seen lower) ∧
      moment.turn.machine = moment.before.resumed x key

theorem Looked.pressed {x : Register} {seen : Keypad} {byte : UInt8} (looked : Looked x seen moment)
    (pressed : moment.before.state.keypad = (seen.press byte).1) (onPad : byte.toNat < keyCount)
    (up : seen.held[byte.toNat] = false) :
    moment.turn.machine = moment.before.resumed x ⟨byte.toNat, onPad⟩ := by
  have down : moment.before.state.keypad.Fresh seen ⟨byte.toNat, onPad⟩ := by
    rw [pressed]
    exact Keypad.fresh_press onPad up
  obtain ⟨key, fresh, _, resumed⟩ := looked.ends ⟨_, down⟩
  rw [pressed] at fresh
  obtain rfl : key = ⟨byte.toNat, onPad⟩ := Fin.ext (Keypad.press_fresh fresh)
  exact resumed

theorem Machine.step_looked {x : Register} {seen : Keypad} (sound : m.Sound)
    (waiting : m.state.wait = some ⟨UInt8.ofNat x.val, seen⟩) (ran : m.step = .ok turn) :
    Looked x seen ⟨m, .step, turn⟩ := by
  have awaits := sound.waits _ waiting
  cases fresh : m.state.keypad.fresh seen with
  | none =>
    cases (Machine.step_stepped (.idle awaits.toRunning waiting fresh)).symm.trans ran
    refine ⟨rfl, fun _ => rfl, ?_⟩
    rintro ⟨key, here⟩
    exact absurd here (Keypad.fresh_eq_none_iff.mp fresh key)
  | some key =>
    have room : m.state.pc.toNat + 2 < 0x10000 := by
      have bound := sound.pc
      omega
    have stepped := Machine.Stepped.resumed awaits.toRunning waiting fresh awaits.named room
    cases (Machine.step_stepped stepped).symm.trans ran
    obtain ⟨here, lowest⟩ := Keypad.fresh_eq_some_iff.mp fresh
    refine ⟨rfl, fun unpressed => absurd here (unpressed key), fun _ => ⟨key, here, lowest, ?_⟩⟩
    have index : (⟨(UInt8.ofNat x.val).toNat, awaits.named⟩ : Register) = x := by
      apply Fin.ext
      simp
      omega
    change { m with state := { m.state.setV ⟨_, awaits.named⟩ (UInt8.ofNat key.val) with
      pc := m.state.pc + 2, wait := none } } = m.resumed x key
    rw [index]
    rfl

-- While nothing goes down the wait goes on, and nothing changes but what the
-- host changes and what the wait remembers.
theorem Runs.quiet (running : m.Running) (runs : Runs (m.awaiting ⟨register, entry⟩) since last)
    (unloading : ∀ moment ∈ since, moment.event.loads = false) (quiet : Quiet entry since) :
    (m.awaiting ⟨register, lastLook entry since⟩).Touched last := by
  induction runs with
  | nil => exact .refl _
  | @call earlier before event turn runs handled ih =>
    obtain ⟨unloadingNow, unloadingBefore⟩ := List.forall_mem_cons.mp unloading
    cases quiet with
    | other quiet unstepped =>
      have touched := ih unloadingBefore quiet
      rw [lastLook_other unstepped]
      cases Machine.handle_handled handled with
      | load fits => cases unloadingNow.symm.trans (decide_eq_true fits)
      | step => exact absurd rfl unstepped
      | other _ _ touches => exact touched.trans touches
    | step quiet stepped unpressed =>
      cases stepped
      have touched := ih unloadingBefore quiet
      have runningHere : before.Running :=
        ⟨touched.loaded.trans running.loaded, touched.halt.trans running.unhalted⟩
      cases (Machine.step_idle runningHere touched.wait unpressed).symm.trans handled
      exact touched.awaiting _

theorem Machine.Awaits.word {wait : KeyWait} (awaits : m.Awaits wait) :
    ∃ w, m.state.memory.word m.state.pc.toNat = .ok w ∧ w.family.val = 0xF ∧
      w.x.val = wait.register.toNat ∧ w.kk.toNat = 0x0A := by
  obtain ⟨w, x, fetches, read, named⟩ := awaits.instruction
  cases Instruction.ofWord_exact.mp read with
  | waitKey family digits =>
    refine ⟨w, ?_, family, ?_, digits⟩
    · have fetched := Machine.fetch_word fetches
      rwa [Machine.fetch, if_pos fetches.even] at fetched
    · rw [named, UInt8.toNat_ofNat']
      omega

-- A machine that waits is on the instruction that made it wait. From there on every
-- step but the one that meets a key gone down since the step before it only looks,
-- and that one stores the lowest such key and goes on.
theorem key_wait_exact (reached : Reached m past) :
    (∀ wait, m.state.wait = some wait →
      m.loaded = true ∧ m.halt = none ∧ wait.register.toNat ≤ 15 ∧
        m.state.pc.toNat % 2 = 0 ∧ m.state.pc.toNat ≤ 0xFFE ∧
        ∃ w, m.state.memory.word m.state.pc.toNat = .ok w ∧ w.family.val = 0xF ∧
          w.x.val = wait.register.toNat ∧ w.kk.toNat = 0x0A) ∧
    ∀ w, m.activity = .executing w → w.family.val = 0xF → w.kk.toNat = 0x0A →
      ∃ turn, m.step = .ok turn ∧ turn.reply = .done ∧
        turn.machine = m.awaiting ⟨UInt8.ofNat w.x.val, m.state.keypad⟩ ∧
        ∀ events, (∀ event ∈ events, event.loads = false) →
          ∃ last since, turn.machine.run events = .ok (last, answers since) ∧
            calls since = events ∧ Runs turn.machine since last ∧
            (Quiet m.state.keypad since →
              (m.awaiting ⟨UInt8.ofNat w.x.val, lastLook m.state.keypad since⟩).Touched last) ∧
            ∀ later moment earlier, since = later ++ moment :: earlier → moment.event = .step →
              Quiet m.state.keypad earlier →
                (m.awaiting ⟨UInt8.ofNat w.x.val, lastLook m.state.keypad earlier⟩).Touched
                  moment.before ∧
                Looked w.x (lastLook m.state.keypad earlier) moment := by
  constructor
  · intro wait waiting
    have awaits := reached.sound.waits wait waiting
    obtain ⟨_, _, fetches, _⟩ := awaits.instruction
    refine ⟨awaits.loaded, awaits.unhalted, Nat.le_of_lt_succ awaits.named, fetches.even, ?_,
      awaits.word⟩
    have even := fetches.even
    have inside := fetches.inside
    simp only [memorySize] at inside
    omega
  · intro w executing family digits
    obtain ⟨ready, fetches⟩ := Machine.activity_executing_iff.mp executing
    obtain ⟨notes, entered⟩ := Machine.step_waitKey ready fetches family digits
    refine ⟨_, entered, rfl, rfl, ?_⟩
    intro events unloading
    have reachedWait : Reached _ (⟨m, .step, _⟩ :: past) := reached.call entered
    obtain ⟨last, since, ran, rfl, runs⟩ := reachedWait.run events
    have unloadingSince : ∀ moment ∈ since, moment.event.loads = false := by
      intro moment present
      exact unloading _ (mem_calls.mpr ⟨moment, present, rfl⟩)
    refine ⟨last, since, ran, rfl, runs, runs.quiet ready.toRunning unloadingSince, ?_⟩
    rintro later moment earlier rfl step quiet
    obtain ⟨before, handled, _⟩ := runs.divided
    have unloadingBefore : ∀ moment ∈ earlier, moment.event.loads = false := by
      intro moment present
      exact unloadingSince moment (List.mem_append_right _ (List.mem_cons_of_mem _ present))
    have touched := before.quiet ready.toRunning unloadingBefore quiet
    refine ⟨touched, ?_⟩
    obtain ⟨here, _, turn⟩ := moment
    cases step
    exact Machine.step_looked (reachedWait.runs before).sound touched.wait handled

theorem key_wait_exact_first_word :
    ∃ m past turn last since, Reached m past ∧ m.activity = .executing (.ofBytes 0xF1 0x0A) ∧
      m.step = .ok turn ∧ turn.machine.state.pc = 0x200 ∧
      turn.machine.state.wait = some ⟨1, .idle⟩ ∧
      turn.machine.run [.tick, .press 5, .step] = .ok (last, answers since) ∧
      last.state.value 1 = 5 ∧ last.state.pc = 0x202 ∧ last.state.wait = none := by
  have fits : ([0xF1, 0x0A] : List UInt8).length ≤ programRoom := by decide
  obtain ⟨past, reached⟩ := (Reached.empty .vip none (.ofList [])).started fits (.ofList [])
  obtain ⟨turn, ran, _, awaiting, goesOn⟩ :=
    (key_wait_exact reached).2 (.ofBytes 0xF1 0x0A)
      (Machine.activity_word Machine.started_ready Machine.started_fetches) (by decide) (by decide)
  obtain ⟨last, since, ranOn, called, runs, _, looks⟩ :=
    goesOn [.tick, .press 5, .step] (by simp [Event.loads])
  obtain ⟨pressed, untilStep, stepTurn, rfl, pressedRuns, stepCalls, _, rfl⟩ :=
    runs.latest [.tick, .press 5] .step called
  obtain ⟨ticked, untilPress, pressTurn, rfl, tickedRuns, pressCalls, pressing, rfl⟩ :=
    pressedRuns.latest [.tick] (.press 5) stepCalls
  obtain ⟨_, untilTick, tickTurn, rfl, untickedRuns, tickCalls, ticking, rfl⟩ :=
    tickedRuns.latest [] .tick pressCalls
  obtain rfl : untilTick = [] := by simpa [calls] using tickCalls
  obtain rfl := untickedRuns.unmoved
  have quiet :
      Quiet .idle [⟨tickTurn.machine, .press 5, pressTurn⟩, ⟨turn.machine, .tick, tickTurn⟩] :=
    .other (.other .nil (by simp)) (by simp)
  obtain ⟨⟨_, _, _, same⟩, looks⟩ := looks [] _ _ rfl rfl quiet
  have looked : Looked 1 .idle ⟨pressTurn.machine, .step, stepTurn⟩ := looks
  have keypad : pressTurn.machine.state.keypad = (Keypad.idle.press 5).1 := by
    cases ticking
    cases pressing
    rw [Machine.useKeypad_machine, awaiting]
    rfl
  have resumed := looked.pressed keypad (by decide) (by decide)
  refine ⟨_, past, turn, _, _, reached,
    Machine.activity_word Machine.started_ready Machine.started_fetches, ran, ?_, ?_, ranOn,
    ?_, ?_, ?_⟩
  · rw [awaiting]
    rfl
  · rw [awaiting]
    rfl
  · rw [resumed, same]
    rfl
  · rw [resumed, same]
    rfl
  · rw [resumed]
    rfl

end ChipEight
