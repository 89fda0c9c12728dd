import ChipEight.Proofs.Confinement
namespace ChipEight

def Event.ticks : Event → Bool
  | .tick => true
  | _ => false

def Moment.wound? (moment : Moment) (timer : Timer) : Option UInt8 :=
  (moment.word?.filter (Word.winds · timer)).map fun w => moment.before.state.value w.x

-- What a timer was set to last since the program was loaded, and the calls since then, or
-- since the load where it never was.
def lastWound (timer : Timer) (past : List Moment) : UInt8 :=
  ((sinceLoad past).findSome? (Moment.wound? · timer)).getD 0

def sinceWound (timer : Timer) (past : List Moment) : List Moment :=
  (sinceLoad past).takeWhile fun moment => (moment.wound? timer).isNone

def ticksSince (timer : Timer) (past : List Moment) : Nat :=
  (sinceWound timer past).countP fun moment => moment.event.ticks

variable {m : Machine} {past : List Moment} {event : Event} {turn : Turn} {timer : Timer}
  {w : Word}

theorem Timers.left_tick (timers : Timers) :
    timers.tick.left timer = countDown (timers.left timer) := by
  cases timer <;> rfl

theorem Timers.toNat_countDown (t : UInt8) : (countDown t).toNat = t.toNat - 1 := by
  have bound := t.toNat_lt
  unfold countDown
  rw [UInt8.toNat_ofNat']
  omega

theorem Completes.left_wound {dialect : Dialect} {s after : State} {dice rest : Dice}
    (completes : Completes dialect s dice (.ofWord w) after rest) (winds : w.winds timer = true) :
    after.timers.left timer = s.value w.x := by
  obtain ⟨family, digits⟩ := Word.winds_iff.mp winds
  cases timer with
  | delay =>
    rw [Instruction.ofWord_of_reads (.setDelay family digits)] at completes
    cases completes
    rfl
  | sound =>
    rw [Instruction.ofWord_of_reads (.setSound family digits)] at completes
    cases completes
    rfl

namespace Machine

theorem stepped_left (stepped : Stepped m turn) :
    turn.machine.state.timers.left timer =
      (Moment.wound? ⟨m, .step, turn⟩ timer).getD (m.state.timers.left timer) := by
  unfold Moment.wound?
  rcases stepped_carries stepped with ⟨w, after, _, carried, completes, same⟩ | ⟨idle, _, _, _, _, same⟩
  · rw [carried, same]
    cases winds : w.winds timer with
    | true =>
      simp only [Option.filter, winds, if_true]
      exact completes.left_wound winds
    | false =>
      simp only [Option.filter, winds]
      exact completes.left_eq winds
  · rw [idle, same]
    rfl

theorem handle_left (handled : m.handle event = .ok turn) (unloading : event.loads = false) :
    turn.machine.state.timers.left timer = (Moment.wound? ⟨m, event, turn⟩ timer).getD
      (if event.ticks then Timers.countDown (m.state.timers.left timer)
        else m.state.timers.left timer) := by
  cases event with
  | load program entropy =>
    have oversized : programRoom < program.length := by simpa [Event.loads] using unloading
    cases (load_oversized oversized entropy).symm.trans handled
    rfl
  | step => exact stepped_left (step_ok_iff.mp handled)
  | tick =>
    cases handled
    exact Timers.left_tick m.state.timers
  | press key =>
    cases handled
    rw [useKeypad_machine]
    rfl
  | release key =>
    cases handled
    rw [useKeypad_machine]
    rfl
  | setKeys =>
    cases handled
    rfl
  | takeFrame =>
    cases handled
    cases drawn : m.state.drawn <;> simp [takeFrame, drawn, Event.ticks, Moment.wound?, Moment.word?]

theorem step_readDelay (executing : m.activity = .executing w) (family : w.family.val = 0xF)
    (digits : w.kk.toNat = 0x07) :
    ∃ turn, m.step = .ok turn ∧ turn.reply = .done ∧
      turn.machine.state.value w.x = m.state.timers.left .delay := by
  obtain ⟨ready, fetches⟩ := activity_executing_iff.mp executing
  have completes : Completes m.dialect m.state.past m.dice (.ofWord w)
      (m.state.past.setV w.x m.state.timers.delay) m.dice := by
    rw [Instruction.ofWord_of_reads (.readDelay family digits)]
    exact .readDelay
  exact ⟨_, step_stepped (.completes ready fetches completes), rfl, Vector.getElem_set_self _⟩

theorem beeping_iff : m.beeping = true ↔ 0 < (m.state.timers.left .sound).toNat := by
  unfold beeping Timers.beeping
  rw [decide_eq_true_iff, UInt8.lt_iff_toNat_lt]
  rfl

end Machine

theorem Moment.wound?_done (done : turn.reply = .done) (executing : m.activity = .executing w)
    (winds : w.winds timer = true) :
    Moment.wound? ⟨m, .step, turn⟩ timer = some (m.state.value w.x) := by
  unfold wound?
  rw [word?_done done executing]
  simp [winds]

theorem lastWound_cons :
    lastWound timer (⟨m, event, turn⟩ :: past) = if event.loads then 0 else
      (Moment.wound? ⟨m, event, turn⟩ timer).getD (lastWound timer past) := by
  unfold lastWound
  rw [sinceLoad_cons]
  cases event.loads with
  | true => rfl
  | false =>
    rw [if_neg nofun, if_neg nofun, List.findSome?_cons]
    cases Moment.wound? ⟨m, event, turn⟩ timer <;> rfl

theorem ticksSince_cons :
    ticksSince timer (⟨m, event, turn⟩ :: past) =
      if event.loads || (Moment.wound? ⟨m, event, turn⟩ timer).isSome then 0
      else ticksSince timer past + if event.ticks then 1 else 0 := by
  unfold ticksSince sinceWound
  rw [sinceLoad_cons]
  cases event.loads with
  | true => rfl
  | false =>
    rw [if_neg nofun, List.takeWhile_cons]
    cases Moment.wound? ⟨m, event, turn⟩ timer with
    | some value => rfl
    | none => exact List.countP_cons

theorem Reached.left (reached : Reached m past) (timer : Timer) :
    (m.state.timers.left timer).toNat = (lastWound timer past).toNat - ticksSince timer past := by
  induction reached using Reached.induct with
  | new => cases timer <;> rfl
  | call m past event turn _ handled ih =>
    rw [lastWound_cons, ticksSince_cons]
    cases loads : event.loads with
    | true =>
      cases Machine.handle_handled handled with
      | load => cases timer <;> rfl
      | step => cases loads
      | other _ unloading => cases loads.symm.trans unloading
    | false =>
      rw [Machine.handle_left handled loads]
      cases Moment.wound? ⟨m, event, turn⟩ timer with
      | some value => rfl
      | none =>
        simp only [Option.getD_none, Option.isSome_none, Bool.or_false, Bool.false_eq_true, if_false]
        by_cases ticks : event.ticks = true
        · rw [if_pos ticks, if_pos ticks, Timers.toNat_countDown, ih]
          omega
        · rw [if_neg ticks, if_neg ticks, ih]
          rfl

-- In every state a timer holds what it was set to since the program was loaded, less the ticks
-- that came after that. So this is what Fx07 reads, and how long the buzzer sounds.
theorem timers_count (reached : Reached m past) :
    (∀ timer, (m.state.timers.left timer).toNat =
      (lastWound timer past).toNat - ticksSince timer past) ∧
    (∀ w, m.activity = .executing w → w.family.val = 0xF → w.kk.toNat = 0x07 →
      ∃ turn, m.step = .ok turn ∧ turn.reply = .done ∧ (turn.machine.state.value w.x).toNat =
        (lastWound .delay past).toNat - ticksSince .delay past) ∧
    (m.beeping = true ↔ ticksSince .sound past < (lastWound .sound past).toNat) := by
  refine ⟨reached.left, ?_, ?_⟩
  · intro w executing family digits
    obtain ⟨turn, ran, done, read⟩ := Machine.step_readDelay executing family digits
    refine ⟨turn, ran, done, ?_⟩
    rw [read, reached.left]
  · rw [Machine.beeping_iff, reached.left]
    omega

theorem timers_count_read :
    ∃ m past turn, Reached m past ∧
      calls past = [.load [0x60, 0x02, 0xF0, 0x15, 0xF1, 0x07] (.ofList []), .step, .step, .tick] ∧
      m.activity = .executing 0xF107 ∧ lastWound .delay past = 2 ∧ m.step = .ok turn ∧
      (turn.machine.state.value (.low 1)).toNat = 1 := by
  let program : List UInt8 := [0x60, 0x02, 0xF0, 0x15, 0xF1, 0x07]
  have fits : program.length ≤ programRoom := by decide
  have loaded : (Machine.empty .vip none (.ofList [])).handle (.load program (.ofList [])) = .ok _ :=
    Machine.load_fits fits (.ofList [])
  obtain ⟨_, reached, here⟩ := ((Reached.empty .vip none (.ofList [])).call loaded).onward
    Machine.started_atWord fits (by decide) (show _ = Instruction.loadByte 0 2 by decide)
    .loadByte rfl rfl rfl
  obtain ⟨m, past, reached, called, here, two⟩ : ∃ m past, Reached m past ∧
      calls past = [.load program (.ofList []), .step] ∧ m.AtWord program 1 ∧
      m.state.value (.low 0) = 2 :=
    ⟨_, _, reached, rfl, here, rfl⟩
  have pc : (m.state.pc + 2).toNat = programStart.toNat + 2 * 2 := by
    have room : m.state.pc.toNat + 2 < 0x10000 := by
      rw [here.pc]
      decide
    rw [toNat_add_two room, here.pc]
  obtain ⟨_, stepped, there⟩ := here.leads 2 fits (by decide)
    (show _ = Instruction.setDelay 0 by decide) .setDelay pc rfl here.unwaiting
  obtain ⟨before, since, reached, called, there, set, unticked⟩ : ∃ m past, Reached m past ∧
      calls past = [.load program (.ofList []), .step, .step] ∧ m.AtWord program 2 ∧
      lastWound .delay past = 2 ∧ ticksSince .delay past = 0 := by
    have executing : m.activity = .executing 0xF015 := here.executing fits (by decide) (by decide)
    have winds : Word.winds 0xF015 .delay = true := by decide
    refine ⟨_, _, reached.call stepped, by rw [calls_cons, called]; rfl, there, ?_, ?_⟩
    · rw [lastWound_cons, Moment.wound?_done rfl executing winds]
      exact two
    · rw [ticksSince_cons, Moment.wound?_done rfl executing winds]
      rfl
  have ticked : before.handle .tick = .ok ⟨before.tick, .done, []⟩ := rfl
  have later : before.tick.AtWord program 2 :=
    ⟨⟨⟨there.loaded, there.unhalted⟩, there.unwaiting⟩, there.pc, there.memory⟩
  have executing : before.tick.activity = .executing 0xF107 :=
    later.executing fits (by decide) (by decide)
  have wound : lastWound .delay (⟨before, .tick, ⟨before.tick, .done, []⟩⟩ :: since) = 2 := by
    rw [lastWound_cons]
    exact set
  have counted : ticksSince .delay (⟨before, .tick, ⟨before.tick, .done, []⟩⟩ :: since) = 1 := by
    rw [ticksSince_cons, unticked]
    rfl
  obtain ⟨_, reads, _⟩ := timers_count (reached.call ticked)
  obtain ⟨turn, ran, _, read⟩ := reads 0xF107 executing (by decide) (by decide)
  rw [wound, counted] at read
  exact ⟨_, _, turn, reached.call ticked, by rw [calls_cons, called]; rfl, executing, wound, ran, read⟩

end ChipEight
