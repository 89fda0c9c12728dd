import ChipEight.Proofs.Hexadecimal
import ChipEight.Proofs.Schedule
import ChipEight.Report
namespace ChipEight

def pictures (frames : List Frame) : String :=
  String.join ((frames.reverse.filter Frame.draws).map fun frame =>
    homeAndClear ++ frame.stepped.state.screen.picture)

theorem pictures_cons {frame : Frame} {earlier : List Frame} :
    pictures (frame :: earlier) = pictures earlier ++
      if frame.draws then homeAndClear ++ frame.stepped.state.screen.picture else "" := by
  cases draws : frame.draws <;> simp [pictures, draws, String.join_append]

theorem pictures_blank {frames : List Frame} (blank : pictures frames = "") :
    frames.find? Frame.draws = none := by
  have letters : (pictures frames).toList = [] := congrArg String.toList blank
  rw [List.find?_eq_none]
  intro frame present draws
  simp only [pictures, String.toList_join, List.flatMap_eq_nil_iff] at letters
  have sent := letters _ (List.mem_map_of_mem
    (List.mem_filter.mpr ⟨List.mem_reverse.mpr present, draws⟩))
  simp [homeAndClear] at sent

namespace Session

structure Alike (s later : Session) : Prop where
  machine : later.machine = s.machine
  speed : later.speed = s.speed
  carried : later.carried = s.carried
  shown : later.shown = s.shown

-- A session that has played so many frames and stands at the beginning of the next.
structure Follows (s : Session) (speed : UInt32) (frames : List Frame) (m : Machine) : Prop where
  machine : s.machine = m
  pace : s.speed = speed
  carried : s.carried.toNat = frames.length * speed.toNat % frameRate
  shown : s.shown.toList = (frames.reverse.filter Frame.draws).map (·.stepped.state.screen)

variable {s : Session} {m first last failing stepped : Machine} {steps : List Moment}
  {frames : List Frame} {speed : UInt32} {turn : Turn} {fault : Fault}

theorem hear_alike : s.Alike s.hear := by
  unfold hear
  split <;> exact ⟨rfl, rfl, rfl, rfl⟩

theorem present_eq (s : Session) :
    s.present = { s with
      machine := s.machine.takeFrame.1
      shown := if s.machine.state.drawn then s.shown.push s.machine.state.screen else s.shown } := by
  cases drawn : s.machine.state.drawn <;> simp [present, Machine.takeFrame, drawn]

theorem Follows.output (follows : s.Follows speed frames m) : s.output = pictures frames := by
  rw [Session.output, follows.shown, List.map_map]
  rfl

theorem steps_done (ran : s.machine.step = .ok turn) (done : turn.reply = .done) (count : Nat) :
    s.steps (count + 1) = ({ s with machine := turn.machine }.keep turn.notes).steps count := by
  rw [Session.steps, ran]
  simp only [done]

theorem steps_refused (ran : s.machine.step = .ok turn) (refused : turn.reply = .refused fault)
    (count : Nat) :
    s.steps (count + 1) = ({ s with machine := turn.machine }.keep turn.notes,
      some (.crashed turn.machine.state.pc fault)) := by
  rw [Session.steps, ran]
  simp only [refused]

theorem steps_advances (advances : Advances m steps last) (start : s.machine = m) (rest : Nat) :
    ∃ later, s.steps (steps.length + rest) = later.steps rest ∧
      Alike { s with machine := last } later := by
  induction advances generalizing rest with
  | nil =>
    cases start
    exact ⟨s, by rw [List.length_nil, Nat.zero_add], rfl, rfl, rfl, rfl⟩
  | @step steps m turn _ ran done ih =>
    obtain ⟨middle, same, alike⟩ := ih (rest + 1)
    have ranHere : middle.machine.step = .ok turn := alike.machine ▸ ran
    refine ⟨{ middle with machine := turn.machine }.keep turn.notes, ?_, ?_⟩
    · rw [List.length_cons, Nat.succ_add_eq_add_succ, same]
      exact steps_done ranHere done rest
    · exact ⟨rfl, alike.speed, alike.carried, alike.shown⟩

theorem frame_steps (follows : s.Follows speed frames m) (advances : Advances m steps stepped)
    (rest : Nat)
    (due : Pace.due speed (frames.length + 1) = Pace.due speed frames.length + steps.length + rest) :
    ∃ middle : Session,
      { s with carried := (Pace.split s.speed s.carried).2 }.steps
        (Pace.split s.speed s.carried).1.toNat = middle.steps rest ∧
      middle.machine = stepped ∧ middle.speed = speed ∧
      middle.carried.toNat = (frames.length + 1) * speed.toNat % frameRate ∧
      middle.shown = s.shown := by
  obtain ⟨machine, rfl, carried, _⟩ := follows
  obtain ⟨share, carries⟩ := Pace.split_due carried
  obtain ⟨middle, same, alike⟩ := steps_advances
    (s := { s with carried := (Pace.split s.speed s.carried).2 }) advances machine rest
  rw [← Nat.add_left_cancel (share.trans (due.trans (Nat.add_assoc _ _ _)))] at same
  refine ⟨middle, same, alike.machine, alike.speed, ?_, alike.shown⟩
  rw [alike.carried]
  exact carries

theorem present_follows (machine : s.machine = stepped.tick) (pace : s.speed = speed)
    (carried : s.carried.toNat = (frames.length + 1) * speed.toNat % frameRate)
    (shown : s.shown.toList = (frames.reverse.filter Frame.draws).map (·.stepped.state.screen))
    (drawn : stepped.state.drawn = Frame.draws ⟨steps, stepped⟩) :
    s.present.Follows speed (⟨steps, stepped⟩ :: frames) stepped.tick.takeFrame.1 := by
  rw [present_eq, machine]
  refine ⟨rfl, pace, carried, ?_⟩
  change (if stepped.state.drawn then s.shown.push stepped.state.screen else s.shown).toList = _
  rw [drawn, List.reverse_cons, List.filter_append, List.map_append, ← shown]
  cases draws : Frame.draws ⟨steps, stepped⟩ <;> simp [draws]

theorem frame_follows (follows : s.Follows speed frames m) (undrawn : m.state.drawn = false)
    (advances : Advances m steps stepped)
    (share : Pace.due speed frames.length + steps.length = Pace.due speed (frames.length + 1)) :
    ∃ later, s.frame = (later, none) ∧
      later.Follows speed (⟨steps, stepped⟩ :: frames) stepped.tick.takeFrame.1 := by
  obtain ⟨middle, ran, machine, pace, carried, shown⟩ := frame_steps follows advances 0 share.symm
  have heard : Alike { middle with machine := middle.machine.tick } _ := hear_alike
  refine ⟨{ middle with machine := middle.machine.tick }.hear.present, ?_, ?_⟩
  · simp only [frame, ran, Session.steps]
  · apply present_follows
    · rw [heard.machine, machine]
    · rw [heard.speed, pace]
    · rw [heard.carried, carried]
    · rw [heard.shown, shown]
      exact follows.shown
    · exact advances.draws undrawn

theorem frame_interrupted (follows : s.Follows speed frames m) (advances : Advances m steps failing)
    (within : Pace.due speed frames.length + steps.length < Pace.due speed (frames.length + 1))
    (ran : failing.step = .ok turn) (refused : turn.reply = .refused fault) :
    ∃ later, s.frame = (later, some (.crashed failing.state.pc fault)) ∧
      later.output = pictures frames := by
  obtain ⟨rest, share⟩ := Nat.exists_eq_add_of_lt within
  obtain ⟨middle, same, machine, _, _, shown⟩ := frame_steps follows advances (rest + 1) share
  have pc : turn.machine.state.pc = failing.state.pc := by
    rcases Machine.stepped_reply (Machine.step_ok_iff.mp ran) with done | ⟨_, _, pc⟩
    · cases done.symm.trans refused
    · exact pc
  refine ⟨{ middle with machine := turn.machine }.keep turn.notes, ?_, ?_⟩
  · rw [steps_refused (machine ▸ ran) refused, pc] at same
    simp only [frame, same]
  · rw [← follows.output, Session.output, Session.output, ← shown]
    rfl

theorem play_follows (played : Played first speed frames last) (opened : s.Follows speed [] first)
    (undrawn : first.state.drawn = false) (rest : Nat) :
    ∃ later : Session, s.play (frames.length + rest) = later.play rest ∧
      later.Follows speed frames last := by
  induction played generalizing rest with
  | start => exact ⟨s, by rw [List.length_nil, Nat.zero_add], opened⟩
  | frame earlier advances share ih =>
    obtain ⟨middle, same, follows⟩ := ih (rest + 1)
    obtain ⟨later, framed, followsOn⟩ :=
      frame_follows follows (earlier.undrawn undrawn) advances share
    refine ⟨later, ?_, followsOn⟩
    rw [List.length_cons, Nat.succ_add_eq_add_succ, same, play, framed]

theorem play_interrupted (interrupted : Interrupted first speed frames failing fault)
    (opened : s.Follows speed [] first) (undrawn : first.state.drawn = false) {limit : Nat}
    (before : frames.length < limit) :
    ∃ later, s.play limit = (later, some (.crashed failing.state.pc fault)) ∧
      later.output = pictures frames := by
  cases interrupted with
  | step earlier advances within ran refused =>
    obtain ⟨rest, rfl⟩ := Nat.exists_eq_add_of_lt before
    obtain ⟨middle, same, follows⟩ := play_follows earlier opened undrawn (rest + 1)
    obtain ⟨later, framed, output⟩ := frame_interrupted follows advances within ran refused
    refine ⟨later, ?_, output⟩
    rw [Nat.add_assoc, same, play, framed]

end Session

theorem Command.session_follows (command : Command) {rom : List UInt8}
    (fits : rom.length ≤ programRoom) (watch : Watch) (entropy : Dice) :
    ∃ session, command.session watch (.ok rom) entropy = .ok session ∧
      session.Follows command.speed []
        ((Machine.empty command.dialect command.seed entropy).started rom entropy) := by
  refine ⟨_, by simp only [Command.session, Machine.load_fits fits]; rfl, rfl, rfl, ?_, rfl⟩
  simp [Session.keep, Session.opened]

-- What a command prints and how it ends follows from one machine that is driven by the
-- clock: frame by frame all that is due, up to the limit or to the first refused step.
theorem host_schedule (command : Command) (rom : List UInt8) (watch : Watch) (entropy : Dice)
    {limit : UInt64} (plays : command.listing = false) (limited : command.frames = some limit)
    (fits : rom.length ≤ 3584) :
    ∃ turn report,
      (Machine.empty command.dialect command.seed entropy).handle (.load rom entropy) = .ok turn ∧
      turn.reply = .done ∧ command.report watch (.ok rom) entropy = report ∧
      (∀ frames last, Played turn.machine command.speed frames last →
        stepCount frames = frames.length * command.speed.toNat / 60) ∧
      (∀ frames last, Played turn.machine command.speed frames last → frames.length = limit.toNat →
        report.failure = none ∧ report.output = pictures frames ∧
        (∀ frame, frames.find? Frame.draws = some frame →
          last.state.screen = frame.stepped.state.screen) ∧
        (report.output = "" → last.state.screen = .blank)) ∧
      (∀ frames failing fault, Interrupted turn.machine command.speed frames failing fault →
        frames.length < limit.toNat →
          report.output = pictures frames ∧
          ∃ failure place, report.failure = some failure ∧
            failure.chain = ["halted at " ++ place, fault.message] ∧
            Hexadecimal 3 failing.state.pc.toNat place) ∧
      ((∃ frames last, Played turn.machine command.speed frames last ∧
          frames.length = limit.toNat) ∨
        ∃ frames failing fault, Interrupted turn.machine command.speed frames failing fault ∧
          frames.length < limit.toNat) := by
  obtain ⟨session, opens, opened⟩ := command.session_follows fits watch entropy
  have loaded : (Machine.empty command.dialect command.seed entropy).handle (.load rom entropy) =
    .ok _ := Machine.load_fits fits entropy
  have report : command.report watch (.ok rom) entropy = .ofPlay (session.play limit.toNat) := by
    simp only [Command.report, plays, opens, Command.frameLimit, limited]
    rfl
  refine ⟨_, _, loaded, rfl, report, fun _ _ played => played.steps_due, ?_, ?_, ?_⟩
  · intro frames last played length
    obtain ⟨later, same, follows⟩ := Session.play_follows played opened rfl 0
    rw [Nat.add_zero, length] at same
    have screen := played.screen
    have output : (Report.ofPlay (later, none)).output = pictures frames := follows.output
    rw [same]
    refine ⟨rfl, output, ?_, ?_⟩
    · intro frame found
      rw [screen, found]
      rfl
    · intro blank
      rw [screen, pictures_blank (output.symm.trans blank)]
      rfl
  · intro frames failing fault interrupted before
    obtain ⟨later, same, output⟩ := Session.play_interrupted interrupted opened rfl before
    rw [same]
    exact ⟨output, _, _, rfl, rfl, hex_hexadecimal (by decide) _⟩
  · exact ((Reached.empty _ _ _).call loaded).played command.speed limit.toNat

theorem Machine.step_clear {m : Machine} {w : Word} (ready : m.Ready) (fetches : m.Fetches w)
    (clears : Instruction.ofWord w = .clear) :
    ∃ turn, m.step = .ok turn ∧ turn.reply = .done ∧ turn.machine.state.drawn = true ∧
      turn.machine.state.screen = m.state.screen.clear := by
  have completes : Completes m.dialect m.state.past m.dice (.ofWord w)
      { m.state.past with screen := m.state.screen.clear, drawn := true } m.dice := by
    rw [clears]
    exact .clear
  exact ⟨_, Machine.step_stepped (.completes ready fetches completes), rfl, rfl, rfl⟩

theorem host_schedule_clear :
    ∃ report, Command.report ⟨"clear.ch8", .vip, some 0, 60, some 1, false⟩ none
        (.ok [0x00, 0xE0]) (.ofList []) = report ∧
      report.failure = none ∧ report.output = homeAndClear ++ Display.blank.picture := by
  have fits : ([0x00, 0xE0] : List UInt8).length ≤ programRoom := by decide
  obtain ⟨_, report, loaded, _, reported, _, complete, _⟩ := host_schedule
    ⟨"clear.ch8", .vip, some 0, 60, some 1, false⟩ [0x00, 0xE0] none (.ofList []) rfl rfl fits
  cases (Machine.load_fits fits _).symm.trans loaded
  have clears : Instruction.ofWord (.ofBytes 0x00 0xE0) = .clear := by decide
  obtain ⟨turn, ran, done, drawn, cleared⟩ :=
    Machine.step_clear Machine.started_ready Machine.started_fetches clears
  have advances := Advances.step .nil ran done
  have draws := (advances.draws rfl).symm.trans drawn
  have share : Pace.due 60 0 + 1 = Pace.due 60 1 := by decide
  obtain ⟨failure, output, _⟩ := complete _ _ (.frame .start advances share) rfl
  refine ⟨report, reported, failure, output.trans ?_⟩
  rw [pictures_cons, if_pos draws, cleared]
  exact String.empty_append

end ChipEight
