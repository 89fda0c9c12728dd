import ChipEight.Proofs.Footprint
namespace ChipEight

def Event.takes : Event → Bool
  | .takeFrame => true
  | _ => false

def lastFrame : List Moment → Display
  | [] => .blank
  | moment :: earlier =>
    match moment.turn.reply with
    | .frame (some picture) => picture
    | _ => lastFrame earlier

def sinceFrame (past : List Moment) : List Moment :=
  past.takeWhile fun moment => !(moment.event.loads || moment.event.takes)

variable {m : Machine} {past : List Moment} {event : Event} {turn : Turn}
  {answer : Keypad × Except Fault Unit}

namespace Machine

theorem handle_drawn (handled : m.handle event = .ok turn) :
    turn.machine.state.drawn =
      (!(event.loads || event.takes) && (m.state.drawn || Moment.draws ⟨m, event, turn⟩)) := by
  cases event with
  | load program entropy =>
    rcases Nat.lt_or_ge programRoom program.length with oversized | fits
    · cases (load_oversized oversized entropy).symm.trans handled
      simp [Event.loads, Event.takes, Nat.not_le.mpr oversized, Moment.draws, Moment.word?]
    · cases (load_fits fits entropy).symm.trans handled
      simp [Event.loads, fits, started, State.fresh]
  | step =>
    rw [stepped_drawn (step_ok_iff.mp handled)]
    rfl
  | takeFrame =>
    cases handled
    cases drawn : m.state.drawn <;> simp [takeFrame, drawn, Event.takes]
  | tick =>
    cases handled
    exact (Bool.or_false _).symm
  | press key =>
    cases handled
    rw [useKeypad_machine]
    exact (Bool.or_false _).symm
  | release key =>
    cases handled
    rw [useKeypad_machine]
    exact (Bool.or_false _).symm
  | setKeys =>
    cases handled
    exact (Bool.or_false _).symm

theorem handle_screen (handled : m.handle event = .ok turn)
    (still : Moment.draws ⟨m, event, turn⟩ = false) :
    turn.machine.state.screen = if event.loads then .blank else m.state.screen := by
  cases handle_handled handled with
  | load fits =>
    exact (if_pos (decide_eq_true fits)).symm
  | step stepped =>
    rw [stepped_screen stepped still]
    rfl
  | other _ unloading touched =>
    obtain ⟨_, _, _, touched⟩ := touched
    rw [touched, unloading]
    rfl

theorem useKeypad_lastFrame :
    lastFrame (⟨m, event, m.useKeypad answer⟩ :: past) = lastFrame past := by
  rcases answer with ⟨_, _ | _⟩ <;> rfl

theorem handle_lastFrame (handled : m.handle event = .ok turn) (past : List Moment) :
    lastFrame (⟨m, event, turn⟩ :: past) =
      if event.takes && m.state.drawn then m.state.screen else lastFrame past := by
  cases event with
  | load program entropy =>
    rcases Nat.lt_or_ge programRoom program.length with oversized | fits
    · cases (load_oversized oversized entropy).symm.trans handled
      rfl
    · cases (load_fits fits entropy).symm.trans handled
      rfl
  | step => cases step_ok_iff.mp handled <;> rfl
  | takeFrame =>
    cases handled
    cases drawn : m.state.drawn <;> simp [takeFrame, drawn, Event.takes, lastFrame]
  | tick =>
    cases handled
    rfl
  | press key =>
    cases handled
    exact useKeypad_lastFrame
  | release key =>
    cases handled
    exact useKeypad_lastFrame
  | setKeys =>
    cases handled
    rfl

end Machine

theorem sinceFrame_cons :
    sinceFrame (⟨m, event, turn⟩ :: past) =
      if event.loads || event.takes then [] else ⟨m, event, turn⟩ :: sinceFrame past := by
  rw [sinceFrame, List.takeWhile_cons]
  cases event.loads || event.takes <;> rfl

theorem Reached.drawn (reached : Reached m past) :
    m.state.drawn = (sinceFrame past).any Moment.draws := by
  induction reached using Reached.induct with
  | new => rfl
  | call m past event turn _ handled ih =>
    rw [Machine.handle_drawn handled, ih, sinceFrame_cons]
    cases event.loads || event.takes
    · exact Bool.or_comm _ _
    · rfl

theorem Reached.seen (reached : Reached m past) (undrawn : m.state.drawn = false) :
    m.state.screen = lastFrame (sinceLoad past) := by
  induction reached using Reached.induct with
  | new => rfl
  | call m past event turn _ handled ih =>
    rw [Machine.handle_drawn handled] at undrawn
    have still : Moment.draws ⟨m, event, turn⟩ = false := by
      cases event with
      | step => exact (Bool.or_eq_false_iff.mp undrawn).2
      | _ => rfl
    rw [Machine.handle_screen handled still, sinceLoad_cons]
    cases loads : event.loads with
    | true => rfl
    | false =>
      rw [if_neg nofun, if_neg nofun, Machine.handle_lastFrame handled]
      split
      · rfl
      · rename_i kept
        refine ih ?_
        cases takes : event.takes <;> simp_all

-- A picture is held back only where nothing has been drawn since one was handed out or a
-- program was loaded, and then the screen shows what was handed out since that load.
theorem take_frame_exact (reached : Reached m past) :
    ∃ turn, m.handle .takeFrame = .ok turn ∧
      (turn.reply = .frame none ∨ turn.reply = .frame (some m.state.screen)) ∧
      (turn.reply = .frame none ↔ ∀ moment ∈ sinceFrame past, moment.draws = false) ∧
      (turn.reply = .frame none → m.state.screen = lastFrame (sinceLoad past)) := by
  have drawn := reached.drawn
  refine ⟨_, rfl, ?_⟩
  cases undrawn : m.state.drawn with
  | true =>
    rw [undrawn] at drawn
    obtain ⟨moment, present, draws⟩ := List.any_eq_true.mp drawn.symm
    have handed : m.takeFrame.2 = some m.state.screen := by simp [Machine.takeFrame, undrawn]
    rw [handed]
    refine ⟨.inr rfl, ⟨nofun, fun none => ?_⟩, nofun⟩
    cases draws.symm.trans (none moment present)
  | false =>
    rw [undrawn] at drawn
    have kept : m.takeFrame.2 = none := by simp [Machine.takeFrame, undrawn]
    rw [kept]
    refine ⟨.inl rfl, ⟨fun _ moment present => ?_, fun _ => rfl⟩, fun _ => reached.seen undrawn⟩
    exact Bool.eq_false_iff.mpr (List.any_eq_false.mp drawn.symm moment present)

theorem dot_drawn :
    ∃ m past, Reached m past ∧
      calls past = [.load [0xA2, 0x04, 0xD0, 0x01, 0x80] (.ofList []), .step, .step] ∧
      m.state.drawn = true ∧ m.state.screen.get 0 0 = true := by
  let program : List UInt8 := [0xA2, 0x04, 0xD0, 0x01, 0x80]
  have fits : program.length ≤ programRoom := by decide
  have loaded : (Machine.empty .vip none (.ofList [])).handle (.load program (.ofList [])) = .ok _ :=
    Machine.load_fits fits (.ofList [])
  obtain ⟨_, reached, here⟩ := ((Reached.empty .vip none (.ofList [])).call loaded).onward
    Machine.started_atWord fits (by decide) (show _ = Instruction.loadIndex 0x204 by decide)
    .loadIndex rfl rfl rfl
  obtain ⟨m, past, reached, called, here, i, v, screen⟩ : ∃ m past, Reached m past ∧
      calls past = [.load program (.ofList []), .step] ∧ m.AtWord program 1 ∧ m.state.i = 0x204 ∧
      m.state.v = Vector.replicate 16 0 ∧ m.state.screen = .blank :=
    ⟨_, _, reached, rfl, here, rfl, rfl, rfl⟩
  have inside : m.state.past.i.toNat + (1 : Fin 16).val ≤ memorySize := by
    change m.state.i.toNat + 1 ≤ 4096
    rw [i]
    decide
  have sprite : m.state.memory.bytesFrom 0x204 1 = [0x80] :=
    congrArg (fun byte => [byte]) (here.byte fits 4)
  have points : Sprite.placed (m.state.memory.bytesFrom m.state.i.toNat 1)
      (m.state.value 0).toNat (m.state.value 0).toNat = [(0, 0)] := by
    rw [i, State.value, v]
    exact (congrArg (Sprite.placed · 0 0) sprite).trans (by decide)
  obtain ⟨_, reached, _⟩ := reached.onward here fits (by decide)
    (show _ = Instruction.draw 0 0 1 by decide) (.draw inside rfl) rfl rfl here.unwaiting
  refine ⟨_, _, reached, by rw [calls_cons, called]; rfl, rfl, ?_⟩
  change (m.state.screen.toggleAll (Sprite.placed (m.state.memory.bytesFrom m.state.i.toNat 1)
    (m.state.value 0).toNat (m.state.value 0).toNat)).screen.get 0 0 = true
  rw [points, screen]
  simp [Screen.toggleAll, Screen.Drawing.toggle, Screen.get_set, Display.blank, Screen.get_blank]

theorem take_frame_exact_dot :
    ∃ m past turn, Reached m past ∧ m.handle .takeFrame = .ok turn ∧
      turn.reply = .frame (some m.state.screen) ∧ m.state.screen.get 0 0 = true := by
  obtain ⟨m, past, reached, _, drawn, on⟩ := dot_drawn
  obtain ⟨turn, handled, none | some, untaken, _⟩ := take_frame_exact reached
  · have still := List.any_eq_false.mpr (by simpa using untaken.mp none)
    cases drawn.symm.trans (reached.drawn.trans still)
  · exact ⟨m, past, turn, reached, handled, some, on⟩

-- A load takes the point away, and no host is told.
theorem stale_after_load :
    ∃ m past turn, Reached m past ∧
      calls past = [.load [0xA2, 0x04, 0xD0, 0x01, 0x80] (.ofList []), .step, .step, .takeFrame,
        .load [] (.ofList [])] ∧
      m.handle .takeFrame = .ok turn ∧ turn.reply = .frame none ∧
      m.state.screen.get 0 0 = false ∧ (lastFrame past).get 0 0 = true := by
  obtain ⟨m, past, reached, called, drawn, on⟩ := dot_drawn
  have taken : m.handle .takeFrame = .ok _ := rfl
  have loaded : m.takeFrame.1.handle (.load [] (.ofList [])) = .ok _ :=
    Machine.load_fits (by decide) (.ofList [])
  refine ⟨_, _, _, (reached.call taken).call loaded, ?_, rfl, rfl, Screen.get_blank _ _, ?_⟩
  · rw [calls_cons, calls_cons, called]
    rfl
  · rw [Machine.handle_lastFrame loaded, Machine.handle_lastFrame taken, drawn]
    exact on

end ChipEight
