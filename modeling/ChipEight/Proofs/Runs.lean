import ChipEight.Machine.Event
import ChipEight.Proofs.Steps
namespace ChipEight

def Event.loads : Event → Bool
  | .load program _ => program.length ≤ programRoom
  | _ => false

namespace Machine

def started (m : Machine) (program : List UInt8) (entropy : Dice) : Machine :=
  { m with
    state := { State.fresh with memory := State.fresh.memory.putAll programStart.toNat program }
    dice := startDice m.seed entropy
    loaded := true
    halt := none }

-- Nothing but what a host may change besides loading and stepping is changed.
def Touched (m later : Machine) : Prop :=
  ∃ timers drawn keypad, later = { m with state := { m.state with timers, drawn, keypad } }

-- All that a call can do. A load that is refused is one of the others.
inductive Handled (m : Machine) : Event → Turn → Prop where
  | load (fits : program.length ≤ programRoom) :
      Handled m (.load program entropy)
        ⟨m.started program entropy, .done, [.programLoaded program.length]⟩
  | step (stepped : Stepped m turn) : Handled m .step turn
  | other (unstepped : event ≠ .step) (unloading : event.loads = false)
      (touched : m.Touched turn.machine) : Handled m event turn

variable {m later last other : Machine} {event : Event} {turn : Turn} {program : List UInt8}
  {place : Nat} {entropy : Dice} {keypad : Keypad} {answer : Keypad × Except Fault Unit}

theorem Touched.refl (m : Machine) : m.Touched m := ⟨_, _, _, rfl⟩

theorem Touched.trans (first : m.Touched later) (second : later.Touched last) : m.Touched last := by
  obtain ⟨_, _, _, rfl⟩ := first
  obtain ⟨timers, drawn, keypad, rfl⟩ := second
  exact ⟨timers, drawn, keypad, rfl⟩

theorem Touched.loaded (touched : m.Touched later) : later.loaded = m.loaded := by
  obtain ⟨_, _, _, rfl⟩ := touched
  rfl

theorem Touched.halt (touched : m.Touched later) : later.halt = m.halt := by
  obtain ⟨_, _, _, rfl⟩ := touched
  rfl

theorem Touched.wait (touched : m.Touched later) : later.state.wait = m.state.wait := by
  obtain ⟨_, _, _, rfl⟩ := touched
  rfl

theorem load_fits (fits : program.length ≤ programRoom) (entropy : Dice) :
    m.load program entropy =
      .ok ⟨m.started program entropy, .done, [.programLoaded program.length]⟩ := by
  have inside : programStart.toNat + program.length ≤ memorySize := by
    simp only [programRoom] at fits
    exact Nat.add_le_of_le_sub' (by decide) fits
  simp only [load, if_neg (Nat.not_lt.mpr fits), Memory.store_inside inside]
  rfl

theorem load_oversized (oversized : programRoom < program.length) (entropy : Dice) :
    m.load program entropy = .ok ⟨m, .refused (.oversized program.length programRoom), []⟩ := by
  simp [load, oversized]

theorem started_pc {entropy : Dice} : (m.started program entropy).state.pc = programStart := rfl

theorem started_memory {entropy : Dice} :
    (m.started program entropy).state.memory =
      State.fresh.memory.putAll programStart.toNat program := rfl

theorem started_ready {entropy : Dice} : (m.started program entropy).Ready := ⟨⟨rfl, rfl⟩, rfl⟩

theorem started_byte {entropy : Dice} (fits : program.length ≤ programRoom) (place : Nat) :
    (m.started program entropy).state.memory.byte (programStart.toNat + place) =
      program.getD place 0 := by
  have inside : programStart.toNat + program.length ≤ memorySize := by
    simp only [programRoom] at fits
    exact Nat.add_le_of_le_sub' (by decide) fits
  have behind : fontStart.toNat + font.length ≤ programStart.toNat + place :=
    Nat.le_trans (by decide) (Nat.le_add_right _ _)
  have blank : State.fresh.memory.byte (programStart.toNat + place) = 0 :=
    Memory.byte_withFont behind
  rw [started_memory, Memory.byte_putAll inside, blank]

theorem fetches_program (fits : program.length ≤ programRoom) (within : 2 * place < program.length)
    (pc : m.state.pc.toNat = programStart.toNat + 2 * place)
    (high : m.state.memory.byte m.state.pc.toNat =
      (other.started program entropy).state.memory.byte m.state.pc.toNat)
    (low : m.state.memory.byte (m.state.pc.toNat + 1) =
      (other.started program entropy).state.memory.byte (m.state.pc.toNat + 1)) :
    m.Fetches (.ofBytes (program.getD (2 * place) 0) (program.getD (2 * place + 1) 0)) := by
  have start : programStart.toNat = 512 := rfl
  have room : programRoom = 3584 := rfl
  refine ⟨?_, ?_, ?_⟩
  · omega
  · simp only [memorySize]
    omega
  · rw [high, low, pc, Nat.add_assoc, started_byte fits, started_byte fits]

structure AtWord (m : Machine) (program : List UInt8) (place : Nat) : Prop extends Ready m where
  pc : m.state.pc.toNat = programStart.toNat + 2 * place
  memory : m.state.memory = State.fresh.memory.putAll programStart.toNat program

theorem started_atWord {entropy : Dice} : (m.started program entropy).AtWord program 0 :=
  ⟨started_ready, rfl, rfl⟩

theorem AtWord.byte (here : m.AtWord program place) (fits : program.length ≤ programRoom)
    (offset : Nat) :
    m.state.memory.byte (programStart.toNat + offset) = program.getD offset 0 := by
  have same : m.state.memory = (m.started program m.dice).state.memory := here.memory
  rw [same, started_byte fits]

theorem AtWord.fetches (here : m.AtWord program place) (fits : program.length ≤ programRoom)
    (within : 2 * place < program.length) :
    m.Fetches (.ofBytes (program.getD (2 * place) 0) (program.getD (2 * place + 1) 0)) := by
  have same : m.state.memory = (m.started program m.dice).state.memory := here.memory
  exact fetches_program fits within here.pc (by rw [same]) (by rw [same])

theorem AtWord.executing {w : Word} (here : m.AtWord program place)
    (fits : program.length ≤ programRoom) (within : 2 * place < program.length)
    (word : .ofBytes (program.getD (2 * place) 0) (program.getD (2 * place + 1) 0) = w) :
    m.activity = .executing w := by
  rw [← word]
  exact activity_word here.toReady (here.fetches fits within)

theorem started_fetches {high low : UInt8} {rest : List UInt8} {entropy : Dice} :
    (m.started (high :: low :: rest) entropy).Fetches (.ofBytes high low) := by
  have inside : programStart.toNat + 1 < memorySize := by decide
  refine ⟨?_, ?_, ?_⟩ <;> rw [started_pc]
  · decide
  · exact Nat.lt_of_succ_lt inside
  · rw [started_memory, Memory.byte_putAll_first (Nat.lt_of_succ_lt inside), Memory.putAll,
      Memory.byte_putAll_first inside]

theorem touched_setKeypad : m.Touched (m.setKeypad keypad) := ⟨_, _, keypad, rfl⟩

theorem useKeypad_again {again : Keypad × Except Fault Unit} (same : again.2 = answer.2) :
    other.useKeypad again =
      ⟨other.setKeypad again.1, (m.useKeypad answer).reply, (m.useKeypad answer).notes⟩ := by
  obtain ⟨after, result⟩ := again
  obtain ⟨_, _⟩ := answer
  cases same
  cases result <;> rfl

theorem useKeypad_machine : (m.useKeypad answer).machine = m.setKeypad answer.1 := by
  rw [useKeypad_again (m := m) rfl]

theorem touched_useKeypad : m.Touched (m.useKeypad answer).machine := by
  rw [useKeypad_machine]
  exact touched_setKeypad

theorem touched_takeFrame : m.Touched m.takeFrame.1 := by
  unfold takeFrame
  split
  · exact ⟨_, false, _, rfl⟩
  · exact .refl m

theorem handle_handled (handled : m.handle event = .ok turn) : Handled m event turn := by
  cases event with
  | load program entropy =>
    rcases Nat.lt_or_ge programRoom program.length with oversized | fits
    · cases (load_oversized oversized entropy).symm.trans handled
      exact .other nofun (decide_eq_false (Nat.not_le.mpr oversized)) (.refl m)
    · cases (load_fits fits entropy).symm.trans handled
      exact .load fits
  | step => exact .step (step_ok_iff.mp handled)
  | tick =>
    cases handled
    exact .other nofun rfl ⟨_, _, _, rfl⟩
  | press key =>
    cases handled
    exact .other nofun rfl touched_useKeypad
  | release key =>
    cases handled
    exact .other nofun rfl touched_useKeypad
  | setKeys keypad =>
    cases handled
    exact .other nofun rfl touched_setKeypad
  | takeFrame =>
    cases handled
    exact .other nofun rfl touched_takeFrame

theorem handle_settings (handled : m.handle event = .ok turn) :
    turn.machine.dialect = m.dialect ∧ turn.machine.seed = m.seed := by
  cases handle_handled handled with
  | load => exact ⟨rfl, rfl⟩
  | step stepped => cases stepped <;> exact ⟨rfl, rfl⟩
  | other _ _ touched =>
    obtain ⟨_, _, _, touched⟩ := touched
    rw [touched]
    exact ⟨rfl, rfl⟩

theorem handle_answers (event : Event) (steps : ∃ turn, m.step = .ok turn) :
    ∃ turn, m.handle event = .ok turn := by
  cases event with
  | load program entropy =>
    rcases Nat.lt_or_ge programRoom program.length with oversized | fits
    · exact ⟨_, load_oversized oversized entropy⟩
    · exact ⟨_, load_fits fits entropy⟩
  | step => exact steps
  | _ => exact ⟨_, rfl⟩

end Machine

structure Moment where
  before : Machine
  event : Event
  turn : Turn

-- Runs of a machine, their calls listed with the latest first.
inductive Runs (first : Machine) : List Moment → Machine → Prop where
  | nil : Runs first [] first
  | call (earlier : Runs first past m) (handled : m.handle event = .ok turn) :
      Runs first (⟨m, event, turn⟩ :: past) turn.machine

def calls (past : List Moment) : List Event := past.reverse.map Moment.event

def answers (past : List Moment) : List Reply := past.reverse.map (·.turn.reply)

def sinceLoad (past : List Moment) : List Moment :=
  past.takeWhile fun moment => !moment.event.loads

-- A machine a host can have, and all that was done with it so far.
def Reached (m : Machine) (past : List Moment) : Prop :=
  ∃ dialect seed entropy, Runs (.empty dialect seed entropy) past m

variable {first middle last m : Machine} {past since : List Moment} {moment : Moment}
  {event : Event} {events : List Event} {turn : Turn} {replies : List Reply}

theorem mem_calls : event ∈ calls past ↔ ∃ moment ∈ past, moment.event = event := by
  simp [calls]

theorem calls_cons : calls (moment :: past) = calls past ++ [moment.event] := by simp [calls]

theorem answers_cons : answers (moment :: past) = answers past ++ [moment.turn.reply] := by
  simp [answers]

theorem sinceLoad_cons :
    sinceLoad (⟨m, event, turn⟩ :: past) =
      if event.loads then [] else ⟨m, event, turn⟩ :: sinceLoad past := by
  rw [sinceLoad, List.takeWhile_cons]
  cases event.loads <;> rfl

theorem Runs.unmoved (runs : Runs first [] last) : last = first := by
  cases runs
  rfl

theorem Runs.append (earlier : Runs first past middle) (later : Runs middle since last) :
    Runs first (since ++ past) last := by
  induction later with
  | nil => exact earlier
  | call _ handled ih => exact .call ih handled

theorem Runs.settings (runs : Runs first past last) :
    last.dialect = first.dialect ∧ last.seed = first.seed := by
  induction runs with
  | nil => exact ⟨rfl, rfl⟩
  | call _ handled ih =>
    obtain ⟨dialect, seed⟩ := Machine.handle_settings handled
    exact ⟨dialect.trans ih.1, seed.trans ih.2⟩

theorem Runs.divided (runs : Runs first (since ++ moment :: past) last) :
    Runs first past moment.before ∧ moment.before.handle moment.event = .ok moment.turn ∧
      Runs moment.turn.machine since last := by
  induction since generalizing last with
  | nil =>
    cases runs with
    | call earlier handled => exact ⟨earlier, handled, .nil⟩
  | cons latest since ih =>
    cases runs with
    | call earlier handled =>
      obtain ⟨before, here, after⟩ := ih earlier
      exact ⟨before, here, .call after handled⟩

theorem Reached.empty (dialect : Dialect) (seed : Option UInt64) (entropy : Dice) :
    Reached (.empty dialect seed entropy) [] := ⟨dialect, seed, entropy, .nil⟩

theorem Reached.runs (reached : Reached m past) (runs : Runs m since last) :
    Reached last (since ++ past) := by
  obtain ⟨dialect, seed, entropy, earlier⟩ := reached
  exact ⟨dialect, seed, entropy, earlier.append runs⟩

theorem Reached.call (reached : Reached m past) (handled : m.handle event = .ok turn) :
    Reached turn.machine (⟨m, event, turn⟩ :: past) :=
  reached.runs (.call .nil handled)

theorem Reached.started {program : List UInt8} (reached : Reached m past)
    (fits : program.length ≤ programRoom) (entropy : Dice) :
    ∃ since, Reached (m.started program entropy) since := by
  have handled : m.handle (.load program entropy) = .ok _ := Machine.load_fits fits entropy
  exact ⟨_, reached.call handled⟩

theorem Machine.AtWord.leads {program : List UInt8} {place : Nat} {instruction : Instruction}
    {after : State} {rest : Dice} (here : m.AtWord program place) (next : Nat)
    (fits : program.length ≤ programRoom) (within : 2 * place < program.length)
    (read : .ofWord (.ofBytes (program.getD (2 * place) 0) (program.getD (2 * place + 1) 0)) =
      instruction)
    (completes : Completes m.dialect m.state.past m.dice instruction after rest)
    (leads : after.pc.toNat = programStart.toNat + 2 * next)
    (unwritten : after.memory = m.state.memory) (unwaiting : after.wait = none) :
    ∃ notes, m.handle .step = .ok ⟨{ m with state := after, dice := rest }, .done, notes⟩ ∧
      Machine.AtWord { m with state := after, dice := rest } program next := by
  cases read
  exact ⟨_, Machine.step_stepped (.completes here.toReady (here.fetches fits within) completes),
    ⟨⟨here.loaded, here.unhalted⟩, unwaiting⟩, leads, unwritten.trans here.memory⟩

theorem Reached.onward {program : List UInt8} {place : Nat} {instruction : Instruction}
    {after : State} {rest : Dice} (reached : Reached m past) (here : m.AtWord program place)
    (fits : program.length ≤ programRoom) (within : 2 * place < program.length)
    (read : .ofWord (.ofBytes (program.getD (2 * place) 0) (program.getD (2 * place + 1) 0)) =
      instruction)
    (completes : Completes m.dialect m.state.past m.dice instruction after rest)
    (straight : after.pc = m.state.past.pc) (unwritten : after.memory = m.state.memory)
    (unwaiting : after.wait = none) :
    ∃ turn, Reached { m with state := after, dice := rest } (⟨m, .step, turn⟩ :: past) ∧
      Machine.AtWord { m with state := after, dice := rest } program (place + 1) := by
  have leads : after.pc.toNat = programStart.toNat + 2 * (place + 1) := by
    have pc := here.pc
    have start : programStart.toNat = 512 := rfl
    have room : programRoom = 3584 := rfl
    rw [straight, State.past, UInt16.toNat_add, pc]
    change (_ + 2) % 65536 = _
    omega
  obtain ⟨_, handled, there⟩ := here.leads (place + 1) fits within read completes leads unwritten
    unwaiting
  exact ⟨_, reached.call handled, there⟩

@[elab_as_elim]
theorem Reached.induct {motive : ∀ m past, Reached m past → Prop}
    (new : ∀ dialect seed entropy, motive _ _ (.empty dialect seed entropy))
    (call : ∀ m past event turn (reached : Reached m past) (handled : m.handle event = .ok turn),
      motive m past reached → motive turn.machine _ (reached.call handled))
    (reached : Reached m past) : motive m past reached := by
  obtain ⟨dialect, seed, entropy, runs⟩ := reached
  induction runs with
  | nil => exact new dialect seed entropy
  | call earlier handled ih => exact call _ _ _ _ ⟨dialect, seed, entropy, earlier⟩ handled ih

theorem run_cons (handled : m.handle event = .ok turn)
    (ran : turn.machine.run events = .ok (last, replies)) :
    m.run (event :: events) = .ok (last, turn.reply :: replies) := by
  simp [Machine.run, handled, ran, Except.map]

theorem run_cons_iff :
    m.run (event :: events) = .ok (last, replies) ↔
      ∃ turn more, m.handle event = .ok turn ∧ turn.machine.run events = .ok (last, more) ∧
        replies = turn.reply :: more := by
  constructor
  · intro ran
    unfold Machine.run at ran
    cases handled : m.handle event with
    | error trap => simp [handled] at ran
    | ok turn =>
      cases ranRest : turn.machine.run events with
      | error trap => simp [handled, ranRest, Except.map] at ran
      | ok result =>
        obtain ⟨final, more⟩ := result
        simp only [handled, ranRest, Except.map, Except.ok.injEq, Prod.mk.injEq] at ran
        obtain ⟨rfl, rfl⟩ := ran
        exact ⟨turn, more, rfl, ranRest, rfl⟩
  · rintro ⟨turn, more, handled, ran, rfl⟩
    exact run_cons handled ran

theorem run_append_iff {others : List Event} :
    m.run (events ++ others) = .ok (last, replies) ↔
      ∃ middle front back, m.run events = .ok (middle, front) ∧
        middle.run others = .ok (last, back) ∧ replies = front ++ back := by
  constructor
  · intro ran
    induction events generalizing m replies with
    | nil => exact ⟨m, [], replies, rfl, ran, rfl⟩
    | cons event rest ih =>
      obtain ⟨turn, more, handled, ranRest, rfl⟩ := run_cons_iff.mp ran
      obtain ⟨middle, front, back, ranFront, ranBack, rfl⟩ := ih ranRest
      exact ⟨middle, _, back, run_cons handled ranFront, ranBack, rfl⟩
  · rintro ⟨middle, front, back, ranFront, ranBack, rfl⟩
    induction events generalizing m front with
    | nil =>
      cases ranFront
      exact ranBack
    | cons event rest ih =>
      obtain ⟨turn, more, handled, ranRest, rfl⟩ := run_cons_iff.mp ranFront
      exact run_cons handled (ih more ranRest)

theorem run_runs (ran : first.run events = .ok (last, replies)) :
    ∃ past, Runs first past last ∧ calls past = events ∧ answers past = replies := by
  induction events generalizing first replies with
  | nil =>
    cases ran
    exact ⟨[], .nil, rfl, rfl⟩
  | cons event rest ih =>
    obtain ⟨turn, more, handled, ranRest, rfl⟩ := run_cons_iff.mp ran
    obtain ⟨since, runs, rfl, rfl⟩ := ih ranRest
    have whole := (Runs.call .nil handled).append runs
    exact ⟨_, whole, by simp [calls], by simp [answers]⟩

theorem Runs.latest (runs : Runs first since last) (events : List Event) (event : Event)
    (called : calls since = events ++ [event]) :
    ∃ before earlier turn, since = ⟨before, event, turn⟩ :: earlier ∧ Runs first earlier before ∧
      calls earlier = events ∧ before.handle event = .ok turn ∧ last = turn.machine := by
  cases runs with
  | nil => simp [calls] at called
  | @call earlier before event turn runs handled =>
    rw [calls_cons] at called
    obtain ⟨rfl, rfl⟩ := List.append_singleton_inj.mp called
    exact ⟨before, earlier, turn, rfl, runs, rfl, handled, rfl⟩

theorem Runs.unique {other : Machine} (runs : Runs first past last) (again : Runs first since other)
    (same : calls since = calls past) : since = past ∧ other = last := by
  induction runs generalizing since other with
  | nil =>
    cases again with
    | nil => exact ⟨rfl, rfl⟩
    | call => simp [calls] at same
  | call _ handled ih =>
    obtain ⟨_, _, _, rfl, before, sameBefore, handledAgain, rfl⟩ :=
      again.latest _ _ (same.trans calls_cons)
    obtain ⟨rfl, rfl⟩ := ih before sameBefore
    cases handled.symm.trans handledAgain
    exact ⟨rfl, rfl⟩

end ChipEight
