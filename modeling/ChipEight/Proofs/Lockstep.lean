import ChipEight.Proofs.Runs
import Mathlib.Data.List.Forall2
namespace ChipEight

structure Moment.Matches (Alike : Machine → Machine → Prop) (one two : Moment) : Prop where
  before : Alike one.before two.before
  reply : two.turn.reply = one.turn.reply
  notes : two.turn.notes = one.turn.notes
  after : Alike one.turn.machine two.turn.machine

namespace Machine

variable {m other : Machine} {event : Event} {turn : Turn}

theorem useKeypad_alike (answer : Keypad × Except Fault Unit) (same : other.state = m.state) :
    (m.useKeypad answer).machine = { m with state := (m.useKeypad answer).machine.state } ∧
      other.useKeypad answer = ⟨{ other with state := (m.useKeypad answer).machine.state },
        (m.useKeypad answer).reply, (m.useKeypad answer).notes⟩ := by
  rw [useKeypad_machine]
  refine ⟨rfl, ?_⟩
  rw [useKeypad_again (m := m) rfl, setKeypad, setKeypad, same]

theorem takeFrame_alike (same : other.state = m.state) :
    m.takeFrame.1 = { m with state := m.takeFrame.1.state } ∧
      other.takeFrame = ({ other with state := m.takeFrame.1.state }, m.takeFrame.2) := by
  unfold takeFrame
  rw [same]
  split
  · exact ⟨rfl, rfl⟩
  · refine ⟨rfl, ?_⟩
    rw [← same]

theorem handle_alike (unstepped : event ≠ .step) (unloading : event.loads = false)
    (same : other.state = m.state) (handled : m.handle event = .ok turn) :
    turn.machine = { m with state := turn.machine.state } ∧
      other.handle event =
        .ok ⟨{ other with state := turn.machine.state }, turn.reply, turn.notes⟩ := by
  cases event with
  | load program entropy =>
    have oversized : programRoom < program.length := by simpa [Event.loads] using unloading
    cases (load_oversized oversized entropy).symm.trans handled
    refine ⟨rfl, (load_oversized oversized entropy).trans ?_⟩
    rw [← same]
  | step => exact absurd rfl unstepped
  | tick =>
    cases handled
    refine ⟨rfl, ?_⟩
    rw [handle, tick, tick, same]
  | press key =>
    cases handled
    obtain ⟨only, alike⟩ := useKeypad_alike (m.state.keypad.press key) same
    refine ⟨only, ?_⟩
    rw [handle, same, alike]
  | release key =>
    cases handled
    obtain ⟨only, alike⟩ := useKeypad_alike (m.state.keypad.release key) same
    refine ⟨only, ?_⟩
    rw [handle, same, alike]
  | setKeys keypad =>
    cases handled
    refine ⟨rfl, ?_⟩
    rw [handle, setKeypad, setKeypad, same]
  | takeFrame =>
    cases handled
    obtain ⟨only, alike⟩ := takeFrame_alike same
    refine ⟨only, ?_⟩
    rw [handle, alike]

end Machine

variable {Alike : Machine → Machine → Prop} {Same : Event → Event → Prop}
  {first second last other : Machine} {past since : List Moment}

theorem answers_matches (matched : List.Forall₂ (Moment.Matches Alike) past since) :
    answers since = answers past := by
  induction matched with
  | nil => rfl
  | cons here _ ih => rw [answers_cons, answers_cons, ih, here.reply]

-- Two machines go on side by side where every call that is made on both keeps them alike.
theorem Runs.lockstep (one : Runs first past last) (two : Runs second since other)
    (same : List.Forall₂ Same (calls past) (calls since)) (start : Alike first second)
    (keeps : ∀ here ∈ past, ∀ there : Moment, Same here.event there.event →
      Alike here.before there.before → here.before.handle here.event = .ok here.turn →
      there.before.handle there.event = .ok there.turn →
      there.turn.reply = here.turn.reply ∧ there.turn.notes = here.turn.notes ∧
        Alike here.turn.machine there.turn.machine) :
    List.Forall₂ (Moment.Matches Alike) past since ∧ Alike last other := by
  have latestFirst : List.Forall₂ (fun here there => Same here.event there.event) past since := by
    rwa [calls, calls, List.map_reverse, List.map_reverse, List.forall₂_reverse_iff,
      List.forall₂_map_left_iff, List.forall₂_map_right_iff] at same
  clear same
  induction one generalizing since other with
  | nil =>
    cases latestFirst
    cases two
    exact ⟨.nil, start⟩
  | call earlier handled ih =>
    cases latestFirst with
    | cons sameNow sameBefore =>
      cases two with
      | call before handledThere =>
        obtain ⟨keepsNow, keepsBefore⟩ := List.forall_mem_cons.mp keeps
        obtain ⟨matched, alike⟩ := ih before keepsBefore sameBefore
        obtain ⟨reply, notes, after⟩ := keepsNow _ sameNow alike handled handledThere
        exact ⟨.cons ⟨alike, reply, notes, after⟩ matched, after⟩

end ChipEight
