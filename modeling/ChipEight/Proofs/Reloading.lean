import ChipEight.Proofs.Throws
namespace ChipEight

variable {m first last other : Machine} {past since : List Moment} {program : List UInt8}
  {event another : Event} {known : UInt64}

namespace Machine

theorem started_seeded (entropy again : Dice) (dialect : other.dialect = m.dialect)
    (seeded : m.seed = some known) (same : other.seed = m.seed) :
    other.started program again = m.started program entropy := by
  have dice : startDice m.seed again = startDice m.seed entropy := by rw [seeded]; rfl
  simp only [started, dialect, same, dice]

theorem handle_same (seeded : m.seed = some known) (same : event.Same another) :
    m.handle another = m.handle event := by
  cases same with
  | refl => rfl
  | @load program entropy again =>
    by_cases fits : program.length ≤ programRoom
    · have sameStart : m.started program again = m.started program entropy :=
        started_seeded entropy again rfl seeded rfl
      simp only [handle, load_fits fits, sameStart]
    · simp only [handle, load_oversized (Nat.not_le.mp fits)]

end Machine

theorem Runs.twin (one : Runs first past last) (two : Runs first since other)
    (seeded : first.seed = some known) (same : List.Forall₂ Event.Same (calls past) (calls since)) :
    List.Forall₂ (Moment.Matches Eq) past since ∧ last = other := by
  apply one.lockstep two same rfl
  intro here present there sameEvent alike handled handledThere
  obtain ⟨later, earlier, split⟩ := List.append_of_mem present
  have seededHere : here.before.seed = some known := by
    rw [split] at one
    exact one.divided.1.settings.2.trans seeded
  rw [← alike, Machine.handle_same seededHere sameEvent, handled] at handledThere
  have turn := Except.ok.inj handledThere
  exact ⟨by rw [turn], by rw [turn], by rw [turn]⟩

-- A program that is loaded finds nothing of what was done before: two machines that were made
-- alike, whatever state they are in, are one and the same from there on, to the last call. A
-- program that does not fit leaves no trace at all.
theorem load_forgets (reached : Reached m past) (program : List UInt8) (entropy : Dice) :
    (program.length ≤ 3584 →
      ∀ other : Machine, other.dialect = m.dialect → other.seed = m.seed → m.seed ≠ none →
        ∀ again events others, List.Forall₂ Event.Same events others →
          ∃ start last after afterThere,
            m.run (.load program entropy :: events) = .ok (last, .done :: answers after) ∧
            other.run (.load program again :: others) = .ok (last, .done :: answers after) ∧
            m.handle (.load program entropy) = .ok start ∧
            other.handle (.load program again) = .ok start ∧
            calls after = events ∧ Runs start.machine after last ∧
            calls afterThere = others ∧ Runs start.machine afterThere last ∧
            List.Forall₂ (Moment.Matches Eq) after afterThere) ∧
    (3584 < program.length →
      m.handle (.load program entropy) =
        .ok ⟨m, .refused (.oversized program.length 3584), []⟩ ∧
      ∀ events, ∃ last after, m.run events = .ok (last, answers after) ∧
        calls after = events ∧ Runs m after last ∧
        m.run (.load program entropy :: events) =
          .ok (last, .refused (.oversized program.length 3584) :: answers after)) := by
  constructor
  · intro fits other dialect sameSeed seeded again events others same
    obtain ⟨known, seeded⟩ := Option.ne_none_iff_exists'.mp seeded
    have loaded : m.handle (.load program entropy) = .ok _ := Machine.load_fits fits entropy
    have loadedThere : other.handle (.load program again) = .ok _ := Machine.load_fits fits again
    rw [Machine.started_seeded entropy again dialect seeded sameSeed] at loadedThere
    obtain ⟨last, after, ran, called, runs⟩ := (reached.call loaded).run events
    obtain ⟨lastThere, afterThere, ranThere, calledThere, runsThere⟩ :=
      (reached.call loaded).run others
    rw [← called, ← calledThere] at same
    obtain ⟨matched, rfl⟩ := runs.twin runsThere seeded same
    rw [answers_matches matched] at ranThere
    exact ⟨_, last, after, afterThere, run_cons loaded ran, run_cons loadedThere ranThere, loaded,
      loadedThere, called, runs, calledThere, runsThere, matched⟩
  · intro oversized
    have refused : m.handle (.load program entropy) = .ok _ :=
      Machine.load_oversized oversized entropy
    refine ⟨refused, ?_⟩
    intro events
    obtain ⟨last, after, ran, called, runs⟩ := reached.run events
    exact ⟨last, after, ran, called, runs, run_cons refused ran⟩

theorem load_forgets_waiting :
    ∃ m past other since last replies, Reached m past ∧ Reached other since ∧
      m.activity = .refused .notLoaded ∧ other.activity = .waiting ∧
      m.run [.load [0xC0, 0xFF] (.ofList []), .step] = .ok (last, replies) ∧
      other.run [.load [0xC0, 0xFF] (.ofList [3]), .step] = .ok (last, replies) := by
  let start := Machine.empty .vip (some 7) (.ofList [])
  have new : Reached start [] := .empty _ _ _
  have loaded : start.handle (.load [0xF0, 0x0A] (.ofList [])) = .ok _ :=
    Machine.load_fits (by decide) (.ofList [])
  have ready : (start.started [0xF0, 0x0A] (.ofList [])).Ready := Machine.started_ready
  have fetches : (start.started [0xF0, 0x0A] (.ofList [])).Fetches 0xF00A := Machine.started_fetches
  have stepped : (start.started [0xF0, 0x0A] (.ofList [])).handle .step = .ok _ :=
    Machine.step_stepped (.completes ready fetches (.waitKey fetches.returnable.past))
  have runs := Runs.call (.call .nil loaded) stepped
  obtain ⟨dialect, seed⟩ := runs.settings
  have same : List.Forall₂ Event.Same [.step] [.step] := .cons .refl .nil
  obtain ⟨_, last, after, _, ran, ranThere, _⟩ := (load_forgets new [0xC0, 0xFF] (.ofList [])).1
    (by decide) _ dialect seed nofun (.ofList [3]) [.step] [.step] same
  exact ⟨start, [], _, _, last, _, new, new.runs runs, rfl,
    Machine.activity_waiting ⟨ready.loaded, ready.unhalted⟩ rfl, ran, ranThere⟩

end ChipEight
