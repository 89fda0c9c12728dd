import ChipEight.Machine
import ChipEight.Proofs.Decoding
import ChipEight.Proofs.Effects
namespace ChipEight

-- The state an instruction works on: the pc is already past it.
def State.past (s : State) : State := { s with pc := s.pc + 2 }

theorem State.past_pc_back (s : State) : s.past.pc - 2 = s.pc := UInt16.add_sub_cancel _ _

namespace Machine

structure Running (m : Machine) : Prop where
  loaded : m.loaded = true
  unhalted : m.halt = none

structure Ready (m : Machine) : Prop extends Running m where
  unwaiting : m.state.wait = none

structure Fetches (m : Machine) (w : Word) : Prop where
  even : m.state.pc.toNat % 2 = 0
  inside : m.state.pc.toNat < memorySize
  word : w = .ofBytes (m.state.memory.byte m.state.pc.toNat)
    (m.state.memory.byte (m.state.pc.toNat + 1))

-- All that a step can do, as rules on the machine before it. A step that fails
-- leaves nothing but the reason.
inductive Stepped (m : Machine) : Turn → Prop where
  | unloaded (unloaded : m.loaded = false) : Stepped m ⟨m, .refused .notLoaded, []⟩
  | halted (loaded : m.loaded = true) (halted : m.halt = some cause) :
      Stepped m ⟨m, .refused .halted, []⟩
  | idle (running : m.Running) (waiting : m.state.wait = some wait)
      (quiet : m.state.keypad.fresh wait.seen = none) :
      Stepped m ⟨{ m with state.wait := some { wait with seen := m.state.keypad } }, .done, []⟩
  | resumed (running : m.Running) (waiting : m.state.wait = some wait)
      (fresh : m.state.keypad.fresh wait.seen = some key) (named : wait.register.toNat < 16)
      (room : m.state.pc.toNat + 2 < 0x10000) :
      Stepped m ⟨{ m with state := { m.state.setV ⟨wait.register.toNat, named⟩ (UInt8.ofNat key.val)
        with pc := m.state.pc + 2, wait := none } }, .done,
        [.keyReceived (UInt8.ofNat key.val) wait.register]⟩
  | misaligned (ready : m.Ready) (odd : m.state.pc.toNat % 2 = 1) :
      Stepped m ⟨{ m with halt := some (.misaligned m.state.pc) },
        .refused (.misaligned m.state.pc), [.halted m.state.pc (.misaligned m.state.pc)]⟩
  | outside (ready : m.Ready) (even : m.state.pc.toNat % 2 = 0)
      (outside : memorySize ≤ m.state.pc.toNat) :
      Stepped m ⟨{ m with halt := some (.outsideMemory m.state.pc.toNat) },
        .refused (.outsideMemory m.state.pc.toNat),
        [.halted m.state.pc (.outsideMemory m.state.pc.toNat)]⟩
  | completes (ready : m.Ready) (fetches : m.Fetches w)
      (completes : Completes m.dialect m.state.past m.dice (.ofWord w) after rest) :
      Stepped m ⟨{ m with state := after, dice := rest }, .done,
        .executing m.state.pc w m.state.v m.state.i ::
          (Instruction.ofWord w).notes m.dialect (m.state.pc + 2)⟩
  | fails (ready : m.Ready) (fetches : m.Fetches w)
      (fails : Fails m.dialect m.state.past (.ofWord w) fault) :
      Stepped m ⟨{ m with halt := some fault }, .refused fault,
        [.executing m.state.pc w m.state.v m.state.i, .halted m.state.pc fault]⟩

inductive Stranded (m : Machine) : Prop where
  | register (running : m.Running) (waiting : m.state.wait = some wait)
      (fresh : m.state.keypad.fresh wait.seen = some key) (unnamed : 16 ≤ wait.register.toNat)
  | resume (running : m.Running) (waiting : m.state.wait = some wait)
      (fresh : m.state.keypad.fresh wait.seen = some key) (last : 0xFFFE ≤ m.state.pc.toNat)
  | executing (ready : m.Ready) (fetches : m.Fetches w) (traps : Traps m.state.past (.ofWord w))

variable {m : Machine} {w : Word} {turn : Turn}

theorem Fetches.same {later : Machine} (fetches : m.Fetches w) (pc : later.state.pc = m.state.pc)
    (memory : later.state.memory = m.state.memory) : later.Fetches w := by
  obtain ⟨even, inside, word⟩ := fetches
  refine ⟨?_, ?_, ?_⟩ <;> rw [pc]
  · exact even
  · exact inside
  · rw [memory]
    exact word

theorem Fetches.unique {other : Word} (fetches : m.Fetches w) (again : m.Fetches other) :
    other = w := again.word.trans fetches.word.symm

theorem fetch_word (fetches : m.Fetches w) : m.fetch = .ok w := by
  have whole : m.state.pc.toNat + 2 ≤ memorySize := by
    have even := fetches.even
    have inside := fetches.inside
    simp only [memorySize] at *
    omega
  rw [fetch, if_pos fetches.even, Memory.word_inside whole, ← fetches.word]

theorem fetch_odd (odd : m.state.pc.toNat % 2 = 1) :
    m.fetch = .error (.fault (.misaligned m.state.pc)) := by
  simp [fetch, odd]

theorem fetch_outside (even : m.state.pc.toNat % 2 = 0) (outside : memorySize ≤ m.state.pc.toNat) :
    m.fetch = .error (.fault (.outsideMemory m.state.pc.toNat)) := by
  have counted : m.state.pc.toNat + 2 < countLimit := by
    have bound := m.state.pc.toNat_lt
    simp only [countLimit]
    omega
  have beyond : memorySize < m.state.pc.toNat + 2 := by omega
  rw [fetch, if_pos even, Memory.word_outside counted beyond, Nat.max_eq_left outside]

theorem misaligned_or_outside_or_fetches (m : Machine) :
    m.state.pc.toNat % 2 = 1 ∨
      (m.state.pc.toNat % 2 = 0 ∧ memorySize ≤ m.state.pc.toNat) ∨ ∃ w, m.Fetches w := by
  rcases Nat.mod_two_eq_zero_or_one m.state.pc.toNat with even | odd
  · rcases Nat.lt_or_ge m.state.pc.toNat memorySize with inside | outside
    · exact .inr (.inr ⟨_, even, inside, rfl⟩)
    · exact .inr (.inl ⟨even, outside⟩)
  · exact .inl odd

theorem activity_waiting {wait : KeyWait} (running : m.Running) (waiting : m.state.wait = some wait) :
    m.activity = .waiting := by
  simp [activity, running.loaded, running.unhalted, waiting]

theorem activity_word (ready : m.Ready) (fetches : m.Fetches w) : m.activity = .executing w := by
  simp [activity, ready.loaded, ready.unhalted, ready.unwaiting, fetch_word fetches]

theorem activity_executing_iff : m.activity = .executing w ↔ m.Ready ∧ m.Fetches w := by
  refine ⟨fun executing => ?_, fun ⟨ready, fetches⟩ => activity_word ready fetches⟩
  unfold activity at executing
  split at executing
  · cases executing
  split at executing
  · cases executing
  split at executing
  · cases executing
  rename_i loaded unhalted unwaiting
  have ready : m.Ready := ⟨⟨by simpa using loaded, by simpa using unhalted⟩, by simpa using unwaiting⟩
  refine ⟨ready, ?_⟩
  rcases misaligned_or_outside_or_fetches m with odd | ⟨even, outside⟩ | ⟨word, fetches⟩
  · rw [fetch_odd odd] at executing
    cases executing
  · rw [fetch_outside even outside] at executing
    cases executing
  · rw [fetch_word fetches] at executing
    cases executing
    exact fetches

theorem activity_stuck {stop : Stop} (ready : m.Ready) (fetched : m.fetch = .error stop) :
    m.activity = .stuck stop := by
  simp [activity, ready.loaded, ready.unhalted, ready.unwaiting, fetched]

theorem forward_fetches (fetches : m.Fetches w) : m.state.forward = .ok m.state.past := by
  apply State.forward_room
  have inside := fetches.inside
  simp only [memorySize] at inside
  omega

theorem step_stepped (stepped : Stepped m turn) : m.step = .ok turn := by
  cases stepped with
  | unloaded unloaded => simp [step, activity, unloaded]
  | halted loaded halted => simp [step, activity, loaded, halted]
  | idle running waiting quiet =>
    simp only [step, activity_waiting running waiting, look, State.look_quiet waiting quiet,
      State.lookNotes, State.awaited_of_wait waiting, quiet]
    rfl
  | resumed running waiting fresh named room =>
    simp only [step, activity_waiting running waiting, look,
      State.look_fresh waiting fresh named room, State.lookNotes, State.awaited_of_wait waiting, fresh]
    rfl
  | misaligned ready odd =>
    simp only [step, activity_stuck ready (fetch_odd odd), haltAt]
    rfl
  | outside ready even outside =>
    simp only [step, activity_stuck ready (fetch_outside even outside), haltAt]
    rfl
  | completes ready fetches completes =>
    simp only [step, activity_word ready fetches, perform, forward_fetches fetches,
      State.execute_completes completes]
    rfl
  | fails ready fetches fails =>
    simp only [step, activity_word ready fetches, perform, forward_fetches fetches,
      State.execute_fails fails, haltAt]
    rfl

theorem step_look_trap {wait : KeyWait} {trap : Trap} (running : m.Running)
    (waiting : m.state.wait = some wait) (trapped : m.state.look = .error trap) :
    m.step = .error trap := by
  simp only [step, activity_waiting running waiting, look, trapped]

theorem step_stranded (stranded : Stranded m) : ∃ trap, m.step = .error trap := by
  cases stranded with
  | register running waiting fresh unnamed =>
    exact ⟨_, step_look_trap running waiting (State.look_unnamed waiting fresh unnamed)⟩
  | @resume wait key running waiting fresh last =>
    rcases Nat.lt_or_ge wait.register.toNat 16 with named | unnamed
    · exact ⟨_, step_look_trap running waiting (State.look_end waiting fresh named last)⟩
    · exact ⟨_, step_look_trap running waiting (State.look_unnamed waiting fresh unnamed)⟩
  | executing ready fetches traps =>
    obtain ⟨trap, trapped⟩ := State.execute_traps m.dialect m.dice traps
    refine ⟨trap, ?_⟩
    simp only [step, activity_word ready fetches, perform, forward_fetches fetches, trapped]

theorem stepped_or_stranded (m : Machine) : (∃ turn, Stepped m turn) ∨ Stranded m := by
  cases loaded : m.loaded with
  | false => exact .inl ⟨_, .unloaded loaded⟩
  | true =>
    cases halt : m.halt with
    | some cause => exact .inl ⟨_, .halted loaded halt⟩
    | none =>
      have running : m.Running := ⟨loaded, halt⟩
      cases waiting : m.state.wait with
      | some wait =>
        cases fresh : m.state.keypad.fresh wait.seen with
        | none => exact .inl ⟨_, .idle running waiting fresh⟩
        | some key =>
          rcases Nat.lt_or_ge wait.register.toNat 16 with named | unnamed
          · rcases Nat.lt_or_ge m.state.pc.toNat 0xFFFE with room | last
            · exact .inl ⟨_, .resumed running waiting fresh named (Nat.add_lt_add_right room 2)⟩
            · exact .inr (.resume running waiting fresh last)
          · exact .inr (.register running waiting fresh unnamed)
      | none =>
        have ready : m.Ready := ⟨running, waiting⟩
        rcases misaligned_or_outside_or_fetches m with odd | ⟨even, outside⟩ | ⟨w, fetches⟩
        · exact .inl ⟨_, .misaligned ready odd⟩
        · exact .inl ⟨_, .outside ready even outside⟩
        · rcases State.completes_or_fails_or_traps m.dialect m.state.past m.dice (.ofWord w) with
            ⟨_, _, completes⟩ | ⟨_, fails⟩ | traps
          · exact .inl ⟨_, .completes ready fetches completes⟩
          · exact .inl ⟨_, .fails ready fetches fails⟩
          · exact .inr (.executing ready fetches traps)

theorem step_ok_iff : m.step = .ok turn ↔ Stepped m turn := by
  refine ⟨fun ran => ?_, step_stepped⟩
  rcases stepped_or_stranded m with ⟨_, stepped⟩ | stranded
  · rw [step_stepped stepped] at ran
    cases ran
    exact stepped
  · obtain ⟨_, trapped⟩ := step_stranded stranded
    rw [trapped] at ran
    cases ran

end Machine
end ChipEight
