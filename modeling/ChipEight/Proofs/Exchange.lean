import ChipEight.Proofs.Footprint
import ChipEight.Proofs.Soundness
namespace ChipEight

inductive Part where
  | clock | pad | picture

def Event.part? : Event → Option Part
  | .tick => some .clock
  | .press _ | .release _ | .setKeys _ => some .pad
  | .takeFrame => some .picture
  | .load _ _ | .step => none

def Event.turned? : Event → Option (UInt8 × Bool)
  | .press key => some (key, true)
  | .release key => some (key, false)
  | _ => none

inductive Word.Uses (w : Word) : Part → Prop where
  | timer (family : w.family.val = 0xF) (digits : w.kk.toNat ∈ [0x07, 0x15, 0x18]) : Uses w .clock
  | skip (family : w.family.val = 0xE) (digits : w.kk.toNat ∈ [0x9E, 0xA1]) : Uses w .pad
  | wait (family : w.family.val = 0xF) (digits : w.kk.toNat = 0x0A) : Uses w .pad
  | clear (word : w = 0x00E0) : Uses w .picture
  | draw (family : w.family.val = 0xD) : Uses w .picture

def Instruction.part? : Instruction → Option Part
  | .readDelay _ | .setDelay _ | .setSound _ => some .clock
  | .skip (.pressed _) | .skip (.released _) | .waitKey _ => some .pad
  | .clear | .draw _ _ _ => some .picture
  | _ => none

def State.adopt (s : State) (part : Part) (host : State) : State :=
  { s with
    timers := match part with | .clock => host.timers | _ => s.timers
    keypad := match part with | .pad => host.keypad | _ => s.keypad
    screen := match part with | .picture => host.screen | _ => s.screen
    drawn := match part with | .picture => host.drawn | _ => s.drawn }

namespace Machine

def adopt (m : Machine) (part : Part) (host : Machine) : Machine :=
  { m with state := m.state.adopt part host.state }

-- The next step leaves a part alone. A machine that waits for a key looks at the keypad.
structure Spares (m : Machine) (part : Part) : Prop where
  word : ∀ w, m.activity = .executing w → ¬ w.Uses part
  unwaiting : part = .pad → m.state.wait = none

def Ignores (m : Machine) (event : Event) (part : Part) : Prop :=
  ∃ turn, m.handle event = .ok turn ∧
    ∀ host, (m.adopt part host).handle event =
      .ok ⟨turn.machine.adopt part host, turn.reply, turn.notes⟩

-- Two calls that have nothing to do with each other. Calls about one part keep their order,
-- unless they are about two keys of the keypad.
inductive Unrelated (m : Machine) : Event → Event → Prop where
  | step (about : event.part? = some part) (spares : m.Spares part) : Unrelated m .step event
  | parts (one : event.part? = some part) (two : other.part? = some another)
      (apart : part ≠ another) : Unrelated m event other
  | keys (one : event.turned? = some (key, down)) (two : other.turned? = some (another, lower))
      (apart : key ≠ another) : Unrelated m event other
  | symm (unrelated : Unrelated m event other) : Unrelated m other event

def Commute (m : Machine) (event other : Event) : Prop :=
  ∃ one two last,
    m.handle event = .ok one ∧ one.machine.handle other = .ok ⟨last, two.reply, two.notes⟩ ∧
    m.handle other = .ok two ∧ two.machine.handle event = .ok ⟨last, one.reply, one.notes⟩

-- The calls of a run and their answers, in an order that is reached by exchanging
-- neighbours that have nothing to do with each other.
inductive Reordered (first : Machine) (log : List (Event × Reply)) :
    List (Event × Reply) → Prop where
  | same : Reordered first log log
  | exchange (whole : Reordered first log (before ++ one :: two :: behind))
      (there : first.run (before.map Prod.fst) = .ok (here, before.map Prod.snd))
      (unrelated : here.Unrelated one.fst two.fst) :
      Reordered first log (before ++ two :: one :: behind)

end Machine

variable {dialect : Dialect} {s after host : State} {dice rest : Dice} {instruction : Instruction}
  {part another : Part} {w : Word} {fault : Fault}

theorem Word.uses_of_part (about : (Instruction.ofWord w).part? = some part) : w.Uses part := by
  have reads := Instruction.ofWord_reads w
  generalize Instruction.ofWord w = instruction at reads about
  cases reads with
  | clear word => cases about; exact .clear word
  | draw family => cases about; exact .draw family
  | pressed family digits => cases about; exact .skip family (by simp [digits])
  | released family digits => cases about; exact .skip family (by simp [digits])
  | readDelay family digits => cases about; exact .timer family (by simp [digits])
  | setDelay family digits => cases about; exact .timer family (by simp [digits])
  | setSound family digits => cases about; exact .timer family (by simp [digits])
  | waitKey family digits => cases about; exact .wait family digits
  | _ => cases about

namespace State

theorem adopt_self : s.adopt part s = s := by cases part <;> rfl

theorem adopt_comm {other : State} (apart : part ≠ another) :
    (s.adopt part host).adopt another other = (s.adopt another other).adopt part host := by
  cases part <;> cases another <;> first | rfl | exact absurd rfl apart

theorem compute_adopt {op : Alu} {x y : Register} :
    (s.adopt part host).compute dialect op x y = (s.compute dialect op x y).adopt part host := by
  have operand (x : Register) : (s.adopt part host).value x = s.value x := rfl
  rw [compute, compute, operand, operand]
  split <;> rfl

theorem advanceIndex_adopt {count : Nat} :
    (s.adopt part host).advanceIndex dialect count =
      (s.advanceIndex dialect count).adopt part host := by
  rw [advanceIndex, advanceIndex]
  split <;> rfl

theorem holds_adopt {condition : Condition}
    (spared : (Instruction.skip condition).part? ≠ some part) :
    (s.adopt part host).holds condition = s.holds condition := by
  cases part with
  | pad =>
    cases condition with
    | pressed => exact absurd rfl spared
    | released => exact absurd rfl spared
    | _ => rfl
  | _ => cases condition <;> rfl

end State

theorem Completes.adopt (completes : Completes dialect s dice instruction after rest)
    (spared : instruction.part? ≠ some part) (host : State) :
    Completes dialect (s.adopt part host) dice instruction (after.adopt part host) rest := by
  cases completes with
  | clear => cases part <;> first | exact .clear | exact absurd rfl spared
  | draw inside drawn =>
    cases part <;> first | exact .draw inside drawn | exact absurd rfl spared
  | readDelay => cases part <;> first | exact .readDelay | exact absurd rfl spared
  | setDelay => cases part <;> first | exact .setDelay | exact absurd rfl spared
  | setSound => cases part <;> first | exact .setSound | exact absurd rfl spared
  | waitKey past => cases part <;> first | exact .waitKey past | exact absurd rfl spared
  | skip holds room => exact .skip ((State.holds_adopt spared).trans holds) room
  | stay fails => exact .stay ((State.holds_adopt spared).trans fails)
  | alu =>
    rw [← State.compute_adopt]
    exact .alu
  | store inside =>
    rw [← State.advanceIndex_adopt]
    exact .store inside
  | load inside =>
    rw [← State.advanceIndex_adopt]
    exact .load inside
  | system => exact .system
  | ret popped => exact .ret popped
  | jump => exact .jump
  | call pushed => exact .call pushed
  | loadByte => exact .loadByte
  | addByte => exact .addByte
  | loadIndex => exact .loadIndex
  | jumpOffset => exact .jumpOffset
  | random => exact .random
  | addIndex => exact .addIndex
  | glyph => exact .glyph
  | decimal inside => exact .decimal inside
  | unknown lenient past => exact .unknown lenient past

theorem Fails.adopt (fails : Fails dialect s instruction fault) (host : State) :
    Fails dialect (s.adopt part host) instruction fault := by
  cases fails with
  | ret idle => exact .ret idle
  | call full => exact .call full
  | range reaches outside => exact .range reaches outside
  | unknown strict past => exact .unknown strict past

namespace Keypad

variable {pad : Keypad} {key other : UInt8} {down lower : Bool}

theorem change_answer (one two : Keypad) : (one.change key down).2 = (two.change key down).2 := by
  unfold change
  split <;> rfl

theorem change_comm (apart : key ≠ other) :
    ((pad.change key down).1.change other lower).1 =
      ((pad.change other lower).1.change key down).1 := by
  unfold change
  split
  · split
    · have places : key.toNat ≠ other.toNat := fun same => apart (UInt8.toNat_inj.mp same)
      exact congrArg Keypad.mk (Vector.set_comm _ _ places)
    · rfl
  · rfl

end Keypad

namespace Machine

variable {m other : Machine} {event second : Event} {turn : Turn} {past : List Moment}

theorem adopt_self : m.adopt part m = m := by rw [adopt, State.adopt_self]

theorem adopt_comm {host guest : Machine} (apart : part ≠ another) :
    (m.adopt part host).adopt another guest = (m.adopt another guest).adopt part host := by
  rw [adopt, adopt, adopt, adopt, State.adopt_comm apart]

theorem useKeypad_adopt (answer : Keypad × Except Fault Unit) :
    (other.adopt .pad m).useKeypad answer =
      ⟨(other.adopt .pad m).adopt .pad (m.useKeypad answer).machine, (m.useKeypad answer).reply,
        (m.useKeypad answer).notes⟩ := by
  rw [useKeypad_machine]
  exact useKeypad_again rfl

theorem takeFrame_adopt :
    (other.adopt .picture m).takeFrame =
      ((other.adopt .picture m).adopt .picture m.takeFrame.1, m.takeFrame.2) := by
  have drawn : (other.adopt .picture m).state.drawn = m.state.drawn := rfl
  unfold takeFrame
  rw [drawn]
  split <;> rfl

theorem handle_part (about : event.part? = some part) (handled : m.handle event = .ok turn)
    (agree : other.adopt part m = other) :
    other.handle event = .ok ⟨other.adopt part turn.machine, turn.reply, turn.notes⟩ := by
  rw [← agree]
  cases event with
  | load => cases about
  | step => cases about
  | tick =>
    cases about
    cases handled
    rfl
  | press key =>
    cases about
    cases handled
    exact congrArg Except.ok (useKeypad_adopt _)
  | release key =>
    cases about
    cases handled
    exact congrArg Except.ok (useKeypad_adopt _)
  | setKeys keypad =>
    cases about
    cases handled
    rfl
  | takeFrame =>
    cases about
    cases handled
    rw [handle, takeFrame_adopt]

theorem handle_part_only (about : event.part? = some part) (handled : m.handle event = .ok turn) :
    turn.machine = m.adopt part turn.machine := by
  have again := handle_part about handled adopt_self
  rw [handled] at again
  exact congrArg Turn.machine (Except.ok.inj again)

theorem part_answers (about : event.part? = some part) : ∃ turn, m.handle event = .ok turn := by
  cases event with
  | load => cases about
  | step => cases about
  | _ => exact ⟨_, rfl⟩

theorem Running.adopt (running : m.Running) (part : Part) (host : Machine) :
    (m.adopt part host).Running := ⟨running.loaded, running.unhalted⟩

theorem Ready.adopt (ready : m.Ready) (part : Part) (host : Machine) :
    (m.adopt part host).Ready := ⟨ready.toRunning.adopt part host, ready.unwaiting⟩

theorem Stepped.adopt (spares : m.Spares part) (stepped : Stepped m turn) (host : Machine) :
    Stepped (m.adopt part host) ⟨turn.machine.adopt part host, turn.reply, turn.notes⟩ := by
  cases stepped with
  | unloaded unloaded => exact .unloaded unloaded
  | halted loaded halted => exact .halted loaded halted
  | idle running waiting quiet =>
    cases part with
    | pad => cases waiting.symm.trans (spares.unwaiting rfl)
    | clock => exact .idle (running.adopt .clock host) waiting quiet
    | picture => exact .idle (running.adopt .picture host) waiting quiet
  | resumed running waiting fresh named room =>
    cases part with
    | pad => cases waiting.symm.trans (spares.unwaiting rfl)
    | clock => exact .resumed (running.adopt .clock host) waiting fresh named room
    | picture => exact .resumed (running.adopt .picture host) waiting fresh named room
  | misaligned ready odd =>
    exact .misaligned (ready.adopt part host) odd
  | outside ready even outside =>
    exact .outside (ready.adopt part host) even outside
  | @completes w after rest ready fetches completes =>
    have spared : (Instruction.ofWord w).part? ≠ some part :=
      fun about => spares.word w (activity_word ready fetches) (Word.uses_of_part about)
    exact .completes (ready.adopt part host) (fetches.same rfl rfl)
      (completes.adopt spared host.state)
  | fails ready fetches fails =>
    exact .fails (ready.adopt part host) (fetches.same rfl rfl)
      (fails.adopt host.state)

theorem ignores_step (spares : m.Spares part) (steps : ∃ turn, m.step = .ok turn) :
    m.Ignores .step part := by
  obtain ⟨turn, stepped⟩ := steps
  exact ⟨turn, stepped, fun host => step_stepped ((step_ok_iff.mp stepped).adopt spares host)⟩

theorem ignores_part (about : event.part? = some another) (apart : part ≠ another) :
    m.Ignores event part := by
  obtain ⟨turn, handled⟩ := part_answers (m := m) about
  refine ⟨turn, handled, ?_⟩
  intro host
  have agree : (m.adopt part host).adopt another m = m.adopt part host := by
    rw [adopt_comm apart, adopt_self]
  have there := handle_part about handled agree
  rwa [adopt_comm apart, ← handle_part_only about handled] at there

theorem Ignores.commute (ignores : m.Ignores event part) (about : second.part? = some part) :
    m.Commute event second := by
  obtain ⟨one, handled, alike⟩ := ignores
  obtain ⟨two, handledTwo⟩ := part_answers (m := m) about
  have unchanged : one.machine.adopt part m = one.machine := by
    have again := alike m
    rw [adopt_self, handled] at again
    exact (congrArg Turn.machine (Except.ok.inj again)).symm
  have swapped := alike two.machine
  rw [← handle_part_only about handledTwo] at swapped
  exact ⟨one, two, _, handled, handle_part about handledTwo unchanged, handledTwo, swapped⟩

theorem handle_turned {key : UInt8} {down : Bool} (about : event.turned? = some (key, down)) :
    m.handle event = .ok (m.useKeypad (m.state.keypad.change key down)) := by
  cases event with
  | press => cases about; rfl
  | release => cases about; rfl
  | _ => cases about

theorem Commute.symm (commute : m.Commute event second) : m.Commute second event := by
  obtain ⟨one, two, last, first, after, swapped, afterSwapped⟩ := commute
  exact ⟨two, one, last, swapped, afterSwapped, first, after⟩

theorem commute_keys {key another : UInt8} {down lower : Bool}
    (one : event.turned? = some (key, down)) (two : second.turned? = some (another, lower))
    (apart : key ≠ another) : m.Commute event second := by
  refine ⟨_, _, m.setKeypad ((m.state.keypad.change key down).1.change another lower).1,
    handle_turned one, ?_, handle_turned two, ?_⟩
  · rw [handle_turned two, useKeypad_machine]
    exact congrArg Except.ok (useKeypad_again (Keypad.change_answer _ _))
  · rw [handle_turned one, useKeypad_machine, Keypad.change_comm apart]
    exact congrArg Except.ok (useKeypad_again (Keypad.change_answer _ _))

theorem unrelated_commute (steps : ∃ turn, m.step = .ok turn)
    (unrelated : m.Unrelated event second) : m.Commute event second := by
  induction unrelated with
  | step about spares => exact (ignores_step spares steps).commute about
  | parts one two apart => exact (ignores_part one apart.symm).commute two
  | keys one two apart => exact commute_keys one two apart
  | symm _ ih => exact ih.symm

theorem Commute.run {events : List Event} {last : Machine} {reply answer : Reply}
    {replies : List Reply} (commute : m.Commute event second)
    (ran : m.run (event :: second :: events) = .ok (last, reply :: answer :: replies)) :
    m.run (second :: event :: events) = .ok (last, answer :: reply :: replies) := by
  obtain ⟨one, two, _, handledOne, handledTwo, swappedTwo, swappedOne⟩ := commute
  obtain ⟨_, _, ranOne, ranNext, same⟩ := run_cons_iff.mp ran
  cases handledOne.symm.trans ranOne
  obtain ⟨_, _, ranTwo, ranRest, rfl⟩ := run_cons_iff.mp ranNext
  cases handledTwo.symm.trans ranTwo
  cases same
  rw [run_cons swappedTwo (run_cons swappedOne ranRest)]

theorem Reordered.run {log reordered : List (Event × Reply)} {last : Machine}
    (moved : m.Reordered log reordered) (reached : Reached m past)
    (ran : m.run (log.map Prod.fst) = .ok (last, log.map Prod.snd)) :
    m.run (reordered.map Prod.fst) = .ok (last, reordered.map Prod.snd) := by
  induction moved with
  | same => exact ran
  | exchange whole there unrelated ih =>
    simp only [List.map_append, List.map_cons] at ih ⊢
    obtain ⟨_, _, _, ranFront, ranBack, replies⟩ := run_append_iff.mp ih
    cases there.symm.trans ranFront
    cases List.append_cancel_left replies
    obtain ⟨since, runs, _⟩ := run_runs there
    have steps := step_answers (reached.runs runs).sound
    have swapped := (unrelated_commute steps unrelated).run ranBack
    exact run_append_iff.mpr ⟨_, _, _, there, swapped, rfl⟩

end Machine

-- A host's call and a step that leaves its part alone can be made in either order, and so can
-- calls about two parts, on every machine a host can have. Whatever order a run is brought
-- into by such exchanges, it ends in the same machine, and every call is answered as before.
theorem calls_commute {m : Machine} {past : List Moment} (reached : Reached m past) :
    (∀ event other, m.Unrelated event other → m.Commute event other) ∧
      ∀ log reordered last, m.run (log.map Prod.fst) = .ok (last, log.map Prod.snd) →
        m.Reordered log reordered →
        m.run (reordered.map Prod.fst) = .ok (last, reordered.map Prod.snd) := by
  constructor
  · intro event other unrelated
    exact Machine.unrelated_commute (Machine.step_answers reached.sound) unrelated
  · intro log reordered last ran moved
    exact moved.run reached ran

theorem calls_commute_first_word :
    ∃ m past last, Reached m past ∧ m.activity = .executing 0x6005 ∧
      m.run [.step, .tick, .press 5] = .ok (last, [.done, .done, .done]) ∧
      m.run [.tick, .press 5, .step] = .ok (last, [.done, .done, .done]) := by
  have fits : ([0x60, 0x05] : List UInt8).length ≤ programRoom := by decide
  obtain ⟨past, reached⟩ := (Reached.empty .vip none (.ofList [])).started fits (.ofList [])
  obtain ⟨m, reached, here⟩ : ∃ m, Reached m past ∧ m.AtWord [0x60, 0x05] 0 :=
    ⟨_, reached, Machine.started_atWord⟩
  have fetches : m.Fetches 0x6005 := here.fetches fits (by decide)
  have ready : m.tick.Ready := ⟨⟨here.loaded, here.unhalted⟩, here.unwaiting⟩
  have spares {m : Machine} (ready : m.Ready) (fetches : m.Fetches 0x6005) (part : Part) :
      m.Spares part := by
    refine ⟨?_, fun _ => ready.unwaiting⟩
    intro w executing uses
    cases (Machine.activity_word ready fetches).symm.trans executing
    cases uses with
    | timer family => cases family
    | skip family => cases family
    | wait family => cases family
    | clear word => cases word
    | draw family => cases family
  have stepped : m.handle .step = .ok _ :=
    Machine.step_stepped (.completes here.toReady fetches .loadByte)
  obtain ⟨last, ran⟩ : ∃ last, m.run [.step, .tick, .press 5] = .ok (last, [.done, .done, .done]) :=
    ⟨_, run_cons stepped rfl⟩
  let log : List (Event × Reply) := [(.step, .done), (.tick, .done), (.press 5, .done)]
  have once : m.Reordered log ([] ++ (.tick, .done) :: (.step, .done) :: [(.press 5, .done)]) :=
    .exchange .same rfl (.step rfl (spares here.toReady fetches .clock))
  have twice : m.Reordered log ([(.tick, .done)] ++ (.press 5, .done) :: (.step, .done) :: []) :=
    .exchange once rfl (.step rfl (spares ready (fetches.same rfl rfl) .pad))
  exact ⟨m, past, last, reached, Machine.activity_word here.toReady fetches, ran,
    (calls_commute reached).2 log _ last ran twice⟩

end ChipEight
