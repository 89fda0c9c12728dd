import ChipEight.Proofs.Soundness
namespace ChipEight

inductive Word.Reaches (w : Word) : Nat → Prop where
  | draw (family : w.family.val = 0xD) : Reaches w w.n.val
  | decimal (family : w.family.val = 0xF) (digits : w.kk.toNat = 0x33) : Reaches w 3
  | store (family : w.family.val = 0xF) (digits : w.kk.toNat = 0x55) : Reaches w (w.x.val + 1)
  | load (family : w.family.val = 0xF) (digits : w.kk.toNat = 0x65) : Reaches w (w.x.val + 1)

theorem Instruction.range_ofWord {w : Word} {length : Nat} :
    (ofWord w).range = some length ↔ w.Reaches length := by
  constructor
  · have reads := ofWord_reads w
    generalize ofWord w = instruction at reads
    intro reaches
    cases reads with
    | draw family =>
      cases reaches
      exact .draw family
    | decimal family digits =>
      cases reaches
      exact .decimal family digits
    | store family digits =>
      cases reaches
      exact .store family digits
    | load family digits =>
      cases reaches
      exact .load family digits
    | _ => cases reaches
  · intro reaches
    cases reaches with
    | draw family => rw [ofWord_of_reads (.draw family), range]
    | decimal family digits => rw [ofWord_of_reads (.decimal family digits), range]
    | store family digits => rw [ofWord_of_reads (.store family digits), range]
    | load family digits => rw [ofWord_of_reads (.load family digits), range]

-- The faults of a word on any state, whose pc is already past it.
inductive Word.Refused (w : Word) (dialect : Dialect) (s : State) : Fault → Prop where
  | underflow (ret : w = 0x00EE) (idle : s.stack.depth = 0) : Refused w dialect s .stackUnderflow
  | overflow (call : w.family.val = 0x2) (full : s.stack.depth = 16) :
      Refused w dialect s .stackOverflow
  | range (reaches : w.Reaches length) (outside : 0x1000 < s.i.toNat + length) :
      Refused w dialect s (.outsideMemory (max s.i.toNat 0x1000))
  | strange (strange : w.Strange) (strict : dialect.strict = true) :
      Refused w dialect s (.unknownInstruction w (s.pc - 2))

-- A strange word is only refused where it has an address of its own to report.
theorem fails_iff_refused {dialect : Dialect} {s : State} {w : Word} {fault : Fault} :
    Fails dialect s (.ofWord w) fault ↔
      w.Refused dialect s fault ∧ (w.Strange → 2 ≤ s.pc.toNat) := by
  constructor
  · intro fails
    generalize read : Instruction.ofWord w = instruction at fails
    have reads := Instruction.ofWord_exact.mp read
    have known : instruction ≠ .unknown w → ¬ w.Strange := fun other strange =>
      other (read.symm.trans (Instruction.ofWord_of_strange strange))
    cases fails with
    | ret idle =>
      cases reads with
      | ret word => exact ⟨.underflow word idle, fun strange => absurd strange (known nofun)⟩
    | call full =>
      cases reads with
      | call family => exact ⟨.overflow family full, fun strange => absurd strange (known nofun)⟩
    | range reaches outside =>
      refine ⟨.range (Instruction.range_ofWord.mp (read ▸ reaches)) outside, fun strange => ?_⟩
      exact absurd strange (known fun unknown => by cases unknown; cases reaches)
    | unknown strict past =>
      cases reads with
      | unknown strange => exact ⟨.strange strange strict, fun _ => past⟩
  · rintro ⟨refused, past⟩
    cases refused with
    | underflow ret idle =>
      rw [Instruction.ofWord_of_reads (.ret ret)]
      exact .ret idle
    | overflow call full =>
      rw [Instruction.ofWord_of_reads (.call call)]
      exact .call full
    | range reaches outside => exact .range (Instruction.range_ofWord.mpr reaches) outside
    | strange strange strict =>
      rw [Instruction.ofWord_of_strange strange]
      exact .unknown strict (past strange)

namespace Machine

def Refuses (m : Machine) (w : Word) (fault : Fault) : Prop :=
  w.Refused m.dialect m.state.past fault

inductive Failing (m : Machine) : Fault → Prop where
  | misaligned (odd : m.state.pc.toNat % 2 = 1) : Failing m (.misaligned m.state.pc)
  | outside (even : m.state.pc.toNat % 2 = 0) (outside : 0x1000 ≤ m.state.pc.toNat) :
      Failing m (.outsideMemory m.state.pc.toNat)
  | word (fetches : m.Fetches w) (refuses : m.Refuses w fault) : Failing m fault

-- What a step answers, beside what becomes of the machine. A step that is refused
-- leaves the reason behind and nothing else; where there is no program, or no
-- more of it to run, not even that.
inductive Answered (m : Machine) (turn : Turn) : Prop where
  | unloaded (unloaded : m.loaded = false) (refused : turn.reply = .refused .notLoaded)
      (same : turn.machine = m)
  | halted (halted : m.halt = some cause) (refused : turn.reply = .refused .halted)
      (same : turn.machine = m)
  | failed (ready : m.Ready) (failing : m.Failing fault) (refused : turn.reply = .refused fault)
      (only : turn.machine = { m with halt := some fault })
  | done (running : m.Running) (done : turn.reply = .done) (unhalted : turn.machine.halt = none)

variable {m later : Machine} {w : Word} {fault : Fault} {turn : Turn} {past since : List Moment}

theorem refuses_strange (strange : w.Strange) (strict : m.dialect.strict = true) :
    m.Refuses w (.unknownInstruction w m.state.pc) := by
  rw [← m.state.past_pc_back]
  exact .strange strange strict

theorem fails_iff_refuses (fetches : m.Fetches w) :
    Fails m.dialect m.state.past (.ofWord w) fault ↔ m.Refuses w fault := by
  rw [fails_iff_refused]
  exact and_iff_left fun _ => fetches.returnable.past

theorem failing_iff_fails (fetches : m.Fetches w) :
    m.Failing fault ↔ Fails m.dialect m.state.past (.ofWord w) fault := by
  refine ⟨fun failing => ?_, fun fails => .word fetches ((fails_iff_refuses fetches).mp fails)⟩
  cases failing with
  | misaligned odd =>
    have even := fetches.even
    omega
  | outside _ outside => exact absurd fetches.inside (Nat.not_lt.mpr outside)
  | word again refuses =>
    cases fetches.unique again
    exact (fails_iff_refuses fetches).mpr refuses

theorem stepped_of_failing (ready : m.Ready) (failing : m.Failing fault) :
    ∃ notes, Stepped m ⟨{ m with halt := some fault }, .refused fault, notes⟩ := by
  cases failing with
  | misaligned odd => exact ⟨_, .misaligned ready odd⟩
  | outside even outside => exact ⟨_, .outside ready even outside⟩
  | word fetches refuses =>
    exact ⟨_, .fails ready fetches ((fails_iff_refuses fetches).mpr refuses)⟩

theorem stepped_answered (stepped : Stepped m turn) : Answered m turn := by
  cases stepped with
  | unloaded unloaded => exact .unloaded unloaded rfl rfl
  | halted _ halted => exact .halted halted rfl rfl
  | idle running => exact .done running rfl running.unhalted
  | resumed running => exact .done running rfl running.unhalted
  | completes ready => exact .done ready.toRunning rfl ready.unhalted
  | misaligned ready odd => exact .failed ready (.misaligned odd) rfl rfl
  | outside ready even outside => exact .failed ready (.outside even outside) rfl rfl
  | fails ready fetches fails =>
    exact .failed ready (.word fetches ((fails_iff_refuses fetches).mp fails)) rfl rfl

theorem ready_answered (ready : m.Ready) (stepped : Stepped m turn) :
    (turn.reply = .done ∧ turn.machine.halt = none) ∨
      ∃ fault, m.Failing fault ∧ turn.reply = .refused fault ∧ turn.machine.halt = some fault := by
  cases stepped_answered stepped with
  | unloaded unloaded => cases unloaded.symm.trans ready.loaded
  | halted halted => cases halted.symm.trans ready.unhalted
  | failed _ failing refused only => exact .inr ⟨_, failing, refused, by rw [only]⟩
  | done _ done unhalted => exact .inl ⟨done, unhalted⟩

theorem failing_answer (ready : m.Ready) (stepped : Stepped m turn) (failing : m.Failing fault) :
    turn.reply = .refused fault ∧ turn.machine.halt = some fault := by
  obtain ⟨_, expected⟩ := stepped_of_failing ready failing
  cases (step_stepped expected).symm.trans (step_stepped stepped)
  exact ⟨rfl, rfl⟩

theorem refused_iff_failing (ready : m.Ready) (stepped : Stepped m turn) :
    turn.reply = .refused fault ↔ m.Failing fault := by
  refine ⟨fun refused => ?_, fun failing => (failing_answer ready stepped failing).1⟩
  rcases ready_answered ready stepped with ⟨done, _⟩ | ⟨_, failing, answer, _⟩
  · cases done.symm.trans refused
  · cases answer.symm.trans refused
    exact failing

theorem halts_iff_failing (ready : m.Ready) (stepped : Stepped m turn) :
    turn.machine.halt = some fault ↔ m.Failing fault := by
  refine ⟨fun halted => ?_, fun failing => (failing_answer ready stepped failing).2⟩
  rcases ready_answered ready stepped with ⟨_, unhalted⟩ | ⟨_, failing, _, answer⟩
  · cases unhalted.symm.trans halted
  · cases answer.symm.trans halted
    exact failing

theorem Failing.same {timers : Timers} {drawn : Bool} {keypad : Keypad} {halt : Option Fault}
    (failing : m.Failing fault) :
    Failing { m with state := { m.state with timers, drawn, keypad }, halt } fault := by
  cases failing with
  | misaligned odd => exact .misaligned odd
  | outside even outside => exact .outside even outside
  | word fetches refuses =>
    refine .word (fetches.same rfl rfl) ?_
    cases refuses with
    | underflow ret idle => exact .underflow ret idle
    | overflow call full => exact .overflow call full
    | range reaches outside => exact .range reaches outside
    | strange strange strict => exact .strange strange strict

theorem Failing.touched (failing : m.Failing fault) (touched : m.Touched later) :
    later.Failing fault := by
  obtain ⟨_, _, _, rfl⟩ := touched
  exact failing.same

theorem Failing.cause (failing : m.Failing fault) : fault ≠ .notLoaded ∧ fault ≠ .halted := by
  cases failing with
  | misaligned => exact ⟨nofun, nofun⟩
  | outside => exact ⟨nofun, nofun⟩
  | word _ refuses => cases refuses <;> exact ⟨nofun, nofun⟩

end Machine

variable {m last : Machine} {past since : List Moment} {fault : Fault}

theorem Reached.halted (reached : Reached m past) (halted : m.halt = some fault) :
    m.loaded = true ∧ m.Failing fault := by
  induction reached using Reached.induct with
  | new => cases halted
  | call m past event turn reached handled ih =>
    cases Machine.handle_handled handled with
    | load => cases halted
    | other _ _ touched =>
      obtain ⟨_, _, _, same⟩ := touched
      rw [same] at halted ⊢
      obtain ⟨loaded, failing⟩ := ih halted
      exact ⟨loaded, failing.same⟩
    | step stepped =>
      cases stepped with
      | unloaded => exact ih halted
      | halted => exact ih halted
      | idle running => cases running.unhalted.symm.trans halted
      | resumed running => cases running.unhalted.symm.trans halted
      | completes ready => cases ready.unhalted.symm.trans halted
      | misaligned ready odd =>
        cases halted
        exact ⟨ready.loaded, .same (.misaligned odd)⟩
      | outside ready even outside =>
        cases halted
        exact ⟨ready.loaded, .same (.outside even outside)⟩
      | fails ready fetches fails =>
        cases halted
        have refuses := (Machine.fails_iff_refuses fetches).mp fails
        exact ⟨ready.loaded, .same (.word fetches refuses)⟩

theorem Runs.halted (loaded : m.loaded = true) (halted : m.halt = some fault)
    (runs : Runs m since last) (unloading : ∀ moment ∈ since, moment.event.loads = false) :
    m.Touched last ∧
      ∀ moment ∈ since, moment.event = .step → moment.turn.reply = .refused .halted := by
  induction runs with
  | nil => exact ⟨.refl m, List.forall_mem_nil _⟩
  | @call past before event turn earlier handled ih =>
    obtain ⟨unloadingNow, unloadingBefore⟩ := List.forall_mem_cons.mp unloading
    obtain ⟨touched, refused⟩ := ih unloadingBefore
    cases Machine.handle_handled handled with
    | load fits => cases unloadingNow.symm.trans (decide_eq_true fits)
    | other unstepped _ touches =>
      exact ⟨touched.trans touches, List.forall_mem_cons.mpr ⟨(absurd · unstepped), refused⟩⟩
    | step =>
      have same := Machine.Stepped.halted (touched.loaded.trans loaded) (touched.halt.trans halted)
      cases (Machine.step_stepped same).symm.trans handled
      exact ⟨touched, List.forall_mem_cons.mpr ⟨fun _ => rfl, refused⟩⟩

-- A failing step is atomic: where a program is running it leaves the reason
-- behind and nothing else, and where none is not even that.
theorem refused_step_atomic (reached : Reached m past) :
    ∃ turn, m.step = .ok turn ∧ ∀ fault, turn.reply = .refused fault →
      (fault = .notLoaded ∨ fault = .halted → turn.machine = m) ∧
      (¬ (fault = .notLoaded ∨ fault = .halted) →
        m.halt = none ∧ turn.machine = { m with halt := some fault }) := by
  obtain ⟨turn, ran⟩ := Machine.step_answers reached.sound
  refine ⟨turn, ran, ?_⟩
  intro fault refused
  cases Machine.stepped_answered (Machine.step_ok_iff.mp ran) with
  | unloaded _ answer same =>
    cases answer.symm.trans refused
    exact ⟨fun _ => same, fun running => absurd (.inl rfl) running⟩
  | halted _ answer same =>
    cases answer.symm.trans refused
    exact ⟨fun _ => same, fun running => absurd (.inr rfl) running⟩
  | failed ready failing answer only =>
    cases answer.symm.trans refused
    obtain ⟨notUnloaded, notHalted⟩ := failing.cause
    refine ⟨?_, fun _ => ⟨ready.unhalted, only⟩⟩
    rintro (unloaded | halted)
    · exact absurd unloaded notUnloaded
    · exact absurd halted notHalted
  | done _ answer => cases answer.symm.trans refused

theorem bare_return_fails :
    ∃ m past, Reached m past ∧ m.Ready ∧ m.Failing .stackUnderflow := by
  have fits : ([0x00, 0xEE] : List UInt8).length ≤ programRoom := by decide
  obtain ⟨past, reached⟩ := (Reached.empty .vip none (.ofList [])).started fits (.ofList [])
  refine ⟨_, past, reached, Machine.started_ready,
    .word Machine.started_fetches (.underflow ?_ rfl)⟩
  decide

theorem refused_step_atomic_return :
    ∃ m past turn, Reached m past ∧ m.step = .ok turn ∧ turn.reply = .refused .stackUnderflow ∧
      turn.machine = { m with halt := some .stackUnderflow } := by
  obtain ⟨m, past, reached, ready, failing⟩ := bare_return_fails
  obtain ⟨turn, ran, atomic⟩ := refused_step_atomic reached
  have stepped := Machine.step_ok_iff.mp ran
  have refused := (Machine.refused_iff_failing ready stepped).mpr failing
  exact ⟨m, past, turn, reached, ran, refused, ((atomic _ refused).2 (by decide)).2⟩

-- Ready machines fail in the cases of `Failing` and in no others. Once halted, a
-- machine answers every step with the halt and changes nothing but what the host
-- changes, and the reason goes on to hold of it, until a program is loaded.
theorem halt_exact (reached : Reached m past) :
    (m.Ready → ∃ turn, m.step = .ok turn ∧
      (∀ fault, turn.reply = .refused fault ↔ m.Failing fault) ∧
      (∀ fault, turn.machine.halt = some fault ↔ m.Failing fault) ∧
      ((∀ fault, ¬ m.Failing fault) → turn.reply = .done)) ∧
    ∀ fault, m.halt = some fault → m.Failing fault ∧
      (∀ events, (∀ event ∈ events, event.loads = false) →
        ∃ last since, m.run events = .ok (last, answers since) ∧ calls since = events ∧
          Runs m since last ∧ m.Touched last ∧ last.halt = some fault ∧ last.Failing fault ∧
          ∀ moment ∈ since, moment.event = .step → moment.turn.reply = .refused .halted) ∧
      ∀ program entropy, program.length ≤ programRoom →
        ∃ turn, m.handle (.load program entropy) = .ok turn ∧ turn.reply = .done ∧
          turn.machine.halt = none := by
  constructor
  · intro ready
    obtain ⟨turn, ran⟩ := Machine.step_answers reached.sound
    have stepped := Machine.step_ok_iff.mp ran
    refine ⟨turn, ran, fun _ => Machine.refused_iff_failing ready stepped,
      fun _ => Machine.halts_iff_failing ready stepped, ?_⟩
    intro never
    rcases Machine.ready_answered ready stepped with ⟨done, _⟩ | ⟨cause, failing, _⟩
    · exact done
    · exact absurd failing (never cause)
  · intro fault halted
    obtain ⟨loaded, failing⟩ := reached.halted halted
    refine ⟨failing, ?_, ?_⟩
    · intro events unloading
      obtain ⟨last, since, ran, rfl, runs⟩ := reached.run events
      have quiet : ∀ moment ∈ since, moment.event.loads = false := by
        intro moment present
        exact unloading _ (mem_calls.mpr ⟨moment, present, rfl⟩)
      obtain ⟨touched, refused⟩ := runs.halted loaded halted quiet
      exact ⟨last, since, ran, rfl, runs, touched, touched.halt.trans halted,
        failing.touched touched, refused⟩
    · intro program entropy fits
      exact ⟨_, Machine.load_fits fits entropy, rfl, rfl⟩

theorem halt_exact_return :
    ∃ m past turn, Reached m past ∧ m.step = .ok turn ∧ turn.reply = .refused .stackUnderflow ∧
      ∃ last since, turn.machine.run [.tick, .step] = .ok (last, answers since) ∧
        last.halt = some .stackUnderflow ∧ last.Failing .stackUnderflow := by
  obtain ⟨m, past, reached, ready, failing⟩ := bare_return_fails
  obtain ⟨turn, ran, refused, halts, _⟩ := (halt_exact reached).1 ready
  have halted := (halts _).mpr failing
  have reachedHalt : Reached turn.machine (⟨m, .step, turn⟩ :: past) := reached.call ran
  obtain ⟨_, stays, _⟩ := (halt_exact reachedHalt).2 _ halted
  obtain ⟨last, since, ranOn, _, _, _, still, failsStill, _⟩ :=
    stays [.tick, .step] (by simp [Event.loads])
  exact ⟨m, past, turn, reached, ran, (refused _).mpr failing, last, since, ranOn, still, failsStill⟩

end ChipEight
