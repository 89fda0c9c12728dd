import ChipEight.Proofs.Halting
import ChipEight.Proofs.Lockstep
namespace ChipEight

inductive Word.Divides (w : Word) (d e : Dialect) : Prop where
  | shift (differ : d.shiftsVy ≠ e.shiftsVy) (family : w.family.val = 0x8)
      (digit : w.n.val = 0x6 ∨ w.n.val = 0xE) (apart : w.x ≠ w.y)
  | jump (differ : d.jumpsByVx ≠ e.jumpsByVx) (family : w.family.val = 0xB) (digit : w.x.val ≠ 0)
  | index (differ : d.advancesIndex ≠ e.advancesIndex) (family : w.family.val = 0xF)
      (digits : w.kk.toNat = 0x55 ∨ w.kk.toNat = 0x65)
  | unknown (differ : d.strict ≠ e.strict) (unknown : Instruction.ofWord w = .unknown w)

def Moment.Divides (moment : Moment) (d e : Dialect) : Prop :=
  moment.event = .step ∧ ∃ w, moment.before.activity = .executing w ∧ w.Divides d e

def Moment.Balks (moment : Moment) : Prop :=
  moment.event = .step ∧
    ∃ word address, moment.turn.reply = .refused (.unknownInstruction word address)

def Machine.inDialect (m : Machine) (d : Dialect) : Machine := { m with dialect := d }

-- The same machine, all but that it speaks one dialect here and the other there.
structure Machine.Counterparts (d e : Dialect) (here there : Machine) : Prop where
  dialect : here.dialect = d
  machine : there = here.inDialect e

variable {d e : Dialect} {w : Word} {s : State} {dice : Dice} {m first last : Machine}
  {past : List Moment} {event : Event} {turn : Turn} {op : Alu} {x y : Register} {fault : Fault}

theorem State.compute_alike
    (shifts : op = .shiftRight ∨ op = .shiftLeft → x = y ∨ d.shiftsVy = e.shiftsVy) :
    s.compute d op x y = s.compute e op x y := by
  have same : op.apply d (s.value x) (s.value y) = op.apply e (s.value x) (s.value y) := by
    have source (shifted : op = .shiftRight ∨ op = .shiftLeft) :
        (if d.shiftsVy then s.value y else s.value x) =
          if e.shiftsVy then s.value y else s.value x := by
      rcases shifts shifted with rfl | same
      · rw [ite_self, ite_self]
      · rw [same]
    cases op with
    | shiftRight => simp only [Alu.apply, source (.inl rfl)]
    | shiftLeft => simp only [Alu.apply, source (.inr rfl)]
    | _ => rfl
  rw [compute, compute, same]

theorem State.jumpBase_alike (jumps : w.x.val = 0 ∨ d.jumpsByVx = e.jumpsByVx) :
    s.jumpBase d w.target = s.jumpBase e w.target := by
  rcases jumps with zero | same
  · have top : Register.low (w.target.val / 256) = Register.low 0 := by
      apply Fin.ext
      have digit : w.toNat / 256 % 16 = 0 := zero
      change w.toNat % 4096 / 256 % 16 = 0
      omega
    rw [jumpBase, jumpBase, top, ite_self, ite_self]
  · rw [jumpBase, jumpBase, same]

theorem State.execute_alike (agree : ¬ w.Divides d e) :
    s.execute d (.ofWord w) dice = s.execute e (.ofWord w) dice := by
  have reads := Instruction.ofWord_reads w
  generalize Instruction.ofWord w = instruction at reads
  cases reads with
  | @alu op family digit =>
    have same : s.compute d op w.x w.y = s.compute e op w.x w.y := by
      apply compute_alike
      intro shifted
      by_contra apart
      obtain ⟨apart, differ⟩ := not_or.mp apart
      refine agree (.shift differ family ?_ apart)
      rcases shifted with rfl | rfl
      · exact .inl digit
      · exact .inr digit
    simp only [execute, same]
  | jumpOffset family =>
    have same : s.jumpBase d w.target = s.jumpBase e w.target := by
      apply jumpBase_alike
      by_contra apart
      obtain ⟨digit, differ⟩ := not_or.mp apart
      exact agree (.jump differ family digit)
    simp only [execute, same]
  | store family digits =>
    have same : d.advancesIndex = e.advancesIndex := by
      by_contra differ
      exact agree (.index differ family (.inl digits))
    simp only [execute, advanceIndex, same]
  | load family digits =>
    have same : d.advancesIndex = e.advancesIndex := by
      by_contra differ
      exact agree (.index differ family (.inr digits))
    simp only [execute, advanceIndex, same]
  | unknown strange =>
    have same : d.strict = e.strict := by
      by_contra differ
      exact agree (.unknown differ (Instruction.ofWord_of_strange strange))
    simp only [execute, same]
  | _ => rfl

theorem Instruction.notes_alike (pc : UInt16) (agree : ¬ w.Divides d e) :
    (ofWord w).notes d pc = (ofWord w).notes e pc := by
  have reads := ofWord_reads w
  generalize ofWord w = instruction at reads
  cases reads with
  | unknown strange =>
    have same : d.strict = e.strict := by
      by_contra differ
      exact agree (.unknown differ (ofWord_of_strange strange))
    rw [notes, notes, same]
  | _ => rfl

namespace Machine

theorem Running.inDialect (running : m.Running) (e : Dialect) : (m.inDialect e).Running :=
  ⟨running.loaded, running.unhalted⟩

theorem Ready.inDialect (ready : m.Ready) (e : Dialect) : (m.inDialect e).Ready :=
  ⟨ready.toRunning.inDialect e, ready.unwaiting⟩

theorem stepped_inDialect (agree : ∀ w, m.activity = .executing w → ¬ w.Divides m.dialect e)
    (stepped : Stepped m turn) :
    Stepped (m.inDialect e) ⟨turn.machine.inDialect e, turn.reply, turn.notes⟩ := by
  cases stepped with
  | unloaded unloaded => exact .unloaded unloaded
  | halted loaded halted => exact .halted loaded halted
  | idle running waiting quiet => exact .idle (running.inDialect e) waiting quiet
  | resumed running waiting fresh named room =>
    exact .resumed (running.inDialect e) waiting fresh named room
  | misaligned ready odd => exact .misaligned (ready.inDialect e) odd
  | outside ready even outside => exact .outside (ready.inDialect e) even outside
  | completes ready fetches completes =>
    have agreeHere := agree _ (activity_word ready fetches)
    have executed := State.execute_completes completes
    rw [State.execute_alike agreeHere] at executed
    rw [Instruction.notes_alike _ agreeHere]
    exact .completes (ready.inDialect e) (fetches.same rfl rfl)
      (State.execute_finished_iff.mp executed)
  | @fails w fault ready fetches fails =>
    have executed : m.state.past.execute m.dialect (.ofWord w) m.dice =
        .failed fault m.state.past m.dice := State.execute_fails fails
    rw [State.execute_alike (agree _ (activity_word ready fetches))] at executed
    exact .fails (ready.inDialect e) (fetches.same rfl rfl)
      (State.execute_failed_iff.mp executed).2.2

theorem handle_inDialect (agree : ¬ Moment.Divides ⟨m, event, turn⟩ m.dialect e)
    (handled : m.handle event = .ok turn) :
    (m.inDialect e).handle event =
      .ok ⟨turn.machine.inDialect e, turn.reply, turn.notes⟩ := by
  cases handle_handled handled with
  | load fits => exact load_fits fits _
  | step stepped =>
    have agreeWord (w : Word) (executing : m.activity = .executing w) : ¬ w.Divides m.dialect e :=
      fun divides => agree ⟨rfl, w, executing, divides⟩
    exact step_stepped (stepped_inDialect agreeWord stepped)
  | other unstepped unloading =>
    have same : (m.inDialect e).state = m.state := rfl
    obtain ⟨only, there⟩ := handle_alike unstepped unloading same handled
    rw [only]
    exact there

end Machine

theorem Runs.counterparts {second other : Machine} {since : List Moment}
    (one : Runs first past last) (two : Runs second since other) (same : calls since = calls past)
    (start : Machine.Counterparts d e first second)
    (agree : ∀ moment ∈ past, ¬ moment.Divides d e) :
    List.Forall₂ (Moment.Matches (Machine.Counterparts d e)) past since ∧
      Machine.Counterparts d e last other := by
  have sameCalls : List.Forall₂ Eq (calls past) (calls since) := by
    rw [same]
    exact List.forall₂_same.mpr fun _ _ => rfl
  refine one.lockstep two sameCalls start ?_
  intro here present there sameEvent alike handled handledThere
  obtain ⟨dialect, machine⟩ := alike
  have expected := Machine.handle_inDialect (e := e) (dialect ▸ agree here present) handled
  rw [machine, ← sameEvent, expected] at handledThere
  have turn := Except.ok.inj handledThere
  rw [← turn]
  exact ⟨rfl, rfl, (Machine.handle_settings handled).1.trans dialect, rfl⟩

-- Where two dialects differ in strictness alone, they part at the word that the strict one
-- refuses.
theorem Moment.balks_of_divides {moment : Moment} (dialect : moment.before.dialect = d)
    (handled : moment.before.handle moment.event = .ok moment.turn)
    (divides : moment.Divides d d.permissive) : moment.Balks := by
  obtain ⟨before, event, turn⟩ := moment
  obtain ⟨step, w, executing, divides⟩ := divides
  cases step
  obtain ⟨ready, fetches⟩ := Machine.activity_executing_iff.mp executing
  cases divides with
  | shift differ => exact absurd rfl differ
  | jump differ => exact absurd rfl differ
  | index differ => exact absurd rfl differ
  | unknown differ unknown =>
    have strict : before.dialect.strict = true := by
      rw [dialect]
      exact Bool.not_eq_false _ ▸ differ
    have stepped := Machine.step_ok_iff.mp handled
    cases Instruction.ofWord_exact.mp unknown with
    | unknown strange =>
      have refuses := Machine.refuses_strange strange strict
      exact ⟨rfl, _, _, (Machine.failing_answer ready stepped (.word fetches refuses)).1⟩

theorem Moment.carries_of_balks {moment : Moment}
    (handled : moment.before.handle moment.event = .ok moment.turn) (balks : moment.Balks)
    (lenient : e.strict = false) :
    ∃ turn, (moment.before.inDialect e).handle moment.event = .ok turn ∧ turn.reply = .done := by
  obtain ⟨before, event, turn⟩ := moment
  obtain ⟨step, w, address, refused⟩ := balks
  cases step
  cases Machine.stepped_answered (Machine.step_ok_iff.mp handled) with
  | unloaded _ answer => cases answer.symm.trans refused
  | halted _ answer => cases answer.symm.trans refused
  | done _ answer => cases answer.symm.trans refused
  | failed ready failing answer =>
    cases answer.symm.trans refused
    cases failing with
    | word fetches refuses =>
      cases refuses with
      | strange strange =>
        have completes : Completes e before.state.past before.dice (.ofWord w) before.state.past
            before.dice := by
          rw [Instruction.ofWord_of_strange strange]
          exact .unknown lenient fetches.returnable.past
        have stepped :=
          Machine.Stepped.completes (ready.inDialect e) (fetches.same rfl rfl) completes
        exact ⟨_, Machine.step_stepped stepped, rfl⟩

theorem Runs.undivided (runs : Runs first past last) (dialect : first.dialect = d)
    (unbalked : ∀ moment ∈ past, ¬ moment.Balks) :
    ∀ moment ∈ past, ¬ moment.Divides d d.permissive := by
  intro moment present divides
  obtain ⟨later, earlier, rfl⟩ := List.append_of_mem present
  obtain ⟨before, handled, _⟩ := runs.divided
  have same : moment.before.dialect = d := before.settings.1.trans dialect
  exact unbalked moment present (moment.balks_of_divides same handled divides)

-- Two machines in different dialects are one and the same, to the last call, as long as the
-- program shows them no word on which the two are divided. A lenient machine follows a strict
-- one up to the word that the strict one refuses, and there it goes on.
theorem dialects_agree (d e : Dialect) (seed : Option UInt64) (entropy : Dice)
    (events : List Event) :
    ∃ last past, (Machine.empty d seed entropy).run events = .ok (last, answers past) ∧
      calls past = events ∧ Runs (.empty d seed entropy) past last ∧
      ((∀ moment ∈ past, ¬ moment.Divides d e) →
        ∃ other since, (Machine.empty e seed entropy).run events = .ok (other, answers since) ∧
          calls since = events ∧ Runs (.empty e seed entropy) since other ∧
          answers since = answers past ∧ other = last.inDialect e ∧
          List.Forall₂ (Moment.Matches (Machine.Counterparts d e)) past since) ∧
      ∀ later moment earlier, past = later ++ moment :: earlier →
        (∀ before ∈ earlier, ¬ before.Balks) →
        ∃ turn, (Machine.empty d.permissive seed entropy).run (calls earlier) =
            .ok (moment.before.inDialect d.permissive, answers earlier) ∧
          (moment.before.inDialect d.permissive).handle moment.event = .ok turn ∧
          (¬ moment.Balks → turn = ⟨moment.turn.machine.inDialect d.permissive,
            moment.turn.reply, moment.turn.notes⟩) ∧
          (moment.Balks → turn.reply = .done) := by
  have reached := Reached.empty d seed entropy
  have start (e : Dialect) :
      Machine.Counterparts d e (.empty d seed entropy) (.empty e seed entropy) := ⟨rfl, rfl⟩
  obtain ⟨last, past, ran, rfl, runs⟩ := reached.run events
  refine ⟨last, past, ran, rfl, runs, ?_, ?_⟩
  · intro agree
    obtain ⟨other, since, ranThere, same, runsThere⟩ :=
      (Reached.empty e seed entropy).run (calls past)
    obtain ⟨matched, alike⟩ := runs.counterparts runsThere same (start e) agree
    exact ⟨other, since, ranThere, same, runsThere, answers_matches matched, alike.machine, matched⟩
  · rintro later moment earlier rfl unbalked
    obtain ⟨before, handled, _⟩ := runs.divided
    have dialect : moment.before.dialect = d := before.settings.1
    obtain ⟨other, since, ranThere, same, runsThere⟩ :=
      (Reached.empty d.permissive seed entropy).run (calls earlier)
    obtain ⟨matched, alike⟩ :=
      before.counterparts runsThere same (start d.permissive) (before.undivided rfl unbalked)
    rw [alike.machine, answers_matches matched] at ranThere
    by_cases balks : moment.Balks
    · obtain ⟨turn, goesOn, reply⟩ := moment.carries_of_balks handled balks
        (show d.permissive.strict = false from rfl)
      exact ⟨turn, ranThere, goesOn, fun unbalked => absurd balks unbalked, fun _ => reply⟩
    · have agree : ¬ moment.Divides moment.before.dialect d.permissive := by
        rw [dialect]
        exact fun divides => balks (moment.balks_of_divides dialect handled divides)
      have follows := Machine.handle_inDialect agree handled
      exact ⟨_, ranThere, follows, fun _ => rfl, fun balked => absurd balked balks⟩

theorem dialects_agree_first_word :
    ∃ last replies, (Machine.empty .vip none (.ofList [])).run
        [.load [0x80, 0x06] (.ofList []), .step] = .ok (last, replies) ∧
      (Machine.empty .chip48 none (.ofList [])).run [.load [0x80, 0x06] (.ofList []), .step] =
        .ok (last.inDialect .chip48, replies) := by
  let start := Machine.empty .vip none (.ofList [])
  obtain ⟨last, past, ran, called, runs, alike, _⟩ :=
    dialects_agree .vip .chip48 none (.ofList []) [.load [0x80, 0x06] (.ofList []), .step]
  have loaded : start.handle (.load [0x80, 0x06] (.ofList [])) = .ok _ :=
    Machine.load_fits (by decide) (.ofList [])
  have ready : (start.started [0x80, 0x06] (.ofList [])).Ready := Machine.started_ready
  have fetches : (start.started [0x80, 0x06] (.ofList [])).Fetches 0x8006 := Machine.started_fetches
  have stepped : (start.started [0x80, 0x06] (.ofList [])).handle .step = .ok _ :=
    Machine.step_stepped (.completes ready fetches .alu)
  obtain ⟨rfl, rfl⟩ := (Runs.call (.call .nil loaded) stepped).unique runs called
  have undivided : ¬ Word.Divides 0x8006 .vip .chip48 := by
    intro divides
    cases divides with
    | shift _ _ _ apart => exact apart rfl
    | jump _ family => cases family
    | index _ family => cases family
    | unknown _ unknown => cases unknown
  obtain ⟨other, since, ranThere, _, _, same, twin, _⟩ := alike (by
    simp only [List.forall_mem_cons]
    refine ⟨?_, ?_, List.forall_mem_nil _⟩
    · rintro ⟨_, w, executing, divides⟩
      cases (Machine.activity_word ready fetches).symm.trans executing
      exact undivided divides
    · rintro ⟨step, _⟩
      cases step)
  rw [same, twin] at ranThere
  exact ⟨_, _, ran, ranThere⟩

end ChipEight
