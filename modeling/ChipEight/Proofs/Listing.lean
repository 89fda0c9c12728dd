import ChipEight.Proofs.Footprint
import ChipEight.Proofs.Soundness
import ChipEight.Report
namespace ChipEight

theorem listing_getElem? (origin : UInt16) (bytes : List UInt8) (place : Nat) :
    (listing origin bytes)[place]? =
      if 2 * place < bytes.length then
        some (.read (origin + UInt16.ofNat (2 * place))
          (.ofBytes (bytes.getD (2 * place) 0) (bytes.getD (2 * place + 1) 0)))
      else none := by
  fun_induction listing origin bytes generalizing place with
  | case1 => simp
  | case2 => cases place <;> simp
  | case3 origin high low rest ih =>
    cases place with
    | zero => simp
    | succ place =>
      have next : 2 * (place + 1) = 2 * place + 1 + 1 := rfl
      have moved : origin + 2 + UInt16.ofNat (2 * place) = origin + UInt16.ofNat (2 * place + 2) := by
        rw [UInt16.ofNat_add, UInt16.add_comm (UInt16.ofNat _), UInt16.add_assoc]
        rfl
      rw [List.getElem?_cons_succ, ih, moved, next]
      simp only [List.length_cons, Nat.add_lt_add_iff_right]
      rfl

theorem listing_at {pc : UInt16} {program : List UInt8} {place : Nat}
    (pc_eq : pc.toNat = 0x200 + 2 * place) (within : 2 * place < program.length) :
    (listing 0x200 program)[place]? =
      some (.read pc (.ofBytes (program.getD (2 * place) 0) (program.getD (2 * place + 1) 0))) := by
  have address : 0x200 + UInt16.ofNat (2 * place) = pc := by
    apply UInt16.toNat_inj.mp
    rw [UInt16.toNat_add, UInt16.toNat_ofNat', pc_eq]
    have bound := pc.toNat_lt
    change (0x200 + _) % _ = _
    omega
  rw [listing_getElem?, if_pos within, address]

inductive Outcome (m : Machine) (instruction : Instruction) (turn : Turn) : Prop where
  | finished
      (finished : m.state.past.execute m.dialect instruction m.dice = .finished after rest)
      (done : turn.reply = .done) (machine : turn.machine = { m with state := after, dice := rest })
  | failed
      (failed : m.state.past.execute m.dialect instruction m.dice =
        .failed fault m.state.past m.dice)
      (refused : turn.reply = .refused fault) (machine : turn.machine = { m with halt := some fault })

structure Moment.Follows (moment : Moment) (line : Line) : Prop where
  address : line.address = moment.before.state.pc
  fetched : moment.before.fetch = .ok line.word
  executing : moment.before.activity = .executing line.word
  outcome : Outcome moment.before line.instruction moment.turn
  logged : ∃ note others, moment.turn.notes = note :: others ∧ note.level = .trace ∧
    note.text = hex 3 line.address.toNat ++ " " ++ hex 4 line.word.toNat ++ " " ++
      Note.column 16 line.instruction.text ++ " v[" ++
      ", ".intercalate (moment.before.state.v.toList.map fun value => hex 2 value.toNat) ++
      "] i" ++ hex 3 moment.before.state.i.toNat

variable {m : Machine} {past : List Moment} {program : List UInt8} {entropy : Dice} {turn : Turn}
  {w : Word}

namespace Machine

theorem step_outcome (ready : m.Ready) (fetches : m.Fetches w) (ran : m.step = .ok turn) :
    Outcome m (.ofWord w) turn ∧
      ∃ others, turn.notes = .executing m.state.pc w m.state.v m.state.i :: others := by
  rcases State.completes_or_fails_or_traps m.dialect m.state.past m.dice (.ofWord w) with
    ⟨_, _, completes⟩ | ⟨_, fails⟩ | traps
  · cases (step_stepped (.completes ready fetches completes)).symm.trans ran
    exact ⟨.finished (State.execute_completes completes) rfl rfl, _, rfl⟩
  · cases (step_stepped (.fails ready fetches fails)).symm.trans ran
    exact ⟨.failed (State.execute_fails fails) rfl rfl, _, rfl⟩
  · obtain ⟨_, trapped⟩ := step_stranded (.executing ready fetches traps)
    cases trapped.symm.trans ran

theorem step_follows (ready : m.Ready) (fetches : m.Fetches w) (ran : m.step = .ok turn) :
    Moment.Follows ⟨m, .step, turn⟩ (.read m.state.pc w) := by
  obtain ⟨outcome, others, notes⟩ := step_outcome ready fetches ran
  exact ⟨rfl, fetch_word fetches, activity_word ready fetches, outcome, _, others, notes, rfl, rfl⟩

theorem load_done_iff :
    (∃ turn, m.handle (.load program entropy) = .ok turn ∧ turn.reply = .done) ↔
      program.length ≤ programRoom := by
  constructor
  · rintro ⟨turn, handled, done⟩
    by_contra oversized
    cases (load_oversized (Nat.not_le.mp oversized) entropy).symm.trans handled
    cases done
  · intro fits
    exact ⟨_, load_fits fits entropy, rfl⟩

end Machine

theorem Command.list_ok_iff {command : Command} {lines : List Line} :
    command.list (.ok program) = .ok lines ↔
      program.length ≤ programRoom ∧ lines = ChipEight.listing programStart program := by
  unfold list
  rcases Nat.lt_or_ge programRoom program.length with oversized | fits
  · simp [oversized, Nat.not_le.mpr oversized]
  · simp [fits, Nat.not_lt.mpr fits, eq_comm]

-- What is listed is what is run: wherever the program has not written since it was
-- loaded, a step carries out the line at its pc. The same programs are listed and loaded.
theorem listing_executed (reached : Reached m past) (program : List UInt8) (entropy : Dice)
    (command : Command) :
    ((∃ lines, command.list (.ok program) = .ok lines) ↔
      ∃ turn, m.handle (.load program entropy) = .ok turn ∧ turn.reply = .done) ∧
    (program.length ≤ 3584 → command.list (.ok program) = .ok (listing 0x200 program) ∧
      ∃ turn, m.handle (.load program entropy) = .ok turn ∧ turn.reply = .done ∧
        ∀ events, (∀ event ∈ events, event.loads = false) →
          ∃ last since, turn.machine.run events = .ok (last, answers since) ∧
            calls since = events ∧ Runs turn.machine since last ∧
            ∀ later moment earlier pc, since = later ++ moment :: earlier →
              moment.event = .step → moment.before.Ready → moment.before.state.pc.toNat = pc →
              pc % 2 = 0 → 0x200 ≤ pc → pc < 0x200 + program.length →
              (∀ written ∈ earlier, ¬ written.Writes pc ∧ ¬ written.Writes (pc + 1)) →
                ∃ line, (listing 0x200 program)[(pc - 0x200) / 2]? = some line ∧
                  moment.Follows line) := by
  constructor
  · simp only [Command.list_ok_iff, Machine.load_done_iff, exists_eq_right]
  · intro fits
    have loaded : m.handle (.load program entropy) = .ok _ := Machine.load_fits fits entropy
    refine ⟨Command.list_ok_iff.mpr ⟨fits, rfl⟩, _, loaded, rfl, ?_⟩
    intro events unloading
    have reachedStart := reached.call loaded
    obtain ⟨last, since, ran, rfl, runs⟩ := reachedStart.run events
    refine ⟨last, since, ran, rfl, runs, ?_⟩
    rintro later ⟨before, event, turn⟩ earlier _ rfl step ready rfl even behind within unwritten
    obtain ⟨run, handled, _⟩ := runs.divided
    cases step
    have unloadingBefore : ∀ moment ∈ earlier, moment.event.loads = false := by
      intro moment present
      refine unloading _ (mem_calls.mpr ⟨moment, ?_, rfl⟩)
      exact List.mem_append_right _ (List.mem_cons_of_mem _ present)
    obtain ⟨place, pc⟩ : ∃ place, before.state.pc.toNat = 0x200 + 2 * place :=
      ⟨(before.state.pc.toNat - 0x200) / 2, by dsimp only at even behind; omega⟩
    have fetches := Machine.fetches_program fits (by dsimp only at within; omega) pc
      (run.byte unloadingBefore fun written present => (unwritten written present).1)
      (run.byte unloadingBefore fun written present => (unwritten written present).2)
    refine ⟨.read before.state.pc _, ?_, Machine.step_follows ready fetches handled⟩
    change (listing 0x200 program)[(before.state.pc.toNat - 0x200) / 2]? = _
    rw [pc, Nat.add_sub_cancel_left, Nat.mul_div_cancel_left place (by decide)]
    exact listing_at pc (by dsimp only at within; omega)

theorem listing_executed_last_byte :
    ∃ turn last moment line,
      (Machine.empty .vip none (.ofList [])).handle (.load [0x60] (.ofList [])) = .ok turn ∧
      Runs turn.machine [moment] last ∧ moment.event = .step ∧
      (listing 0x200 [0x60])[0]? = some line ∧ line.word = .ofBytes 0x60 0 ∧
      moment.Follows line := by
  have fits : ([0x60] : List UInt8).length ≤ programRoom := by decide
  obtain ⟨_, turn, loaded, _, follows⟩ := (listing_executed (.empty .vip none (.ofList []))
    [0x60] (.ofList []) ⟨"", .vip, none, 0, none, true⟩).2 fits
  cases (Machine.load_fits fits (.ofList [])).symm.trans loaded
  obtain ⟨last, since, _, called, runs, follows⟩ := follows [.step] (by simp [Event.loads])
  obtain ⟨moment, rfl⟩ : ∃ moment, since = [moment] :=
    List.length_eq_one_iff.mp (by simpa [calls] using congrArg List.length called)
  have step : moment.event = .step := by simpa [calls] using called
  have divided : Runs _ ([] ++ moment :: []) last := runs
  have before := divided.divided.1.unmoved
  have ready : moment.before.Ready := by
    rw [before]
    exact Machine.started_ready
  have pc : moment.before.state.pc.toNat = 0x200 := by
    rw [before, Machine.started_pc]
    rfl
  obtain ⟨line, listed, here⟩ := follows [] moment [] 0x200 rfl step ready pc
    (by decide) (by decide) (by decide) (List.forall_mem_nil _)
  have padded : (listing 0x200 [0x60])[0]? = some (.read 0x200 (.ofBytes 0x60 0)) := by
    simp [listing]
  cases padded.symm.trans listed
  exact ⟨_, last, moment, _, loaded, runs, step, listed, rfl, here⟩

end ChipEight
