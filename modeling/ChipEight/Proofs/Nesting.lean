import ChipEight.Proofs.Footprint
import ChipEight.Proofs.Halting
namespace ChipEight

def Word.enters (w : Word) : Bool := w.family.val == 2

def Word.leaves (w : Word) : Bool := w == 0x00EE

def Moment.enters (moment : Moment) : Bool := moment.word?.any Word.enters

def Moment.leaves (moment : Moment) : Bool := moment.word?.any Word.leaves

-- The calls that have not returned, before and after something has happened. A return
-- goes where the call on top had put down.
inductive Moment.Stacks (moment : Moment) : Prop where
  | enters (enters : moment.enters = true) (leaves : moment.leaves = false)
      (pushed : moment.turn.machine.state.stack.oldestFirst =
        moment.before.state.stack.oldestFirst ++ [moment.before.state.pc + 2])
  | leaves (enters : moment.enters = false) (leaves : moment.leaves = true)
      (popped : moment.before.state.stack.oldestFirst =
        moment.turn.machine.state.stack.oldestFirst ++ [moment.turn.machine.state.pc])
  | stays (enters : moment.enters = false) (leaves : moment.leaves = false)
      (same : moment.turn.machine.state.stack = moment.before.state.stack)

variable {m first last : Machine} {past since : List Moment} {event : Event} {turn : Turn}
  {w : Word} {fault : Fault} {frames : List UInt16}

theorem Word.enters_iff : w.enters = true ↔ w.family.val = 2 := by simp [enters]

theorem Word.leaves_iff : w.leaves = true ↔ w = 0x00EE := by simp [leaves]

theorem Word.enters_of_leaves (leaves : w.leaves = true) : w.enters = false := by
  rw [leaves_iff.mp leaves]
  decide

theorem Completes.stack_eq {dialect : Dialect} {s after : State} {dice rest : Dice}
    (enters : w.enters = false) (leaves : w.leaves = false)
    (completes : Completes dialect s dice (.ofWord w) after rest) : after.stack = s.stack := by
  have reads := Instruction.ofWord_reads w
  generalize Instruction.ofWord w = instruction at reads completes
  cases completes with
  | ret =>
    cases reads with
    | ret word => cases leaves.symm.trans (Word.leaves_iff.mpr word)
  | call =>
    cases reads with
    | call family => cases enters.symm.trans (Word.enters_iff.mpr family)
  | alu => rw [State.compute_eq]
  | store => rw [State.advanceIndex_eq]
  | load => rw [State.advanceIndex_eq]
  | _ => rfl

namespace Machine

theorem stepped_stacks (stepped : Stepped m turn) : Moment.Stacks ⟨m, .step, turn⟩ := by
  rcases stepped_carries stepped with ⟨w, after, _, carried, completes, same⟩ | ⟨idle, _, _, _, _, same⟩
  · have word (test : Word → Bool) : (Moment.word? ⟨m, .step, turn⟩).any test = test w := by
      rw [carried]
      rfl
    cases enters : w.enters with
    | true =>
      have leaves : w.leaves = false := by
        by_contra leaves
        cases enters.symm.trans (Word.enters_of_leaves (Bool.not_eq_false _ ▸ leaves))
      rw [Instruction.ofWord_of_reads (.call (Word.enters_iff.mp enters))] at completes
      refine .enters ((word _).trans enters) ((word _).trans leaves) ?_
      rw [same]
      cases completes with
      | call pushed => exact CallStack.push_ok pushed
    | false =>
      cases leaves : w.leaves with
      | true =>
        rw [Instruction.ofWord_of_reads (.ret (Word.leaves_iff.mp leaves))] at completes
        refine .leaves ((word _).trans enters) ((word _).trans leaves) ?_
        rw [same]
        cases completes with
        | ret popped => exact CallStack.pop_ok popped
      | false =>
        have kept : after.stack = m.state.past.stack := completes.stack_eq enters leaves
        refine .stays ((word _).trans enters) ((word _).trans leaves) ?_
        rw [same]
        exact kept
  · refine .stays ?_ ?_ (by rw [same])
    · rw [Moment.enters, idle, Option.any_none]
    · rw [Moment.leaves, idle, Option.any_none]

theorem handle_stacks (handled : m.handle event = .ok turn) (unloading : event.loads = false) :
    Moment.Stacks ⟨m, event, turn⟩ := by
  cases handle_handled handled with
  | load fits => cases unloading.symm.trans (decide_eq_true fits)
  | step stepped => exact stepped_stacks stepped
  | other unstepped _ touched =>
    obtain ⟨_, _, _, same⟩ := touched
    have uncarried : Moment.word? ⟨m, event, turn⟩ = none := Moment.word?_other unstepped
    refine .stays ?_ ?_ (by rw [same])
    · rw [Moment.enters, uncarried, Option.any_none]
    · rw [Moment.leaves, uncarried, Option.any_none]

end Machine

theorem Moment.Stacks.depth {moment : Moment} (stacked : moment.Stacks) :
    moment.turn.machine.state.stack.depth + (if moment.leaves then 1 else 0) =
      moment.before.state.stack.depth + if moment.enters then 1 else 0 := by
  cases stacked with
  | enters enters leaves pushed =>
    have length := congrArg List.length pushed
    rw [List.length_append, CallStack.length_oldestFirst, CallStack.length_oldestFirst] at length
    rw [enters, leaves]
    exact length
  | leaves enters leaves popped =>
    have length := congrArg List.length popped
    rw [List.length_append, CallStack.length_oldestFirst, CallStack.length_oldestFirst] at length
    rw [enters, leaves]
    exact length.symm
  | stays enters leaves same => rw [enters, leaves, same]

theorem Moment.Stacks.bottom {moment : Moment} (stacked : moment.Stacks)
    (bottom : frames <+: moment.before.state.stack.oldestFirst)
    (deep : frames.length ≤ moment.turn.machine.state.stack.depth) :
    frames <+: moment.turn.machine.state.stack.oldestFirst := by
  cases stacked with
  | enters _ _ pushed =>
    rw [pushed]
    exact bottom.trans (List.prefix_append _ _)
  | leaves _ _ popped =>
    rw [popped] at bottom
    exact List.prefix_of_prefix_length_le bottom (List.prefix_append _ _)
      (by rwa [CallStack.length_oldestFirst])
  | stays _ _ same => rwa [same]

theorem Runs.bottom (runs : Runs first since last)
    (unloading : ∀ moment ∈ since, moment.event.loads = false)
    (bottom : frames <+: first.state.stack.oldestFirst)
    (deep : ∀ moment ∈ since, frames.length ≤ moment.turn.machine.state.stack.depth) :
    frames <+: last.state.stack.oldestFirst := by
  induction runs with
  | nil => exact bottom
  | call earlier handled ih =>
    obtain ⟨unloadingNow, unloadingBefore⟩ := List.forall_mem_cons.mp unloading
    obtain ⟨deepNow, deepBefore⟩ := List.forall_mem_cons.mp deep
    have stacked := Machine.handle_stacks handled unloadingNow
    exact stacked.bottom (ih unloadingBefore deepBefore) deepNow

theorem Reached.depth (reached : Reached m past) :
    m.state.stack.depth + (sinceLoad past).countP Moment.leaves =
      (sinceLoad past).countP Moment.enters := by
  induction reached using Reached.induct with
  | new => rfl
  | call m past event turn _ handled ih =>
    rw [sinceLoad_cons]
    cases loads : event.loads with
    | true =>
      cases Machine.handle_handled handled with
      | load => rfl
      | step => cases loads
      | other _ unloading => cases loads.symm.trans unloading
    | false =>
      have stacked := (Machine.handle_stacks handled loads).depth
      simp only [Bool.false_eq_true, if_false, List.countP_cons]
      dsimp only at stacked
      omega

theorem fails_call_iff {dialect : Dialect} {s : State} {target : Target} :
    Fails dialect s (.call target) fault ↔ fault = .stackOverflow ∧ s.stack.depth = stackDepth := by
  constructor
  · intro fails
    cases fails with
    | call full => exact ⟨rfl, full⟩
    | range reaches => cases reaches
  · rintro ⟨rfl, full⟩
    exact .call full

theorem fails_ret_iff {dialect : Dialect} {s : State} :
    Fails dialect s .ret fault ↔ fault = .stackUnderflow ∧ s.stack.depth = 0 := by
  constructor
  · intro fails
    cases fails with
    | ret idle => exact ⟨rfl, idle⟩
    | range reaches => cases reaches
  · rintro ⟨rfl, idle⟩
    exact .ret idle

namespace Machine

theorem step_executing (sound : m.Sound) (executing : m.activity = .executing w) :
    ∃ turn, m.step = .ok turn ∧
      (turn.reply = .done ∨
        ∃ fault, turn.reply = .refused fault ∧ turn.machine.state.stack = m.state.stack) ∧
      ∀ fault, turn.reply = .refused fault ↔ Fails m.dialect m.state.past (.ofWord w) fault := by
  obtain ⟨ready, fetches⟩ := activity_executing_iff.mp executing
  obtain ⟨turn, ran⟩ := step_answers sound
  have stepped := step_ok_iff.mp ran
  refine ⟨turn, ran, ?_, fun fault =>
    (refused_iff_failing ready stepped).trans (failing_iff_fails fetches)⟩
  cases stepped_answered stepped with
  | unloaded unloaded => cases unloaded.symm.trans ready.loaded
  | halted halted => cases halted.symm.trans ready.unhalted
  | failed _ _ refused only => exact .inr ⟨_, refused, by rw [only]⟩
  | done _ done => exact .inl done

theorem step_call (executing : m.activity = .executing w) (family : w.family.val = 2)
    (ran : m.step = .ok turn) (done : turn.reply = .done) :
    turn.machine.state.stack.oldestFirst = m.state.stack.oldestFirst ++ [m.state.pc + 2] := by
  have carried : Moment.word? ⟨m, .step, turn⟩ = some w := Moment.word?_done done executing
  have entering : Moment.enters ⟨m, .step, turn⟩ = true := by
    rw [Moment.enters, carried]
    exact Word.enters_iff.mpr family
  cases stepped_stacks (step_ok_iff.mp ran) with
  | enters _ _ pushed => exact pushed
  | leaves enters => cases entering.symm.trans enters
  | stays enters => cases entering.symm.trans enters

theorem step_return (sound : m.Sound) (executing : m.activity = .executing 0x00EE)
    (stored : m.state.stack.depth ≠ 0) :
    ∃ turn, m.step = .ok turn ∧ turn.reply = .done ∧
      m.state.stack.oldestFirst = turn.machine.state.stack.oldestFirst ++ [turn.machine.state.pc] := by
  obtain ⟨turn, ran, done | ⟨fault, refused, _⟩, refuses⟩ := step_executing sound executing
  · have carried : Moment.word? ⟨m, .step, turn⟩ = some 0x00EE := Moment.word?_done done executing
    have leaving : Moment.leaves ⟨m, .step, turn⟩ = true := by
      rw [Moment.leaves, carried]
      rfl
    cases stepped_stacks (step_ok_iff.mp ran) with
    | enters _ leaves => cases leaving.symm.trans leaves
    | stays _ leaves => cases leaving.symm.trans leaves
    | leaves _ _ popped => exact ⟨turn, ran, done, popped⟩
  · have fails := (refuses fault).mp refused
    exact absurd (fails_ret_iff.mp fails).2 stored

end Machine

-- A return leads behind the call that it belongs to and leaves the stack as it was before
-- that call, whatever was called in between and has returned. As many calls are open as were
-- made and have not returned since the program was loaded, at most sixteen; a call is refused
-- where there are so many, a return where there is none, and nothing else refuses them.
theorem calls_bracketed (reached : Reached m past) :
    m.state.stack.depth + (sinceLoad past).countP Moment.leaves =
        (sinceLoad past).countP Moment.enters ∧
      m.state.stack.depth ≤ 16 ∧
      ∀ w, m.activity = .executing w → ∃ turn, m.step = .ok turn ∧
        (turn.reply = .done ∨
          ∃ fault, turn.reply = .refused fault ∧ turn.machine.state.stack = m.state.stack) ∧
        (w.family.val = 2 → ∀ fault, turn.reply = .refused fault ↔
          fault = .stackOverflow ∧ m.state.stack.depth = 16) ∧
        (w = 0x00EE → ∀ fault, turn.reply = .refused fault ↔
          fault = .stackUnderflow ∧ m.state.stack.depth = 0) ∧
        (w.family.val = 2 → turn.reply = .done → ∀ events, (∀ event ∈ events, event.loads = false) →
          ∃ last since, turn.machine.run events = .ok (last, answers since) ∧ calls since = events ∧
            Runs turn.machine since last ∧
            ((∀ moment ∈ since,
                m.state.stack.depth + 1 ≤ moment.turn.machine.state.stack.depth) →
              last.activity = .executing 0x00EE → last.state.stack.depth = m.state.stack.depth + 1 →
                ∃ returned, last.step = .ok returned ∧ returned.reply = .done ∧
                  returned.machine.state.pc.toNat = m.state.pc.toNat + 2 ∧
                  returned.machine.state.stack.oldestFirst = m.state.stack.oldestFirst)) := by
  refine ⟨reached.depth, m.state.stack.bounded, ?_⟩
  intro w executing
  obtain ⟨turn, ran, answered, refuses⟩ := Machine.step_executing reached.sound executing
  refine ⟨turn, ran, answered, ?_, ?_, ?_⟩
  · intro family fault
    rw [refuses, Instruction.ofWord_of_reads (.call family)]
    exact fails_call_iff
  · intro ret fault
    rw [refuses, Instruction.ofWord_of_reads (.ret ret)]
    exact fails_ret_iff
  · intro family done events unloading
    have called : m.handle .step = .ok turn := ran
    obtain ⟨last, since, ranOn, rfl, runs⟩ := (reached.call called).run events
    refine ⟨last, since, ranOn, rfl, runs, ?_⟩
    intro deep returning depth
    have pushed := Machine.step_call executing family ran done
    have length : (m.state.stack.oldestFirst ++ [m.state.pc + 2]).length =
        m.state.stack.depth + 1 := by
      rw [List.length_append, CallStack.length_oldestFirst]
      rfl
    have bottom : m.state.stack.oldestFirst ++ [m.state.pc + 2] <+: last.state.stack.oldestFirst := by
      refine runs.bottom ?_ (pushed ▸ List.prefix_rfl) ?_
      · intro moment present
        exact unloading _ (mem_calls.mpr ⟨moment, present, rfl⟩)
      · intro moment present
        rw [length]
        exact deep moment present
    have whole := bottom.eq_of_length (by rw [length, CallStack.length_oldestFirst, depth])
    obtain ⟨returned, ranBack, back, popped⟩ :=
      Machine.step_return ((reached.call called).runs runs).sound returning (by omega)
    obtain ⟨below, top⟩ := List.append_inj' (whole.trans popped) rfl
    have inside := (Machine.activity_executing_iff.mp executing).2.inside
    simp only [memorySize] at inside
    refine ⟨returned, ranBack, back, ?_, below.symm⟩
    rw [← List.singleton_inj.mp top, toNat_add_two (by omega)]

theorem Machine.AtWord.call {program : List UInt8} {place : Nat} {target : Target}
    (here : m.AtWord program place) (next : Nat) (fits : program.length ≤ programRoom)
    (within : 2 * place < program.length) (read : .ofWord
      (.ofBytes (program.getD (2 * place) 0) (program.getD (2 * place + 1) 0)) = Instruction.call target)
    (leads : (UInt16.ofNat target.val).toNat = programStart.toNat + 2 * next)
    (room : m.state.stack.depth < stackDepth) :
    ∃ turn, m.handle .step = .ok turn ∧ turn.reply = .done ∧ turn.machine.AtWord program next ∧
      turn.machine.state.stack.oldestFirst = m.state.stack.oldestFirst ++ [m.state.pc + 2] := by
  obtain ⟨_, pushed⟩ := CallStack.push_room room (m.state.pc + 2)
  obtain ⟨_, handled, there⟩ :=
    here.leads next fits within read (.call pushed) leads rfl here.unwaiting
  exact ⟨_, handled, rfl, there, CallStack.push_ok pushed⟩

theorem Machine.AtWord.ret {program : List UInt8} {place : Nat} {address : UInt16}
    (here : m.AtWord program place) (next : Nat) (fits : program.length ≤ programRoom)
    (within : 2 * place < program.length) (read : .ofWord
      (.ofBytes (program.getD (2 * place) 0) (program.getD (2 * place + 1) 0)) = Instruction.ret)
    (top : m.state.stack.oldestFirst = frames ++ [address])
    (leads : address.toNat = programStart.toNat + 2 * next) :
    ∃ turn, m.handle .step = .ok turn ∧ turn.machine.AtWord program next ∧
      turn.machine.state.stack.oldestFirst = frames := by
  have stored : 0 < m.state.stack.depth := by
    rw [← CallStack.length_oldestFirst, top, List.length_append]
    exact Nat.succ_pos _
  obtain ⟨_, _, popped⟩ := CallStack.pop_stored stored
  obtain ⟨below, same⟩ := List.append_inj' (top.symm.trans (CallStack.pop_ok popped)) rfl
  cases same
  obtain ⟨_, handled, there⟩ :=
    here.leads next fits within read (.ret popped) leads rfl here.unwaiting
  exact ⟨_, handled, there, below.symm⟩

theorem calls_bracketed_nested :
    ∃ m past turn last since returned, Reached m past ∧ m.activity = .executing 0x2204 ∧
      m.step = .ok turn ∧ turn.machine.run [.step, .step] = .ok (last, answers since) ∧
      (∀ moment ∈ since, 1 ≤ moment.turn.machine.state.stack.depth) ∧ last.step = .ok returned ∧
      returned.machine.state.pc.toNat = 0x202 ∧
      returned.machine.state.stack.oldestFirst = [] := by
  let program : List UInt8 := [0x22, 0x04, 0x00, 0x00, 0x22, 0x08, 0x00, 0xEE, 0x00, 0xEE]
  have fits : program.length ≤ programRoom := by decide
  obtain ⟨past, reached⟩ := (Reached.empty .vip none (.ofList [])).started fits (.ofList [])
  obtain ⟨m, reached, start, pc, idle⟩ : ∃ m, Reached m past ∧ m.AtWord program 0 ∧
      m.state.pc = 0x200 ∧ m.state.stack.oldestFirst = [] :=
    ⟨_, reached, Machine.started_atWord, rfl, rfl⟩
  have depth (m : Machine) : m.state.stack.depth = m.state.stack.oldestFirst.length :=
    (CallStack.length_oldestFirst _).symm
  obtain ⟨outer, called, done, inOuter, stack⟩ :=
    start.call 2 fits (by decide) (show _ = Instruction.call 0x204 by decide) (by decide)
      (by rw [depth, idle]; decide)
  rw [idle, pc] at stack
  obtain ⟨inner, calledInner, _, inInner, stackInner⟩ :=
    inOuter.call 4 fits (by decide) (show _ = Instruction.call 0x208 by decide) (by decide)
      (by rw [depth, stack]; decide)
  have top : outer.machine.state.pc + 2 = 0x206 := by
    apply UInt16.toNat_inj.mp
    rw [UInt16.toNat_add, inOuter.pc]
    rfl
  rw [stack, top] at stackInner
  obtain ⟨back, returned, behind, stackBack⟩ :=
    inInner.ret 3 fits (by decide) (show _ = Instruction.ret by decide) stackInner (by decide)
  have word (place : Nat) (w : Word) {m : Machine} (here : m.AtWord program place)
      (within : 2 * place < program.length)
      (read : .ofBytes (program.getD (2 * place) 0) (program.getD (2 * place + 1) 0) = w) :
      m.activity = .executing w :=
    read ▸ Machine.activity_word here.toReady (here.fetches fits within)
  have executing := word 0 0x2204 start (by decide) (by decide)
  obtain ⟨turn, ran, _, _, _, returns⟩ := (calls_bracketed reached).2.2 0x2204 executing
  cases called.symm.trans ran
  obtain ⟨last, since, ranOn, events, runs, returns⟩ :=
    returns (by decide) done [.step, .step] (by simp [Event.loads])
  obtain ⟨same, rfl⟩ := (Runs.call (.call .nil calledInner) returned).unique runs events
  rw [depth m, idle] at returns
  have deep : ∀ moment ∈ since, 1 ≤ moment.turn.machine.state.stack.depth := by
    rw [same]
    simp only [List.forall_mem_cons, depth, stackInner, stackBack]
    exact ⟨by decide, by decide, List.forall_mem_nil _⟩
  obtain ⟨home, ranHome, _, pcHome, stackHome⟩ :=
    returns deep (word 3 0x00EE behind (by decide) (by decide)) (by rw [depth, stackBack]; rfl)
  rw [pc] at pcHome
  exact ⟨m, past, _, _, since, home, reached, executing, ran, ranOn, deep, ranHome, pcHome,
    stackHome⟩

end ChipEight
