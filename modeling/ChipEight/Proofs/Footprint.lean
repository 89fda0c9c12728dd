import ChipEight.Proofs.Control
import ChipEight.Proofs.Runs
namespace ChipEight

def Word.draws (w : Word) : Bool := w == 0x00E0 || w.family.val == 0xD

inductive Word.Writes (w : Word) (i address : Nat) : Prop where
  | decimal (family : w.family.val = 0xF) (digits : w.kk.toNat = 0x33)
      (behind : i ≤ address) (before : address < i + 3)
  | store (family : w.family.val = 0xF) (digits : w.kk.toNat = 0x55)
      (behind : i ≤ address) (before : address ≤ i + w.x.val)

namespace Instruction

def draws : Instruction → Bool
  | .clear | .draw .. => true
  | _ => false

def memoryAfter (s : State) : Instruction → Memory
  | .decimal x => s.memory.putAll s.i.toNat (State.decimalDigits (s.value x))
  | .store x => s.memory.putAll s.i.toNat (s.firstRegisters x)
  | _ => s.memory

variable {s : State} {w : Word} {address : Nat}

theorem draws_ofWord : (ofWord w).draws = w.draws := by
  have named : (ofWord w).draws = true ↔ w = 0x00E0 ∨ w.family.val = 0xD := by
    constructor
    · have reads := ofWord_reads w
      generalize ofWord w = instruction at reads
      intro drawing
      cases reads with
      | clear word => exact .inl word
      | draw family => exact .inr family
      | _ => cases drawing
    · rintro (word | family)
      · rw [ofWord_of_reads (.clear word), draws]
      · rw [ofWord_of_reads (.draw family), draws]
  rw [Bool.eq_iff_iff, named]
  simp [Word.draws]

theorem byte_memoryAfter (unwritten : ¬ w.Writes s.i.toNat address) :
    ((ofWord w).memoryAfter s).byte address = s.memory.byte address := by
  have reads := ofWord_reads w
  generalize ofWord w = instruction at reads
  cases reads with
  | decimal family digits =>
    apply Memory.byte_putAll_outside
    have length : (State.decimalDigits (s.value w.x)).length = 3 := rfl
    rw [length]
    by_contra within
    exact unwritten (.decimal family digits (by omega) (by omega))
  | store family digits =>
    apply Memory.byte_putAll_outside
    rw [State.length_firstRegisters]
    by_contra within
    exact unwritten (.store family digits (by omega) (by omega))
  | _ => rfl

end Instruction

namespace Completes

variable {dialect : Dialect} {s after : State} {dice rest : Dice} {instruction : Instruction}

theorem memory_eq (completes : Completes dialect s dice instruction after rest) :
    after.memory = instruction.memoryAfter s := by
  cases completes with
  | alu =>
    rw [State.compute_eq]
    rfl
  | store =>
    rw [State.advanceIndex_eq]
    rfl
  | load =>
    rw [State.advanceIndex_eq]
    rfl
  | _ => rfl

theorem drawn_eq (completes : Completes dialect s dice instruction after rest) :
    after.drawn = (s.drawn || instruction.draws) := by
  cases completes with
  | alu =>
    rw [State.compute_eq]
    exact (Bool.or_false _).symm
  | store =>
    rw [State.advanceIndex_eq]
    exact (Bool.or_false _).symm
  | load =>
    rw [State.advanceIndex_eq]
    exact (Bool.or_false _).symm
  | clear => exact (Bool.or_true _).symm
  | draw => exact (Bool.or_true _).symm
  | _ => exact (Bool.or_false _).symm

theorem screen_eq (completes : Completes dialect s dice instruction after rest)
    (still : instruction.draws = false) : after.screen = s.screen := by
  cases completes with
  | clear => cases still
  | draw => cases still
  | alu => rw [State.compute_eq]
  | store => rw [State.advanceIndex_eq]
  | load => rw [State.advanceIndex_eq]
  | _ => rfl

end Completes

def Moment.word? (moment : Moment) : Option Word :=
  match moment.event, moment.turn.reply, moment.before.activity with
  | .step, .done, .executing w => some w
  | _, _, _ => none

def Moment.draws (moment : Moment) : Bool := moment.word?.any Word.draws

def Moment.Writes (moment : Moment) (address : Nat) : Prop :=
  ∃ w, moment.word? = some w ∧ w.Writes moment.before.state.i.toNat address

variable {m : Machine} {moment : Moment} {event : Event} {turn : Turn} {w : Word} {address : Nat}

theorem Moment.word?_eq_some_iff :
    moment.word? = some w ↔
      moment.event = .step ∧ moment.turn.reply = .done ∧ moment.before.activity = .executing w := by
  unfold word?
  split
  · rename_i stepped done executing
    rw [executing]
    simp [stepped, done]
  · rename_i other
    refine ⟨nofun, ?_⟩
    rintro ⟨stepped, done, executing⟩
    exact absurd executing (other w stepped done)

theorem Moment.word?_done (done : turn.reply = .done) (executing : m.activity = .executing w) :
    Moment.word? ⟨m, .step, turn⟩ = some w := word?_eq_some_iff.mpr ⟨rfl, done, executing⟩

theorem Moment.word?_other (unstepped : moment.event ≠ .step) : moment.word? = none := by
  cases carried : moment.word? with
  | none => rfl
  | some w => exact absurd (word?_eq_some_iff.mp carried).1 unstepped

namespace Machine

-- A step carries out a word, or it looks at the keypad, or it is refused: in the last
-- two cases there is little that it can change.
theorem stepped_carries (stepped : Stepped m turn) :
    (∃ w after rest, Moment.word? ⟨m, .step, turn⟩ = some w ∧
      Completes m.dialect m.state.past m.dice (.ofWord w) after rest ∧
      turn.machine = { m with state := after, dice := rest }) ∨
    (Moment.word? ⟨m, .step, turn⟩ = none ∧ ∃ v pc wait halt,
      turn.machine = { m with state := { m.state with v, pc, wait }, halt }) := by
  cases stepped with
  | completes ready fetches completes =>
    exact .inl ⟨_, _, _, Moment.word?_done rfl (activity_word ready fetches), completes, rfl⟩
  | idle running waiting =>
    refine .inr ⟨?_, _, _, _, _, rfl⟩
    simp [Moment.word?, activity_waiting running waiting]
  | resumed running waiting =>
    refine .inr ⟨?_, _, _, _, _, rfl⟩
    simp [Moment.word?, activity_waiting running waiting]
  | unloaded => exact .inr ⟨rfl, _, _, _, _, rfl⟩
  | halted => exact .inr ⟨rfl, _, _, _, _, rfl⟩
  | misaligned => exact .inr ⟨rfl, _, _, _, _, rfl⟩
  | outside => exact .inr ⟨rfl, _, _, _, _, rfl⟩
  | fails => exact .inr ⟨rfl, _, _, _, _, rfl⟩

theorem stepped_byte (stepped : Stepped m turn)
    (unwritten : ¬ Moment.Writes ⟨m, .step, turn⟩ address) :
    turn.machine.state.memory.byte address = m.state.memory.byte address := by
  rcases stepped_carries stepped with
    ⟨w, after, _, carried, completes, same⟩ | ⟨_, _, _, _, _, same⟩
  · rw [same]
    change after.memory.byte address = _
    rw [completes.memory_eq]
    exact Instruction.byte_memoryAfter fun writes => unwritten ⟨w, carried, writes⟩
  · rw [same]

theorem stepped_drawn (stepped : Stepped m turn) :
    turn.machine.state.drawn = (m.state.drawn || Moment.draws ⟨m, .step, turn⟩) := by
  rcases stepped_carries stepped with ⟨w, _, _, carried, completes, same⟩ | ⟨idle, _, _, _, _, same⟩
  · rw [same, Moment.draws, carried]
    exact completes.drawn_eq.trans (congrArg _ Instruction.draws_ofWord)
  · rw [same, Moment.draws, idle]
    exact (Bool.or_false _).symm

theorem stepped_screen (stepped : Stepped m turn)
    (still : Moment.draws ⟨m, .step, turn⟩ = false) : turn.machine.state.screen = m.state.screen := by
  rcases stepped_carries stepped with ⟨w, _, _, carried, completes, same⟩ | ⟨_, _, _, _, _, same⟩
  · rw [Moment.draws, carried] at still
    rw [same]
    exact completes.screen_eq (Instruction.draws_ofWord.trans still)
  · rw [same]

end Machine

theorem Runs.byte {first last : Machine} {since : List Moment} (runs : Runs first since last)
    (unloading : ∀ moment ∈ since, moment.event.loads = false)
    (unwritten : ∀ moment ∈ since, ¬ moment.Writes address) :
    last.state.memory.byte address = first.state.memory.byte address := by
  induction runs with
  | nil => rfl
  | @call past before event turn earlier handled ih =>
    obtain ⟨unloadingNow, unloadingBefore⟩ := List.forall_mem_cons.mp unloading
    obtain ⟨unwrittenNow, unwrittenBefore⟩ := List.forall_mem_cons.mp unwritten
    have same := ih unloadingBefore unwrittenBefore
    cases Machine.handle_handled handled with
    | load fits => cases unloadingNow.symm.trans (decide_eq_true fits)
    | step stepped => exact (Machine.stepped_byte stepped unwrittenNow).trans same
    | other _ _ touched =>
      obtain ⟨_, _, _, touched⟩ := touched
      rw [touched]
      exact same

end ChipEight
