import ChipEight.Proofs.Nesting
import ChipEight.Proofs.Throws
namespace ChipEight

inductive Timer where
  | delay | sound
  deriving DecidableEq

def Timer.digits : Timer → Nat
  | .delay => 0x15
  | .sound => 0x18

def Timers.left (timers : Timers) : Timer → UInt8
  | .delay => timers.delay
  | .sound => timers.sound

namespace Word

inductive Sets (w : Word) (r : Register) : Prop where
  | byte (family : w.family.val ∈ [0x6, 0x7, 0xC]) (named : r = w.x) : Sets w r
  | alu (family : w.family.val = 0x8)
      (digit : w.n.val ∈ [0x0, 0x1, 0x2, 0x3, 0x4, 0x5, 0x6, 0x7, 0xE]) (named : r = w.x) : Sets w r
  | carry (family : w.family.val = 0x8) (digit : w.n.val ∈ [0x4, 0x5, 0x6, 0x7, 0xE])
      (flag : r = .flag) : Sets w r
  | collision (family : w.family.val = 0xD) (flag : r = .flag) : Sets w r
  | delay (family : w.family.val = 0xF) (digits : w.kk.toNat = 0x07) (named : r = w.x) : Sets w r
  | load (family : w.family.val = 0xF) (digits : w.kk.toNat = 0x65) (upTo : r.val ≤ w.x.val) :
      Sets w r

inductive Points (w : Word) (d : Dialect) : Prop where
  | target (family : w.family.val = 0xA)
  | register (family : w.family.val = 0xF) (digits : w.kk.toNat ∈ [0x1E, 0x29])
  | moved (advances : d.advancesIndex = true) (family : w.family.val = 0xF)
      (digits : w.kk.toNat ∈ [0x55, 0x65])

def winds (w : Word) (timer : Timer) : Bool := w.family.val == 0xF && w.kk.toNat == timer.digits

def waits (w : Word) : Bool := w.family.val == 0xF && w.kk.toNat == 0x0A

def turns (w : Word) : Bool :=
  w.family.val == 0x1 || w.family.val == 0x2 || w.family.val == 0xB || w.leaves || w.waits

inductive Skips (w : Word) (s : State) : Prop where
  | isByte (family : w.family.val = 0x3) (equal : s.value w.x = w.kk)
  | notByte (family : w.family.val = 0x4) (apart : s.value w.x ≠ w.kk)
  | same (family : w.family.val = 0x5) (digit : w.n.val = 0) (equal : s.value w.x = s.value w.y)
  | differ (family : w.family.val = 0x9) (digit : w.n.val = 0) (apart : s.value w.x ≠ s.value w.y)
  | pressed (family : w.family.val = 0xE) (digits : w.kk.toNat = 0x9E)
      (held : s.keypad.isHeld (s.value w.x) = true)
  | released (family : w.family.val = 0xE) (digits : w.kk.toNat = 0xA1)
      (free : s.keypad.isHeld (s.value w.x) = false)

end Word

namespace Machine

structure Confines (m : Machine) (w : Word) (after : Machine) : Prop where
  registers : ∀ r, ¬ w.Sets r → after.state.value r = m.state.value r
  index : ¬ w.Points m.dialect → after.state.i = m.state.i
  memory : ∀ address, ¬ w.Writes m.state.i.toNat address →
    after.state.memory.byte address = m.state.memory.byte address
  picture : w.draws = false →
    after.state.screen = m.state.screen ∧ after.state.drawn = m.state.drawn
  timers : ∀ timer, w.winds timer = false →
    after.state.timers.left timer = m.state.timers.left timer
  stack : w.enters = false → w.leaves = false → after.state.stack = m.state.stack
  wait : w.waits = false → after.state.wait = m.state.wait
  dice : w.throws = false → after.dice = m.dice
  keypad : after.state.keypad = m.state.keypad
  settings : after.dialect = m.dialect ∧ after.seed = m.seed
  status : after.loaded = m.loaded ∧ after.halt = m.halt

structure Leads (m : Machine) (w : Word) (after : Machine) : Prop where
  onward : w.turns = false → ¬ w.Skips m.state → after.state.pc.toNat = m.state.pc.toNat + 2
  skip : w.Skips m.state → after.state.pc.toNat = m.state.pc.toNat + 4
  wait : w.waits = true → after.state.pc.toNat = m.state.pc.toNat
  target : w.family.val = 0x1 ∨ w.family.val = 0x2 → after.state.pc.toNat = w.target.val
  back : w.leaves = true →
    m.state.stack.oldestFirst = after.state.stack.oldestFirst ++ [after.state.pc]
  offset : w.family.val = 0xB → after.state.pc.toNat =
    w.target.val + (m.state.value (if m.dialect.jumpsByVx then w.x else .low 0)).toNat

end Machine

namespace State

variable {s : State} {dialect : Dialect} {op : Alu} {x y r : Register} {value : UInt8} {on : Bool}
  {count : Nat}

theorem value_setV (other : r ≠ x) : (s.setV x value).value r = s.value r := by
  have places : x.val ≠ r.val := fun same => other (Fin.ext same.symm)
  simp [State.value, setV, places]

theorem value_setV_self : (s.setV x value).value x = value := by
  simp [State.value, setV]

theorem value_setFlag (other : r ≠ .flag) : (s.setFlag on).value r = s.value r := value_setV other

theorem value_advanceIndex : (s.advanceIndex dialect count).value r = s.value r := by
  rw [advanceIndex_eq]
  rfl

theorem index_advanceIndex (stays : ¬ dialect.advancesIndex = true) :
    (s.advanceIndex dialect count).i = s.i := by
  rw [advanceIndex, if_neg stays]

theorem value_compute (other : r ≠ x)
    (flag : op.digit ∈ [0x4, 0x5, 0x6, 0x7, 0xE] → r ≠ .flag) :
    (s.compute dialect op x y).value r = s.value r := by
  cases op with
  | copy => exact value_setV other
  | or => exact value_setV other
  | and => exact value_setV other
  | xor => exact value_setV other
  | _ => exact (value_setFlag (flag (by decide))).trans (value_setV other)

theorem value_setRegisters {first : Nat} {values : List UInt8}
    (outside : r.val < first ∨ first + values.length ≤ r.val) :
    State.value { s with v := setRegisters s.v first values } r = s.value r := by
  induction values generalizing s first with
  | nil => rfl
  | cons byte rest ih =>
    simp only [List.length_cons] at outside
    have place : first ≠ r.val := by omega
    have kept := @ih { s with v := s.v.setIfInBounds first byte } (first + 1) (by omega)
    refine kept.trans ?_
    simp [State.value, place]

end State

theorem Word.winds_iff {w : Word} {timer : Timer} :
    w.winds timer = true ↔ w.family.val = 0xF ∧ w.kk.toNat = timer.digits := by
  simp [winds]

theorem Word.waits_iff {w : Word} :
    w.waits = true ↔ w.family.val = 0xF ∧ w.kk.toNat = 0x0A := by
  simp [waits]

theorem Alu.digit_mem (op : Alu) :
    op.digit ∈ [0x0, 0x1, 0x2, 0x3, 0x4, 0x5, 0x6, 0x7, 0xE] := by
  cases op <;> decide

theorem Word.skips_iff {w : Word} {s : State} :
    w.Skips s ↔ ∃ condition, Instruction.ofWord w = .skip condition ∧ s.holds condition = true := by
  constructor
  · intro skips
    cases skips with
    | isByte family equal =>
      exact ⟨_, Instruction.ofWord_of_reads (.isByte family), by simp [State.holds, equal]⟩
    | notByte family apart =>
      exact ⟨_, Instruction.ofWord_of_reads (.notByte family), by simp [State.holds, apart]⟩
    | same family digit equal =>
      exact ⟨_, Instruction.ofWord_of_reads (.same family digit), by simp [State.holds, equal]⟩
    | differ family digit apart =>
      exact ⟨_, Instruction.ofWord_of_reads (.differ family digit), by simp [State.holds, apart]⟩
    | pressed family digits held =>
      exact ⟨_, Instruction.ofWord_of_reads (.pressed family digits), held⟩
    | released family digits free =>
      exact ⟨_, Instruction.ofWord_of_reads (.released family digits), by simp [State.holds, free]⟩
  · intro ⟨condition, read, holds⟩
    cases Instruction.ofWord_exact.mp read with
    | isByte family => exact .isByte family (by simpa [State.holds] using holds)
    | notByte family => exact .notByte family (by simpa [State.holds] using holds)
    | same family digit => exact .same family digit (by simpa [State.holds] using holds)
    | differ family digit => exact .differ family digit (by simpa [State.holds] using holds)
    | pressed family digits => exact .pressed family digits holds
    | released family digits =>
      exact .released family digits (by simpa [State.holds] using holds)

theorem Word.skips_past {w : Word} {s : State} : w.Skips s.past ↔ w.Skips s := by
  rw [skips_iff, skips_iff]
  rfl

namespace Completes

variable {dialect : Dialect} {s after : State} {dice rest : Dice} {w : Word} {timer : Timer}
  {r : Register} {address : Nat}

theorem value_eq (completes : Completes dialect s dice (.ofWord w) after rest)
    (unset : ¬ w.Sets r) : after.value r = s.value r := by
  have reads := Instruction.ofWord_reads w
  generalize Instruction.ofWord w = instruction at reads completes
  cases completes with
  | loadByte =>
    cases reads with
    | loadByte family => exact State.value_setV fun named => unset (.byte (by simp [family]) named)
  | addByte =>
    cases reads with
    | addByte family => exact State.value_setV fun named => unset (.byte (by simp [family]) named)
  | random =>
    cases reads with
    | random family => exact State.value_setV fun named => unset (.byte (by simp [family]) named)
  | readDelay =>
    cases reads with
    | readDelay family digits =>
      exact State.value_setV fun named => unset (.delay family digits named)
  | @alu op =>
    cases reads with
    | alu family digit =>
      apply State.value_compute
      · intro named
        exact unset (.alu family (digit ▸ op.digit_mem) named)
      · intro reports flag
        exact unset (.carry family (digit ▸ reports) flag)
  | draw =>
    cases reads with
    | draw family => exact State.value_setFlag fun flag => unset (.collision family flag)
  | load =>
    cases reads with
    | load family digits =>
      rw [State.value_advanceIndex]
      apply State.value_setRegisters
      rw [Memory.length_bytesFrom, Nat.zero_add]
      by_contra within
      exact unset (.load family digits (by omega))
  | store => exact State.value_advanceIndex
  | _ => rfl

theorem index_eq (completes : Completes dialect s dice (.ofWord w) after rest)
    (unpointed : ¬ w.Points dialect) : after.i = s.i := by
  have reads := Instruction.ofWord_reads w
  generalize Instruction.ofWord w = instruction at reads completes
  cases completes with
  | loadIndex =>
    cases reads with
    | loadIndex family => exact absurd (.target family) unpointed
  | addIndex =>
    cases reads with
    | addIndex family digits => exact absurd (.register family (by simp [digits])) unpointed
  | glyph =>
    cases reads with
    | glyph family digits => exact absurd (.register family (by simp [digits])) unpointed
  | store =>
    cases reads with
    | store family digits =>
      apply State.index_advanceIndex
      intro advances
      exact unpointed (.moved advances family (by simp [digits]))
  | load =>
    cases reads with
    | load family digits =>
      apply State.index_advanceIndex
      intro advances
      exact unpointed (.moved advances family (by simp [digits]))
  | alu => rw [State.compute_eq]
  | _ => rfl

theorem left_eq (completes : Completes dialect s dice (.ofWord w) after rest)
    (unwound : w.winds timer = false) : after.timers.left timer = s.timers.left timer := by
  have reads := Instruction.ofWord_reads w
  generalize Instruction.ofWord w = instruction at reads completes
  cases completes with
  | setDelay =>
    cases reads with
    | setDelay family digits =>
      cases timer with
      | delay => cases unwound.symm.trans (Word.winds_iff.mpr ⟨family, digits⟩)
      | sound => rfl
  | setSound =>
    cases reads with
    | setSound family digits =>
      cases timer with
      | delay => rfl
      | sound => cases unwound.symm.trans (Word.winds_iff.mpr ⟨family, digits⟩)
  | alu => rw [State.compute_eq]
  | store => rw [State.advanceIndex_eq]
  | load => rw [State.advanceIndex_eq]
  | _ => rfl

theorem wait_kept (completes : Completes dialect s dice (.ofWord w) after rest)
    (unwaiting : w.waits = false) : after.wait = s.wait := by
  rw [completes.wait_eq]
  have reads := Instruction.ofWord_reads w
  generalize Instruction.ofWord w = instruction at reads
  cases reads with
  | waitKey family digits => cases unwaiting.symm.trans (Word.waits_iff.mpr ⟨family, digits⟩)
  | _ => rfl

theorem keypad_eq (completes : Completes dialect s dice (.ofWord w) after rest) :
    after.keypad = s.keypad := by
  generalize Instruction.ofWord w = instruction at completes
  cases completes with
  | alu => rw [State.compute_eq]
  | store => rw [State.advanceIndex_eq]
  | load => rw [State.advanceIndex_eq]
  | _ => rfl

end Completes

theorem Word.low_target {w : Word} : Register.low (w.target.val / 256) = w.x := by
  apply Fin.ext
  simp only [Register.low, Word.target, Word.x]
  omega

theorem Word.toNat_target {w : Word} : (UInt16.ofNat w.target.val).toNat = w.target.val := by
  rw [UInt16.toNat_ofNat']
  exact Nat.mod_eq_of_lt (Nat.lt_trans w.target.isLt (by decide))

theorem Instruction.pcAfter_onward {dialect : Dialect} {s : State} {w : Word}
    (straight : w.turns = false) (stays : ¬ w.Skips s) :
    (ofWord w).pcAfter dialect s = s.pc := by
  rw [Word.skips_iff] at stays
  have reads := ofWord_reads w
  generalize ofWord w = instruction at reads stays
  cases instruction with
  | skip condition =>
    have fails : ¬ s.holds condition = true := fun holds => stays ⟨condition, rfl, holds⟩
    exact if_neg fails
  | jump =>
    cases reads with
    | jump family => simp [Word.turns, family] at straight
  | call =>
    cases reads with
    | call family => simp [Word.turns, family] at straight
  | jumpOffset =>
    cases reads with
    | jumpOffset family => simp [Word.turns, family] at straight
  | ret =>
    cases reads with
    | ret word => simp [Word.turns, Word.leaves_iff.mpr word] at straight
  | waitKey =>
    cases reads with
    | waitKey family digits => simp [Word.turns, Word.waits, family, digits] at straight
  | _ => rfl

theorem Instruction.toNat_pcAfter_jumpOffset {dialect : Dialect} {s : State} {w : Word} :
    ((Instruction.jumpOffset w.target).pcAfter dialect s).toNat =
      w.target.val + (s.value (if dialect.jumpsByVx then w.x else .low 0)).toNat := by
  have base : s.jumpBase dialect w.target =
      s.value (if dialect.jumpsByVx then w.x else .low 0) := by
    rw [State.jumpBase, Word.low_target]
    split <;> rfl
  have offset := (s.jumpBase dialect w.target).toNat_lt
  have start : w.target.val < 4096 := w.target.isLt
  have room : w.target.val + (s.jumpBase dialect w.target).toNat < 0x10000 := by omega
  rw [← base]
  exact UInt16.toNat_ofNat_of_lt room

namespace Machine

variable {m : Machine} {past : List Moment} {w : Word} {after : State} {rest : Dice}

theorem completes_confines
    (completes : Completes m.dialect m.state.past m.dice (.ofWord w) after rest) :
    m.Confines w { m with state := after, dice := rest } where
  registers := fun _ unset => completes.value_eq unset
  index := completes.index_eq
  memory := by
    intro address unwritten
    change after.memory.byte address = m.state.past.memory.byte address
    rw [completes.memory_eq]
    exact Instruction.byte_memoryAfter unwritten
  picture := by
    intro still
    have undrawn : (Instruction.ofWord w).draws = false := Instruction.draws_ofWord.trans still
    refine ⟨completes.screen_eq undrawn, ?_⟩
    have drawn := completes.drawn_eq
    rwa [undrawn, Bool.or_false] at drawn
  timers := fun _ unwound => completes.left_eq unwound
  stack := completes.stack_eq
  wait := completes.wait_kept
  dice := by
    intro unthrown
    have thrown := completes.dice_eq
    rwa [Instruction.throws_ofWord, unthrown] at thrown
  keypad := completes.keypad_eq
  settings := ⟨rfl, rfl⟩
  status := ⟨rfl, rfl⟩

theorem completes_leads (fetches : m.Fetches w)
    (completes : Completes m.dialect m.state.past m.dice (.ofWord w) after rest) :
    m.Leads w { m with state := after, dice := rest } := by
  have inside := fetches.inside
  simp only [memorySize] at inside
  have past : m.state.past.pc.toNat = m.state.pc.toNat + 2 := toNat_add_two (by omega)
  have pc := completes.pc_eq
  refine ⟨?_, ?_, ?_, ?_, ?_, ?_⟩
  · intro straight stays
    rw [← Word.skips_past] at stays
    have onward : after.pc = m.state.past.pc := pc.trans (Instruction.pcAfter_onward straight stays)
    change after.pc.toNat = _
    rw [onward, past]
  · intro skips
    obtain ⟨condition, read, holds⟩ := Word.skips_iff.mp (Word.skips_past.mpr skips)
    have skipped : after.pc = m.state.past.pc + 2 := by
      rw [pc, read]
      exact if_pos holds
    change after.pc.toNat = _
    rw [skipped, toNat_add_two (by omega), past]
  · intro waits
    obtain ⟨family, digits⟩ := Word.waits_iff.mp waits
    rw [Instruction.ofWord_of_reads (.waitKey family digits)] at pc
    change after.pc.toNat = _
    rw [pc]
    exact congrArg UInt16.toNat m.state.past_pc_back
  · intro goes
    change after.pc.toNat = _
    rw [pc]
    rcases goes with family | family
    · rw [Instruction.ofWord_of_reads (.jump family)]
      exact Word.toNat_target
    · rw [Instruction.ofWord_of_reads (.call family)]
      exact Word.toNat_target
  · intro leaves
    rw [Instruction.ofWord_of_reads (.ret (Word.leaves_iff.mp leaves))] at completes
    cases completes with
    | ret popped => exact CallStack.pop_ok popped
  · intro family
    rw [Instruction.ofWord_of_reads (.jumpOffset family)] at pc
    change after.pc.toNat = _
    rw [pc]
    exact Instruction.toNat_pcAfter_jumpOffset

end Machine

variable {m : Machine} {past : List Moment} {w : Word}

-- A word that is carried out changes only what is its own, whatever registers it names and
-- wherever I points, and it leads where its digits say.
theorem words_confined (reached : Reached m past) (executing : m.activity = .executing w) :
    ∃ turn, m.step = .ok turn ∧
      (turn.reply = .done → m.Confines w turn.machine ∧ m.Leads w turn.machine) := by
  obtain ⟨_, fetches⟩ := Machine.activity_executing_iff.mp executing
  obtain ⟨turn, ran⟩ := Machine.step_answers reached.sound
  refine ⟨turn, ran, ?_⟩
  intro done
  have word : Moment.word? ⟨m, .step, turn⟩ = some w := Moment.word?_done done executing
  rcases Machine.stepped_carries (Machine.step_ok_iff.mp ran) with
    ⟨again, after, rest, carried, completes, same⟩ | ⟨idle, _⟩
  · cases word.symm.trans carried
    rw [same]
    exact ⟨Machine.completes_confines completes, Machine.completes_leads fetches completes⟩
  · cases word.symm.trans idle

-- The furthest jump there is leads beyond memory, and not to its start.
theorem words_confined_furthest :
    ∃ m past turn, Reached m past ∧ m.activity = .executing 0xBFFF ∧ m.step = .ok turn ∧
      turn.reply = .done ∧ turn.machine.state.pc.toNat = 0x10FE ∧
      ∀ r, turn.machine.state.value r = m.state.value r := by
  let program : List UInt8 := [0x60, 0xFF, 0xBF, 0xFF]
  have fits : program.length ≤ programRoom := by decide
  have loaded : (Machine.empty .vip none (.ofList [])).handle (.load program (.ofList [])) = .ok _ :=
    Machine.load_fits fits (.ofList [])
  obtain ⟨_, reached, here⟩ := ((Reached.empty .vip none (.ofList [])).call loaded).onward
    Machine.started_atWord fits (by decide) (show _ = Instruction.loadByte 0 0xFF by decide)
    .loadByte rfl rfl rfl
  obtain ⟨m, past, reached, here, base, fixed⟩ : ∃ m past, Reached m past ∧ m.AtWord program 1 ∧
      m.state.value (.low 0) = 0xFF ∧ m.dialect.jumpsByVx = false :=
    ⟨_, _, reached, here, rfl, rfl⟩
  have executing : m.activity = .executing 0xBFFF := here.executing fits (by decide) (by decide)
  obtain ⟨ready, fetches⟩ := Machine.activity_executing_iff.mp executing
  have stepped : m.step = .ok _ := Machine.step_stepped (.completes ready fetches .jumpOffset)
  obtain ⟨turn, ran, confined⟩ := words_confined reached executing
  have done : turn.reply = .done := by
    cases stepped.symm.trans ran
    rfl
  obtain ⟨confines, leads⟩ := confined done
  refine ⟨m, past, turn, reached, executing, ran, done, ?_, ?_⟩
  · have pc := leads.offset rfl
    rw [fixed, if_neg nofun, base] at pc
    exact pc
  · intro r
    apply confines.registers
    intro sets
    cases sets with
    | _ family => exact absurd family (by decide)

end ChipEight
