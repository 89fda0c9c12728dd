import ChipEight.Proofs.Footprint
import ChipEight.Proofs.Lockstep
import ChipEight.Proofs.Soundness
namespace ChipEight

def Word.throws (w : Word) : Bool := w.family.val == 0xC

def Instruction.throws : Instruction → Bool
  | .random _ _ => true
  | _ => false

def Moment.throws (moment : Moment) : Bool := moment.word?.any Word.throws

def Seed.face (seed : UInt64) (n : Nat) : UInt8 := (Keystream.word (key seed) n).toUInt8

-- The dice lie at one place of a seed's row. A word that throws them takes the byte that
-- is there; a program that is loaded finds them at the start; nothing else moves them.
structure Moment.InOrder (moment : Moment) (seed : UInt64) (place : Nat) : Prop where
  before : moment.before.dice = ⟨Seed.face seed, place⟩
  thrown : ∀ w, moment.word? = some w → w.throws = true →
    moment.turn.machine = { moment.before with
      state := moment.before.state.past.setV w.x (Seed.face seed place &&& w.kk)
      dice := ⟨Seed.face seed, place + 1⟩ }
  loaded : moment.event.loads = true → moment.turn.machine.dice = ⟨Seed.face seed, 0⟩
  kept : moment.throws = false → moment.event.loads = false →
    moment.turn.machine.dice = moment.before.dice

inductive Event.Same : Event → Event → Prop where
  | load : Same (.load program entropy) (.load program other)
  | refl : Same event event

def Machine.withDice (m : Machine) (seed : Option UInt64) (dice : Dice) : Machine :=
  { m with seed, dice }

def Machine.Twins (m other : Machine) : Prop := ∃ seed dice, other = m.withDice seed dice

variable {w : Word} {m first last : Machine} {event : Event} {turn : Turn} {past : List Moment}
  {known : UInt64}

theorem Instruction.throws_ofWord : (ofWord w).throws = w.throws := by
  have named : (ofWord w).throws = true ↔ w.family.val = 0xC := by
    constructor
    · have reads := ofWord_reads w
      generalize ofWord w = instruction at reads
      intro throwing
      cases reads with
      | random family => exact family
      | _ => cases throwing
    · intro family
      rw [ofWord_of_reads (.random family), throws]
  rw [Bool.eq_iff_iff, named]
  simp [Word.throws]

namespace Completes

variable {dialect : Dialect} {s after : State} {dice rest : Dice} {instruction : Instruction}

theorem dice_eq (completes : Completes dialect s dice instruction after rest) :
    rest = if instruction.throws then dice.throw else dice := by
  cases completes <;> rfl

theorem withDice (completes : Completes dialect s dice instruction after rest)
    (unthrown : instruction.throws = false) (other : Dice) :
    Completes dialect s other instruction after other := by
  cases completes with
  | random => cases unthrown
  | _ => constructor <;> assumption

end Completes

namespace Machine

theorem stepped_dice (stepped : Stepped m turn) :
    turn.machine.dice = if Moment.throws ⟨m, .step, turn⟩ then m.dice.throw else m.dice := by
  unfold Moment.throws
  rcases stepped_carries stepped with ⟨w, _, _, carried, completes, same⟩ | ⟨idle, _, _, _, _, same⟩
  · rw [same, carried, completes.dice_eq, Instruction.throws_ofWord]
    rfl
  · rw [same, idle]
    rfl

theorem handle_dice (seeded : m.seed = some known) (handled : m.handle event = .ok turn) :
    turn.machine.dice =
      if event.loads then .ofSeed known
      else if Moment.throws ⟨m, event, turn⟩ then m.dice.throw else m.dice := by
  cases handle_handled handled with
  | @load program entropy fits =>
    have loads : Event.loads (.load program entropy) = true := decide_eq_true fits
    rw [loads, started, seeded]
    rfl
  | step stepped => exact stepped_dice stepped
  | other unstepped unloading touched =>
    have uncarried : Moment.word? ⟨m, event, turn⟩ = none := Moment.word?_other unstepped
    obtain ⟨_, _, _, touched⟩ := touched
    rw [unloading, Moment.throws, uncarried, touched]
    rfl

end Machine

theorem Reached.dice (reached : Reached m past) (seeded : m.seed = some known) :
    m.dice = ⟨Seed.face known, (sinceLoad past).countP Moment.throws⟩ := by
  induction reached using Reached.induct with
  | new =>
    cases seeded
    rfl
  | call m past event turn _ handled ih =>
    have before := (Machine.handle_settings handled).2.symm.trans seeded
    rw [Machine.handle_dice before handled, sinceLoad_cons]
    split
    · rfl
    · rw [ih before, List.countP_cons]
      split <;> rfl

theorem Reached.inOrder (reached : Reached m past) (seeded : m.seed = some known)
    (handled : m.handle event = .ok turn) :
    Moment.InOrder ⟨m, event, turn⟩ known ((sinceLoad past).countP Moment.throws) := by
  have place := reached.dice seeded
  have moved := Machine.handle_dice seeded handled
  refine ⟨place, ?_, ?_, ?_⟩
  · intro w carried throwing
    obtain ⟨step, _, executing⟩ := Moment.word?_eq_some_iff.mp carried
    cases step
    rcases Machine.stepped_carries (Machine.step_ok_iff.mp handled) with
      ⟨again, after, rest, carriedAgain, completes, same⟩ | ⟨idle, _⟩
    · cases carried.symm.trans carriedAgain
      have family : w.family.val = 0xC := by simpa [Word.throws] using throwing
      rw [Instruction.ofWord_of_reads (.random family)] at completes
      cases completes
      rw [same]
      have next : m.dice.next = Seed.face known _ := congrArg Dice.next place
      have thrown : m.dice.throw = ⟨Seed.face known, _⟩ := congrArg Dice.throw place
      rw [next, thrown]
    · cases carried.symm.trans idle
  · intro loads
    rw [moved, loads]
    rfl
  · intro unthrown unloading
    rw [moved, unloading, unthrown]
    rfl

namespace Machine

theorem Running.withDice (running : m.Running) (seed : Option UInt64) (dice : Dice) :
    (m.withDice seed dice).Running := ⟨running.loaded, running.unhalted⟩

theorem Ready.withDice (ready : m.Ready) (seed : Option UInt64) (dice : Dice) :
    (m.withDice seed dice).Ready := ⟨ready.toRunning.withDice seed dice, ready.unwaiting⟩

theorem unthrown_word (unthrown : Moment.throws ⟨m, .step, turn⟩ = false)
    (done : turn.reply = .done) (executing : m.activity = .executing w) :
    (Instruction.ofWord w).throws = false := by
  rw [Moment.throws, Moment.word?_done done executing] at unthrown
  exact Instruction.throws_ofWord.trans unthrown

theorem Stepped.withDice (stepped : Stepped m turn)
    (unthrown : Moment.throws ⟨m, .step, turn⟩ = false) (seed : Option UInt64) (dice : Dice) :
    Stepped (m.withDice seed dice) ⟨turn.machine.withDice seed dice, turn.reply, turn.notes⟩ := by
  cases stepped with
  | unloaded unloaded => exact .unloaded unloaded
  | halted loaded halted => exact .halted loaded halted
  | idle running waiting quiet => exact .idle (running.withDice seed dice) waiting quiet
  | resumed running waiting fresh named room =>
    exact .resumed (running.withDice seed dice) waiting fresh named room
  | misaligned ready odd => exact .misaligned (ready.withDice seed dice) odd
  | outside ready even outside => exact .outside (ready.withDice seed dice) even outside
  | completes ready fetches completes =>
    exact .completes (ready.withDice seed dice) (fetches.same rfl rfl)
      (completes.withDice (unthrown_word unthrown rfl (activity_word ready fetches)) dice)
  | fails ready fetches fails =>
    exact .fails (ready.withDice seed dice) (fetches.same rfl rfl) fails

theorem handle_withDice {other : Event} (same : event.Same other)
    (unthrown : Moment.throws ⟨m, event, turn⟩ = false) (handled : m.handle event = .ok turn)
    (seed : Option UInt64) (dice : Dice) :
    ∃ after, (m.withDice seed dice).handle other = .ok ⟨after, turn.reply, turn.notes⟩ ∧
      turn.machine.Twins after := by
  cases handle_handled handled with
  | load fits =>
    cases same with
    | load => exact ⟨_, load_fits fits _, _, _, rfl⟩
    | refl => exact ⟨_, load_fits fits _, _, _, rfl⟩
  | step stepped =>
    cases same
    exact ⟨_, step_stepped (stepped.withDice unthrown seed dice), _, _, rfl⟩
  | other unstepped unloading =>
    have state : (m.withDice seed dice).state = m.state := rfl
    obtain ⟨only, there⟩ := handle_alike unstepped unloading state handled
    cases same with
    | @load program _ other =>
      have oversized : programRoom < program.length := by simpa [Event.loads] using unloading
      cases (load_oversized oversized _).symm.trans handled
      exact ⟨_, load_oversized oversized other, seed, dice, rfl⟩
    | refl =>
      refine ⟨_, there, seed, dice, ?_⟩
      rw [only]
      rfl

end Machine

theorem Runs.twins {second other : Machine} {since : List Moment} (one : Runs first past last)
    (two : Runs second since other) (same : List.Forall₂ Event.Same (calls past) (calls since))
    (start : first.Twins second) (unthrown : ∀ moment ∈ past, moment.throws = false) :
    List.Forall₂ (Moment.Matches Machine.Twins) past since ∧ last.Twins other := by
  refine one.lockstep two same start ?_
  intro here present there sameEvent alike handled handledThere
  obtain ⟨seed, dice, twin⟩ := alike
  obtain ⟨after, expected, twins⟩ :=
    Machine.handle_withDice sameEvent (unthrown here present) handled seed dice
  rw [twin, expected] at handledThere
  rw [← Except.ok.inj handledThere]
  exact ⟨rfl, rfl, twins⟩

-- A seed's bytes are used in order, one for each word that throws the dice and none for
-- anything else, and from the first on after each load. Which dice a machine has does not
-- show before a word throws them.
theorem throws_in_order (dialect : Dialect) (seed : Option UInt64) (entropy : Dice)
    (events : List Event) :
    ∃ last past, (Machine.empty dialect seed entropy).run events = .ok (last, answers past) ∧
      calls past = events ∧ Runs (.empty dialect seed entropy) past last ∧
      (∀ known, seed = some known → ∀ later moment earlier, past = later ++ moment :: earlier →
        moment.InOrder known ((sinceLoad earlier).countP Moment.throws)) ∧
      ((∀ moment ∈ past, moment.throws = false) →
        ∀ otherSeed otherEntropy others, List.Forall₂ Event.Same events others →
          ∃ other since, (Machine.empty dialect otherSeed otherEntropy).run others =
              .ok (other, answers since) ∧
            calls since = others ∧ Runs (.empty dialect otherSeed otherEntropy) since other ∧
            answers since = answers past ∧ last.Twins other ∧
            List.Forall₂ (Moment.Matches Machine.Twins) past since) := by
  obtain ⟨last, past, ran, rfl, runs⟩ := (Reached.empty dialect seed entropy).run events
  refine ⟨last, past, ran, rfl, runs, ?_, ?_⟩
  · rintro known rfl later moment earlier rfl
    obtain ⟨before, handled, _⟩ := runs.divided
    have seeded : moment.before.seed = some known := before.settings.2
    exact Reached.inOrder ⟨dialect, _, entropy, before⟩ seeded handled
  · intro unthrown otherSeed otherEntropy others same
    obtain ⟨other, since, ranThere, rfl, runsThere⟩ :=
      (Reached.empty dialect otherSeed otherEntropy).run others
    have start : (Machine.empty dialect seed entropy).Twins
        (.empty dialect otherSeed otherEntropy) := ⟨_, _, rfl⟩
    obtain ⟨matched, twins⟩ := runs.twins runsThere same start unthrown
    exact ⟨other, since, ranThere, rfl, runsThere, answers_matches matched, twins, matched⟩

theorem throws_in_order_first_word :
    ∃ last replies, (Machine.empty .vip (some 7) (.ofList [])).run
        [.load [0xC0, 0xFF] (.ofList []), .step] = .ok (last, replies) ∧
      last.state.value 0 = Seed.face 7 0 &&& 0xFF ∧ last.dice = ⟨Seed.face 7, 1⟩ := by
  let start := Machine.empty .vip (some 7) (.ofList [])
  obtain ⟨last, past, ran, called, runs, order, _⟩ :=
    throws_in_order .vip (some 7) (.ofList []) [.load [0xC0, 0xFF] (.ofList []), .step]
  have loaded : start.handle (.load [0xC0, 0xFF] (.ofList [])) = .ok _ :=
    Machine.load_fits (by decide) (.ofList [])
  have ready : (start.started [0xC0, 0xFF] (.ofList [])).Ready := Machine.started_ready
  have fetches : (start.started [0xC0, 0xFF] (.ofList [])).Fetches 0xC0FF := Machine.started_fetches
  have stepped : (start.started [0xC0, 0xFF] (.ofList [])).handle .step = .ok _ :=
    Machine.step_stepped (.completes ready fetches .random)
  obtain ⟨rfl, rfl⟩ := (Runs.call (.call .nil loaded) stepped).unique runs called
  have thrown := (order 7 rfl [] _ _ rfl).thrown 0xC0FF
    (Moment.word?_done rfl (Machine.activity_word ready fetches)) (by decide)
  refine ⟨_, _, ran, ?_, congrArg Machine.dice thrown⟩
  exact congrArg (fun m => m.state.value 0) thrown

end ChipEight
