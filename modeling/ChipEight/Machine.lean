import ChipEight.Execute
namespace ChipEight

inductive Level where
  | trace | debug | info | warn | error
  deriving DecidableEq

def Level.name : Level → String
  | .trace => "TRACE"
  | .debug => "DEBUG"
  | .info => "INFO"
  | .warn => "WARN"
  | .error => "ERROR"

def Level.rank : Level → Nat
  | .trace => 0
  | .debug => 1
  | .info => 2
  | .warn => 3
  | .error => 4

-- What the machine and its host have to say about a run. Nothing depends on a note.
inductive Note where
  | executing (pc : UInt16) (word : Word) (v : Vector UInt8 16) (i : UInt16)
  | programLoaded (size : Nat)
  | keyAwaited (register : UInt8)
  | keyReceived (key register : UInt8)
  | wordSkipped (word : Word) (address : UInt16)
  | halted (address : UInt16) (fault : Fault)
  | fileLoaded (path : String)
  | sound (on : Bool)
  deriving DecidableEq

namespace Note

def level : Note → Level
  | .executing .. => .trace
  | .programLoaded _ | .keyAwaited _ | .keyReceived .. | .sound _ => .debug
  | .fileLoaded _ => .info
  | .wordSkipped .. => .warn
  | .halted .. => .error

def column (width : Nat) (text : String) : String := text.pushn ' ' (width - text.length)

def text : Note → String
  | .executing pc word v i =>
    hex 3 pc.toNat ++ " " ++ hex 4 word.toNat ++ " " ++ column 16 (Instruction.ofWord word).text
      ++ " v[" ++ ", ".intercalate (v.toList.map fun value => hex 2 value.toNat)
      ++ "] i" ++ hex 3 i.toNat
  | .programLoaded size => "loaded " ++ toString size ++ " byte program"
  | .keyAwaited register => "waiting for a key press to store in V" ++ hex 1 register.toNat
  | .keyReceived key register =>
    "key " ++ hex 1 key.toNat ++ " pressed, stored in V" ++ hex 1 register.toNat
  | .wordSkipped word address =>
    "skipping unknown instruction " ++ hex 4 word.toNat ++ " at " ++ hex 3 address.toNat
  | .halted address fault => "halted at " ++ hex 3 address.toNat ++ ": " ++ fault.message
  | .fileLoaded path => "successfully loaded " ++ path
  | .sound on => "sound " ++ if on then "on" else "off"

def line (note : Note) : String := note.level.name ++ " " ++ note.text

end Note

abbrev Watch := Option Level

def Watch.keeps (watch : Watch) (note : Note) : Bool :=
  match watch with
  | none => false
  | some least => least.rank ≤ note.level.rank

def Instruction.notes (dialect : Dialect) (pc : UInt16) : Instruction → List Note
  | .waitKey x => [.keyAwaited (UInt8.ofNat x.val)]
  | .unknown word => if dialect.strict then [] else [.wordSkipped word (pc - 2)]
  | _ => []

structure Machine where
  state : State
  dialect : Dialect
  seed : Option UInt64
  dice : Dice
  loaded : Bool
  halt : Option Fault

inductive Reply where
  | done
  | refused (fault : Fault)
  | frame (picture : Option Display)
  deriving DecidableEq

structure Turn where
  machine : Machine
  reply : Reply
  notes : List Note

inductive Activity where
  | refused (fault : Fault)
  | waiting
  | stuck (stop : Stop)
  | executing (word : Word)
  deriving DecidableEq

def State.lookNotes (s : State) : List Note :=
  match s.awaited with
  | some (wait, key) => [.keyReceived (UInt8.ofNat key.val) wait.register]
  | none => []

namespace Machine

-- The host's own dice are used only where there is no seed.
def startDice (seed : Option UInt64) (entropy : Dice) : Dice :=
  match seed with
  | some seed => .ofSeed seed
  | none => entropy

def empty (dialect : Dialect) (seed : Option UInt64) (entropy : Dice) : Machine where
  state := .fresh
  dialect
  seed
  dice := startDice seed entropy
  loaded := false
  halt := none

-- A program that does not fit changes nothing. One that fits finds everything
-- as in a new machine, whatever ran before.
def load (m : Machine) (program : List UInt8) (entropy : Dice) : Except Trap Turn :=
  if programRoom < program.length then
    .ok ⟨m, .refused (.oversized program.length programRoom), []⟩
  else match State.fresh.memory.store programStart.toNat program with
    | (memory, .ok ()) =>
      .ok {
        machine := { m with
          state := { State.fresh with memory }
          dice := startDice m.seed entropy
          loaded := true
          halt := none }
        reply := .done
        notes := [.programLoaded program.length] }
    | (_, .error (.fault fault)) => .ok ⟨m, .refused fault, []⟩
    | (_, .error (.trap trap)) => .error trap

def fetch (m : Machine) : Except Stop Word :=
  if m.state.pc.toNat % 2 = 0 then m.state.memory.word m.state.pc.toNat
  else .error (.fault (.misaligned m.state.pc))

def activity (m : Machine) : Activity :=
  if !m.loaded then .refused .notLoaded
  else if m.halt.isSome then .refused .halted
  else if m.state.wait.isSome then .waiting
  else match m.fetch with
    | .ok word => .executing word
    | .error stop => .stuck stop

def haltAt (m : Machine) (pc : UInt16) (fault : Fault) (notes : List Note) : Turn :=
  ⟨{ m with state.pc := pc, halt := some fault }, .refused fault, notes ++ [.halted pc fault]⟩

def perform (m : Machine) (word : Word) : Except Trap Turn :=
  let entry := Note.executing m.state.pc word m.state.v m.state.i
  match m.state.forward with
  | .error trap => .error trap
  | .ok past =>
    match past.execute m.dialect (.ofWord word) m.dice with
    | .finished state dice =>
      .ok ⟨{ m with state, dice }, .done, entry :: (Instruction.ofWord word).notes m.dialect past.pc⟩
    | .failed fault state dice => .ok ({ m with state, dice }.haltAt m.state.pc fault [entry])
    | .trapped trap => .error trap

def look (m : Machine) : Except Trap Turn :=
  match m.state.look with
  | .error trap => .error trap
  | .ok (state, _) => .ok ⟨{ m with state }, .done, m.state.lookNotes⟩

def step (m : Machine) : Except Trap Turn :=
  match m.activity with
  | .refused fault => .ok ⟨m, .refused fault, []⟩
  | .waiting => m.look
  | .stuck (.fault fault) => .ok (m.haltAt m.state.pc fault [])
  | .stuck (.trap trap) => .error trap
  | .executing word => m.perform word

def tick (m : Machine) : Machine := { m with state.timers := m.state.timers.tick }

def setKeypad (m : Machine) (keypad : Keypad) : Machine := { m with state.keypad := keypad }

def takeFrame (m : Machine) : Machine × Option Display :=
  if m.state.drawn then ({ m with state.drawn := false }, some m.state.screen) else (m, none)

def beeping (m : Machine) : Bool := m.state.timers.beeping

def register (m : Machine) (x : UInt8) : UInt8 := m.state.value (.low x.toNat)

end Machine

end ChipEight
