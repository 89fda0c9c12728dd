import ChipEight.Machine
namespace ChipEight

def frameRate : Nat := 60

namespace Pace

-- How many instructions the next frame gets, and what is carried to the one
-- after it. The sum may exceed 32 bits, both results never do.
def split (speed carried : UInt32) : UInt32 × UInt32 :=
  let total := carried.toNat + speed.toNat
  (UInt32.ofNat (total / frameRate), UInt32.ofNat (total % frameRate))

theorem split_total (speed carried : UInt32) :
    frameRate * (split speed carried).1.toNat + (split speed carried).2.toNat =
      carried.toNat + speed.toNat := by
  have speedBound := speed.toNat_lt
  have carriedBound := carried.toNat_lt
  simp only [split, frameRate, UInt32.toNat_ofNat']
  omega

theorem split_carried (speed carried : UInt32) : (split speed carried).2.toNat < frameRate := by
  simp only [split, frameRate, UInt32.toNat_ofNat']
  omega

def shares (speed : UInt32) : Nat → UInt32 → List (UInt32 × UInt32)
  | 0, _ => []
  | frames + 1, carried =>
    let share := split speed carried
    share :: shares speed frames share.2

end Pace

inductive Failure where
  | unreadable (path cause : String)
  | tooLong (path : String) (size room : Nat)
  | unloadable (path : String) (fault : Fault)
  | crashed (address : UInt16) (fault : Fault)
  | trapped (trap : Trap)
  deriving DecidableEq

def Failure.chain : Failure → List String
  | .unreadable path cause => ["unable to open " ++ path, cause]
  | .tooLong path size room =>
    [path ++ " is " ++ toString size ++ " bytes but at most " ++ toString room ++ " fit in memory"]
  | .unloadable path fault => ["unable to load " ++ path, fault.message]
  | .crashed address fault => ["halted at " ++ hex 3 address.toNat, fault.message]
  | .trapped trap => [trap.message]

structure Session where
  machine : Machine
  speed : UInt32
  watch : Watch
  carried : UInt32
  beeping : Bool
  shown : Array Display
  notes : Array Note

namespace Session

def opened (machine : Machine) (speed : UInt32) (watch : Watch) : Session where
  machine
  speed
  watch
  carried := 0
  beeping := false
  shown := #[]
  notes := #[]

def keep (s : Session) (notes : List Note) : Session :=
  { s with notes := s.notes ++ notes.filter s.watch.keeps }

def steps (s : Session) : Nat → Session × Option Failure
  | 0 => (s, none)
  | count + 1 =>
    match s.machine.step with
    | .error trap => (s, some (.trapped trap))
    | .ok turn =>
      let s := { s with machine := turn.machine }.keep turn.notes
      match turn.reply with
      | .refused fault => (s, some (.crashed turn.machine.state.pc fault))
      | _ => s.steps count

def hear (s : Session) : Session :=
  if s.machine.beeping = s.beeping then s
  else { s with beeping := s.machine.beeping }.keep [.sound s.machine.beeping]

def present (s : Session) : Session :=
  match s.machine.takeFrame with
  | (machine, some picture) => { s with machine, shown := s.shown.push picture }
  | (machine, none) => { s with machine }

-- One sixtieth of a second: the frame's share of instructions, then a tick of
-- the timers, then the picture if there is a new one.
def frame (s : Session) : Session × Option Failure :=
  let share := Pace.split s.speed s.carried
  match { s with carried := share.2 }.steps share.1.toNat with
  | (s, some failure) => (s, some failure)
  | (s, none) => ({ s with machine := s.machine.tick }.hear.present, none)

def play (s : Session) : Nat → Session × Option Failure
  | 0 => (s, none)
  | frames + 1 =>
    match s.frame with
    | (s, some failure) => (s, some failure)
    | (s, none) => s.play frames

def output (s : Session) : String :=
  String.join (s.shown.toList.map fun picture => homeAndClear ++ picture.picture)

end Session

end ChipEight
