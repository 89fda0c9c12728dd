import ChipEight.Command
import ChipEight.Session
namespace ChipEight

abbrev FileContent := Except String (List UInt8)

namespace Command

def list (c : Command) (file : FileContent) : Except Failure (List Line) :=
  match file with
  | .error cause => .error (.unreadable c.rom cause)
  | .ok bytes =>
    if programRoom < bytes.length then .error (.tooLong c.rom bytes.length programRoom)
    else .ok (ChipEight.listing programStart bytes)

def session (c : Command) (watch : Watch) (file : FileContent) (entropy : Dice) :
    Except Failure Session :=
  match file with
  | .error cause => .error (.unreadable c.rom cause)
  | .ok bytes =>
    match (Machine.empty c.dialect c.seed entropy).load bytes entropy with
    | .error trap => .error (.trapped trap)
    | .ok turn =>
      match turn.reply with
      | .refused fault => .error (.unloadable c.rom fault)
      | _ => .ok ((Session.opened turn.machine c.speed watch).keep (turn.notes ++ [.fileLoaded c.rom]))

-- Frames to play. One that asks for no end gets more than can ever be played.
def frameLimit (c : Command) : Nat :=
  match c.frames with
  | some frames => frames.toNat
  | none => countLimit

end Command

structure Report where
  output : String
  failure : Option Failure
  notes : List Note

def Report.ofListing : Except Failure (List Line) → Report
  | .error failure => ⟨"", some failure, []⟩
  | .ok lines => ⟨String.join (lines.map fun line => line.text ++ "\n"), none, []⟩

def Report.ofPlay (played : Session × Option Failure) : Report :=
  ⟨played.1.output, played.2, played.1.notes.toList⟩

def Command.report (c : Command) (watch : Watch) (file : FileContent) (entropy : Dice) : Report :=
  if c.listing then .ofListing (c.list file)
  else match c.session watch file entropy with
    | .error failure => ⟨"", some failure, []⟩
    | .ok session => .ofPlay (session.play c.frameLimit)

end ChipEight
