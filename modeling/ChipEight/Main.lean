import ChipEight.Report
namespace ChipEight

-- The system's own words, and its number for them, which may arrive negated.
def systemWords (error : IO.Error) : String :=
  match error with
  | .noFileOrDirectory _ code words
  | .inappropriateType _ code words
  | .permissionDenied _ code words =>
    let number := if code.toNat < 0x80000000 then code.toNat else 0x100000000 - code.toNat
    words.capitalize ++ " (os error " ++ toString number ++ ")"
  | other => other.toString

def readContent (path : String) : IO FileContent := do
  try
    return .ok (← IO.FS.readBinFile path).toList
  catch error =>
    return .error (systemWords error)

def chance : IO Dice := do
  let bytes ← IO.getRandomBytes 8
  return .ofSeed (bytes.toList.foldl (fun seed byte => seed * 256 + byte.toUInt64) 0)

def endFrame (began : Nat) : IO Nat := do
  let due := began + 1000000000 / frameRate
  let now ← IO.monoNanosNow
  if now < due then
    IO.sleep (UInt32.ofNat ((due - now) / 1000000))
  IO.monoNanosNow

def playFrames (session : Session) (began : Nat) : Nat → IO (Option Failure)
  | 0 => return none
  | frames + 1 => do
    let (session, failure) := session.frame
    IO.print session.output
    (← IO.getStdout).flush
    match failure with
    | some failure => return some failure
    | none => playFrames { session with shown := #[] } (← endFrame began) frames

def perform (command : Command) : IO (Option Failure) := do
  let file ← readContent command.rom
  if command.listing then
    let report := Report.ofListing (command.list file)
    IO.print report.output
    return report.failure
  match command.session none file (← chance) with
  | .error failure => return some failure
  | .ok session => playFrames session (← IO.monoNanosNow) command.frameLimit

end ChipEight

open ChipEight in
def main (arguments : List String) : IO UInt32 := do
  match Command.ofArguments arguments with
  | .error .helpWanted =>
    IO.println Usage.help
    return 0
  | .error .versionWanted =>
    IO.println Usage.version
    return 0
  | .error usage =>
    IO.eprintln ("error: " ++ usage.message ++ "\n\n" ++ Usage.synopsis)
    return 2
  | .ok command =>
    match ← perform command with
    | none => return 0
    | some failure =>
      IO.eprintln ("Error: " ++ "\n\nCaused by:\n    ".intercalate failure.chain)
      return 1
