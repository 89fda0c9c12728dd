import ChipEight.Instruction
namespace ChipEight

structure Command where
  rom : String
  dialect : Dialect
  seed : Option UInt64
  speed : UInt32
  frames : Option UInt64
  listing : Bool
  deriving DecidableEq

inductive NumberError where
  | empty | badDigit | tooLarge | tooSmall
  deriving DecidableEq

def NumberError.message : NumberError → String
  | .empty => "cannot parse integer from empty string"
  | .badDigit => "invalid digit found in string"
  | .tooLarge => "number too large to fit in target type"
  | .tooSmall => "number too small to fit in target type"

namespace Number

-- Decimal digits after those of `value`. Reading stops at the first digit that
-- makes the number too large, so a bad one behind it is not seen.
def digits (limit : Nat) (beyond : NumberError) (value : Nat) : List Char → Except NumberError Nat
  | [] => .ok value
  | c :: rest =>
    if c.isDigit then
      let longer := value * 10 + (c.toNat - 48)
      if limit < longer then .error beyond else digits limit beyond longer rest
    else .error .badDigit

def unsigned (limit : Nat) (text : List Char) : Except NumberError Nat :=
  match text with
  | [] => .error .empty
  | ['+'] => .error .badDigit
  | '+' :: rest => digits limit .tooLarge 0 rest
  | _ => digits limit .tooLarge 0 text

def signed (limit : Nat) (text : List Char) : Except NumberError Int :=
  match text with
  | [] => .error .empty
  | ['+'] | ['-'] => .error .badDigit
  | '+' :: rest => (digits (limit - 1) .tooLarge 0 rest).map Int.ofNat
  | '-' :: rest => (digits limit .tooSmall 0 rest).map fun n => -Int.ofNat n
  | _ => (digits (limit - 1) .tooLarge 0 text).map Int.ofNat

end Number

inductive Usage where
  | missingRom
  | unknownArgument (argument : String)
  | missingValue (argument : String)
  | repeated (argument : String)
  | unwantedValue (argument value : String)
  | badValue (argument value message : String)
  | helpWanted
  | versionWanted
  deriving DecidableEq

namespace Usage

def message : Usage → String
  | .missingRom => "no program was named"
  | .unknownArgument argument => "unexpected argument '" ++ argument ++ "'"
  | .missingValue argument => "a value is required for '" ++ argument ++ "'"
  | .repeated argument => "the argument '" ++ argument ++ "' cannot be used twice"
  | .unwantedValue argument value => "unexpected value '" ++ value ++ "' for '" ++ argument ++ "'"
  | .badValue argument value message =>
    "invalid value '" ++ value ++ "' for '" ++ argument ++ "': " ++ message
  | .helpWanted => "help was asked for"
  | .versionWanted => "the version was asked for"

def synopsis : String := "Usage: chip8 [OPTIONS] <ROM>"

def version : String := "chip8 0.1.0"

def help : String := "\n".intercalate [
  "Runs a Chip-8 ROM headless, drawing the screen to the terminal",
  "",
  synopsis,
  "",
  "  <ROM>                        path to the ROM to run",
  "      --quirks <NAME>          interpreter dialect: vip, chip48 or schip",
  "      --permissive             skip unknown instructions instead of halting",
  "      --seed <SEED>            seed for the random number generator",
  "      --cycles-per-second <N>  instructions executed per second",
  "      --frames <N>             stop after this many 60Hz frames",
  "  -d, --disassemble            print a disassembly of the ROM instead of running it",
  "  -h, --help                   print help",
  "  -V, --version                print version"]

end Usage

def usualSpeed : UInt32 := 700

inductive Setting where
  | dialect | seed | speed | frames
  deriving DecidableEq

inductive Switch where
  | permissive | listing | help | version
  deriving DecidableEq

def Setting.named : String → Option Setting
  | "quirks" => some .dialect
  | "seed" => some .seed
  | "cycles-per-second" => some .speed
  | "frames" => some .frames
  | _ => none

def Setting.name : Setting → String
  | .dialect => "--quirks"
  | .seed => "--seed"
  | .speed => "--cycles-per-second"
  | .frames => "--frames"

def Switch.named : String → Option Switch
  | "permissive" => some .permissive
  | "disassemble" => some .listing
  | "help" => some .help
  | "version" => some .version
  | _ => none

def Switch.lettered : Char → Option Switch
  | 'd' => some .listing
  | 'h' => some .help
  | 'V' => some .version
  | _ => none

structure Draft where
  rom : Option String
  dialect : Option Dialect
  seed : Option UInt64
  speed : Option UInt32
  frames : Option UInt64
  permissive : Bool
  listing : Bool
  deriving DecidableEq

namespace Draft

def blank : Draft := ⟨none, none, none, none, none, false, false⟩

def has (d : Draft) : Setting → Bool
  | .dialect => d.dialect.isSome
  | .seed => d.seed.isSome
  | .speed => d.speed.isSome
  | .frames => d.frames.isSome

def dialectOf (text : String) : Except String Dialect :=
  match Dialect.named text with
  | some dialect => .ok dialect
  | none => .error ("unknown dialect '" ++ text ++ "'")

def countOf (text : String) : Except String UInt64 :=
  match Number.unsigned 0xFFFFFFFFFFFFFFFF text.toList with
  | .ok n => .ok (UInt64.ofNat n)
  | .error error => .error error.message

-- Speeds are read as 64-bit integers and then held against their own range.
def speedOf (text : String) : Except String UInt32 :=
  match Number.signed 0x8000000000000000 text.toList with
  | .ok n =>
    if 0 ≤ n ∧ n ≤ 0xFFFFFFFF then .ok (UInt32.ofNat n.toNat)
    else .error (toString n ++ " is not in 0..=4294967295")
  | .error error => .error error.message

def assign (d : Draft) (setting : Setting) (text : String) : Except Usage Draft :=
  if d.has setting then .error (.repeated setting.name)
  else
    let read : Except String Draft := match setting with
      | .dialect => (dialectOf text).map fun dialect => { d with dialect := some dialect }
      | .seed => (countOf text).map fun seed => { d with seed := some seed }
      | .speed => (speedOf text).map fun speed => { d with speed := some speed }
      | .frames => (countOf text).map fun frames => { d with frames := some frames }
    match read with
    | .ok d => .ok d
    | .error message => .error (.badValue setting.name text message)

def turnOn (d : Draft) : Switch → Except Usage Draft
  | .permissive => if d.permissive then .error (.repeated "--permissive") else .ok { d with permissive := true }
  | .listing => if d.listing then .error (.repeated "--disassemble") else .ok { d with listing := true }
  | .help => .error .helpWanted
  | .version => .error .versionWanted

def command (d : Draft) : Except Usage Command :=
  match d.rom with
  | none => .error .missingRom
  | some rom =>
    let dialect := d.dialect.getD .vip
    .ok {
      rom
      dialect := if d.permissive then dialect.permissive else dialect
      seed := d.seed
      speed := d.speed.getD usualSpeed
      frames := d.frames
      listing := d.listing }

end Draft

-- An argument that has been seen but is not settled before something follows it:
-- until then an unknown argument can still come first.
inductive Pending where
  | rom (path : String)
  | unvalued (setting : Setting)
  | valued (setting : Setting) (value : String)
  deriving DecidableEq

structure Reading where
  draft : Draft
  pending : Option Pending
  romSeen : Bool
  ended : Bool
  deriving DecidableEq

namespace Reading

def start : Reading := ⟨.blank, none, false, false⟩

def settle (r : Reading) : Except Usage Reading :=
  match r.pending with
  | none => .ok r
  | some (.rom path) =>
    if path = "" then .error (.missingValue "<ROM>")
    else .ok { r with draft.rom := some path, pending := none }
  | some (.unvalued setting) => .error (.missingValue setting.name)
  | some (.valued setting value) =>
    (r.draft.assign setting value).map fun draft => { r with draft, pending := none }

def switch (r : Reading) (switch : Switch) : Except Usage Reading :=
  match r.settle with
  | .error usage => .error usage
  | .ok r => (r.draft.turnOn switch).map fun draft => { r with draft }

def long (r : Reading) (name : String) (value : Option String) : Except Usage Reading :=
  match Setting.named name, Switch.named name, value with
  | some setting, _, none => r.settle.map fun r => { r with pending := some (.unvalued setting) }
  | some setting, _, some value =>
    match r.settle with
    | .error usage => .error usage
    | .ok r => (r.draft.assign setting value).map fun draft => { r with draft }
  | none, some switch, none => r.switch switch
  | none, some _, some value => .error (.unwantedValue ("--" ++ name) value)
  | none, none, _ => .error (.unknownArgument ("--" ++ name))

def short (r : Reading) : List Char → Except Usage Reading
  | [] => .ok r
  | letter :: rest =>
    match Switch.lettered letter with
    | none => .error (.unknownArgument (String.ofList ['-', letter]))
    | some switch =>
      match r.switch switch with
      | .error usage => .error usage
      | .ok r => r.short rest

def free (r : Reading) (argument : String) : Except Usage Reading :=
  if r.romSeen then .error (.unknownArgument argument)
  else r.settle.map fun r => { r with pending := some (.rom argument), romSeen := true }

def plain (r : Reading) (argument : String) : Except Usage Reading :=
  match r.pending with
  | some (.unvalued setting) => .ok { r with pending := some (.valued setting argument) }
  | _ => r.free argument

def take (r : Reading) (argument : String) : Except Usage Reading :=
  if r.ended then r.free argument
  else match argument.toList with
    | ['-', '-'] => .ok { r with ended := true }
    | '-' :: '-' :: option =>
      let name := String.ofList (option.takeWhile (· ≠ '='))
      match option.dropWhile (· ≠ '=') with
      | [] => r.long name none
      | _ :: value => r.long name (some (String.ofList value))
    | '-' :: letter :: letters => r.short (letter :: letters)
    | _ => r.plain argument

end Reading

def Command.ofArguments (arguments : List String) : Except Usage Command :=
  match arguments.foldlM Reading.take Reading.start with
  | .error usage => .error usage
  | .ok reading =>
    match reading.settle with
    | .error usage => .error usage
    | .ok reading => reading.draft.command

end ChipEight
