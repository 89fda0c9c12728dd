namespace ChipEight

def hexDigit (d : Nat) : Char :=
  if d < 10 then Char.ofNat (48 + d) else Char.ofNat (55 + d)

def hexDigits (n : Nat) : List Char :=
  if n < 16 then [hexDigit n] else hexDigits (n / 16) ++ [hexDigit (n % 16)]
termination_by n

def hex (width n : Nat) : String :=
  String.ofList ((hexDigits n).leftpad width '0')

inductive Fault where
  | unknownInstruction (word address : UInt16)
  | outsideMemory (address : Nat)
  | stackOverflow
  | stackUnderflow
  | misaligned (pc : UInt16)
  | notLoaded
  | halted
  | oversized (size room : Nat)
  | noSuchKey (key : UInt8)
  deriving DecidableEq

def Fault.message : Fault → String
  | .unknownInstruction word address =>
    "unknown instruction 0x" ++ hex 4 word.toNat ++ " at 0x" ++ hex 3 address.toNat
  | .outsideMemory address => "memory access out of bounds at 0x" ++ hex 4 address
  | .stackOverflow => "stack overflow: more than 16 nested calls"
  | .stackUnderflow => "stack underflow: return without a matching call"
  | .misaligned pc => "program counter 0x" ++ hex 4 pc.toNat ++ " is not aligned to an instruction"
  | .notLoaded => "no program has been loaded"
  | .halted => "the machine has halted"
  | .oversized size room =>
    "program is " ++ toString size ++ " bytes but at most " ++ toString room ++ " fit in memory"
  | .noSuchKey key => "key 0x" ++ hex 2 key.toNat ++ " is not on the keypad"

-- A trap is no answer: the call left the range in which its arithmetic means anything.
inductive Trap where
  | addOverflow
  | subOverflow
  | mulOverflow
  | capacityOverflow
  | indexOutside (length index : Nat)
  | emptyScreen (width height : Nat)
  deriving DecidableEq

def Trap.message : Trap → String
  | .addOverflow => "attempt to add with overflow"
  | .subOverflow => "attempt to subtract with overflow"
  | .mulOverflow => "attempt to multiply with overflow"
  | .capacityOverflow => "capacity overflow"
  | .indexOutside length index =>
    "index out of bounds: the len is " ++ toString length ++ " but the index is " ++ toString index
  | .emptyScreen width height =>
    "frame buffer must be at least 1x1, got " ++ toString width ++ "x" ++ toString height

-- Either way to end without a result. Nothing is written by a call that ends so,
-- except where the call says what remains.
inductive Stop where
  | fault (cause : Fault)
  | trap (cause : Trap)
  deriving DecidableEq

def countLimit : Nat := 0x10000000000000000

-- What lies in one piece fills less than half of all addresses.
def pieceLimit : Nat := 0x8000000000000000

end ChipEight
