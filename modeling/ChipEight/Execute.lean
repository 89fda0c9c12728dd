import ChipEight.Dice
import ChipEight.State
namespace ChipEight

def Alu.apply (dialect : Dialect) (op : Alu) (vx vy : UInt8) : UInt8 × Option Bool :=
  let shifted := if dialect.shiftsVy then vy else vx
  match op with
  | .copy => (vy, none)
  | .or => (vx ||| vy, none)
  | .and => (vx &&& vy, none)
  | .xor => (vx ^^^ vy, none)
  | .add => (vx + vy, some (255 < vx.toNat + vy.toNat))
  | .sub => (vx - vy, some (vy ≤ vx))
  | .subFrom => (vy - vx, some (vx ≤ vy))
  | .shiftRight => (shifted >>> 1, some (shifted.toNat % 2 == 1))
  | .shiftLeft => (shifted <<< 1, some (128 ≤ shifted.toNat))

namespace State

-- The flag is written last, so it is what VF holds when x is F.
def compute (s : State) (dialect : Dialect) (op : Alu) (x y : Register) : State :=
  match op.apply dialect (s.value x) (s.value y) with
  | (value, none) => s.setV x value
  | (value, some flag) => (s.setV x value).setFlag flag

def decimalDigits (value : UInt8) : List UInt8 := [value / 100, value / 10 % 10, value % 10]

def glyphStart (value : UInt8) : Nat := fontStart.toNat + value.toNat % 16 * glyphSize.toNat

def firstRegisters (s : State) (x : Register) : List UInt8 := s.v.toList.take (x.val + 1)

def setRegisters (v : Vector UInt8 16) (first : Nat) : List UInt8 → Vector UInt8 16
  | [] => v
  | value :: rest => setRegisters (v.setIfInBounds first value) (first + 1) rest

def advanceIndex (s : State) (dialect : Dialect) (count : Nat) : State :=
  if dialect.advancesIndex then { s with i := s.i + UInt16.ofNat count } else s

def jumpBase (s : State) (dialect : Dialect) (target : Target) : UInt8 :=
  if dialect.jumpsByVx then s.value (.low (target.val / 256)) else s.value (.low 0)

end State

-- What becomes of an instruction. One that fails gives back the state and the
-- dice as they are by then, whatever it has done to them.
inductive Effect where
  | finished (state : State) (dice : Dice)
  | failed (fault : Fault) (state : State) (dice : Dice)
  | trapped (trap : Trap)

def Effect.stopped (state : State) (dice : Dice) : Stop → Effect
  | .fault fault => .failed fault state dice
  | .trap trap => .trapped trap

-- The state's pc is already past the instruction. An unknown word's own address is worked
-- out before it is known whether it is needed.
def State.execute (dialect : Dialect) (instruction : Instruction) (s : State) (dice : Dice) : Effect :=
  match instruction with
  | .system _ => .finished s dice
  | .jump target => .finished { s with pc := UInt16.ofNat target.val } dice
  | .jumpOffset target => match s.jumpTo (target.val + (s.jumpBase dialect target).toNat) with
    | .ok s => .finished s dice
    | .error trap => .trapped trap
  | .call target => match s.stack.push s.pc with
    | (stack, .ok ()) => .finished { s with pc := UInt16.ofNat target.val, stack } dice
    | (stack, .error fault) => .failed fault { s with stack } dice
  | .ret => match s.stack.pop with
    | (stack, .ok address) => .finished { s with pc := address, stack } dice
    | (stack, .error fault) => .failed fault { s with stack } dice
  | .skip condition =>
    if s.holds condition then match s.forward with
      | .ok s => .finished s dice
      | .error trap => .trapped trap
    else .finished s dice
  | .loadByte x kk => .finished (s.setV x kk) dice
  | .addByte x kk => .finished (s.setV x (s.value x + kk)) dice
  | .alu op x y => .finished (s.compute dialect op x y) dice
  | .random x kk => .finished (s.setV x (dice.next &&& kk)) dice.throw
  | .readDelay x => .finished (s.setV x s.timers.delay) dice
  | .setDelay x => .finished { s with timers.delay := s.value x } dice
  | .setSound x => .finished { s with timers.sound := s.value x } dice
  | .waitKey x => match { s with wait := some ⟨UInt8.ofNat x.val, s.keypad⟩ }.back with
    | .ok s => .finished s dice
    | .error trap => .trapped trap
  | .loadIndex target => .finished { s with i := UInt16.ofNat target.val } dice
  | .addIndex x => .finished { s with i := s.i + (s.value x).toUInt16 } dice
  | .glyph x => match s.pointTo (glyphStart (s.value x)) with
    | .ok s => .finished s dice
    | .error trap => .trapped trap
  | .decimal x => match s.memory.store s.i.toNat (decimalDigits (s.value x)) with
    | (memory, .ok ()) => .finished { s with memory } dice
    | (memory, .error stop) => .stopped { s with memory } dice stop
  | .store x => match s.memory.store s.i.toNat (s.firstRegisters x) with
    | (memory, .ok ()) => .finished ({ s with memory }.advanceIndex dialect (x.val + 1)) dice
    | (memory, .error stop) => .stopped { s with memory } dice stop
  | .load x => match s.memory.slice s.i.toNat (x.val + 1) with
    | .ok values =>
      .finished ({ s with v := setRegisters s.v 0 values }.advanceIndex dialect (x.val + 1)) dice
    | .error stop => .stopped s dice stop
  | .clear => .finished { s with screen := s.screen.clear, drawn := true } dice
  | .draw x y rows => match s.memory.slice s.i.toNat rows.val with
    | .ok sprite => match s.screen.draw (s.value x).toNat (s.value y).toNat sprite with
      | (drawing, .ok ()) =>
        .finished ({ s with screen := drawing.screen, drawn := true }.setFlag drawing.collision) dice
      | (_, .error trap) => .trapped trap
    | .error stop => .stopped s dice stop
  | .unknown word => match s.back with
    | .ok own =>
      if dialect.strict then .failed (.unknownInstruction word own.pc) s dice else .finished s dice
    | .error trap => .trapped trap

end ChipEight
