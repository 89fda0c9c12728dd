import ChipEight.Fault
namespace ChipEight

abbrev Register := Fin 16

def Register.flag : Register := ⟨15, by decide⟩

def Register.low (n : Nat) : Register := ⟨n % 16, Nat.mod_lt _ (by decide)⟩

abbrev Target := Fin 4096

inductive Condition where
  | isByte (x : Register) (kk : UInt8)
  | notByte (x : Register) (kk : UInt8)
  | same (x y : Register)
  | differ (x y : Register)
  | pressed (x : Register)
  | released (x : Register)
  deriving DecidableEq

inductive Alu where
  | copy | or | and | xor | add | sub | shiftRight | subFrom | shiftLeft
  deriving DecidableEq

inductive Instruction where
  | system (target : Target)
  | clear
  | ret
  | jump (target : Target)
  | call (target : Target)
  | skip (condition : Condition)
  | loadByte (x : Register) (kk : UInt8)
  | addByte (x : Register) (kk : UInt8)
  | alu (op : Alu) (x y : Register)
  | loadIndex (target : Target)
  | jumpOffset (target : Target)
  | random (x : Register) (kk : UInt8)
  | draw (x y : Register) (rows : Fin 16)
  | readDelay (x : Register)
  | waitKey (x : Register)
  | setDelay (x : Register)
  | setSound (x : Register)
  | addIndex (x : Register)
  | glyph (x : Register)
  | decimal (x : Register)
  | store (x : Register)
  | load (x : Register)
  | unknown (word : UInt16)
  deriving DecidableEq

abbrev Word := UInt16

namespace Word

def ofBytes (high low : UInt8) : Word := UInt16.ofNat (high.toNat * 256 + low.toNat)

theorem toNat_ofBytes (high low : UInt8) :
    (ofBytes high low).toNat = high.toNat * 256 + low.toNat := by
  have highBound := high.toNat_lt
  have lowBound := low.toNat_lt
  simp [ofBytes]
  omega

def family (w : Word) : Fin 16 := ⟨w.toNat / 4096 % 16, Nat.mod_lt _ (by decide)⟩

def x (w : Word) : Register := .low (w.toNat / 256)

def y (w : Word) : Register := .low (w.toNat / 16)

def n (w : Word) : Fin 16 := ⟨w.toNat % 16, Nat.mod_lt _ (by decide)⟩

def kk (w : Word) : UInt8 := UInt8.ofNat (w.toNat % 256)

def target (w : Word) : Target := ⟨w.toNat % 4096, Nat.mod_lt _ (by decide)⟩

end Word

def Alu.ofDigit? : Nat → Option Alu
  | 0x0 => some .copy
  | 0x1 => some .or
  | 0x2 => some .and
  | 0x3 => some .xor
  | 0x4 => some .add
  | 0x5 => some .sub
  | 0x6 => some .shiftRight
  | 0x7 => some .subFrom
  | 0xE => some .shiftLeft
  | _ => none

def Instruction.ofWord (w : Word) : Instruction :=
  match w.family.val with
  | 0x0 => if w = 0x00E0 then .clear else if w = 0x00EE then .ret else .system w.target
  | 0x1 => .jump w.target
  | 0x2 => .call w.target
  | 0x3 => .skip (.isByte w.x w.kk)
  | 0x4 => .skip (.notByte w.x w.kk)
  | 0x5 => if w.n.val = 0 then .skip (.same w.x w.y) else .unknown w
  | 0x6 => .loadByte w.x w.kk
  | 0x7 => .addByte w.x w.kk
  | 0x8 => match Alu.ofDigit? w.n.val with
    | some op => .alu op w.x w.y
    | none => .unknown w
  | 0x9 => if w.n.val = 0 then .skip (.differ w.x w.y) else .unknown w
  | 0xA => .loadIndex w.target
  | 0xB => .jumpOffset w.target
  | 0xC => .random w.x w.kk
  | 0xD => .draw w.x w.y w.n
  | 0xE => match w.kk.toNat with
    | 0x9E => .skip (.pressed w.x)
    | 0xA1 => .skip (.released w.x)
    | _ => .unknown w
  | _ => match w.kk.toNat with
    | 0x07 => .readDelay w.x
    | 0x0A => .waitKey w.x
    | 0x15 => .setDelay w.x
    | 0x18 => .setSound w.x
    | 0x1E => .addIndex w.x
    | 0x29 => .glyph w.x
    | 0x33 => .decimal w.x
    | 0x55 => .store w.x
    | 0x65 => .load w.x
    | _ => .unknown w

inductive Operand where
  | register (x : Register)
  | byte (kk : UInt8)
  | target (place : Target)
  | word (bits : UInt16)
  | count (rows : Fin 16)
  | index
  | indexed
  | delay
  | sound
  | key
  | glyph
  | decimal
  deriving DecidableEq

def Operand.text : Operand → String
  | .register x => "V" ++ hex 1 x.val
  | .byte kk => "0x" ++ hex 2 kk.toNat
  | .target place => "0x" ++ hex 3 place.val
  | .word bits => "0x" ++ hex 4 bits.toNat
  | .count rows => toString rows.val
  | .index => "I"
  | .indexed => "[I]"
  | .delay => "DT"
  | .sound => "ST"
  | .key => "K"
  | .glyph => "F"
  | .decimal => "B"

structure Mnemonic where
  name : String
  operands : List Operand
  deriving DecidableEq

def Mnemonic.text (m : Mnemonic) : String :=
  match m.operands with
  | [] => m.name
  | operands => m.name ++ " " ++ ", ".intercalate (operands.map Operand.text)

def Condition.mnemonic : Condition → Mnemonic
  | .isByte x kk => ⟨"SE", [.register x, .byte kk]⟩
  | .notByte x kk => ⟨"SNE", [.register x, .byte kk]⟩
  | .same x y => ⟨"SE", [.register x, .register y]⟩
  | .differ x y => ⟨"SNE", [.register x, .register y]⟩
  | .pressed x => ⟨"SKP", [.register x]⟩
  | .released x => ⟨"SKNP", [.register x]⟩

def Alu.name : Alu → String
  | .copy => "LD"
  | .or => "OR"
  | .and => "AND"
  | .xor => "XOR"
  | .add => "ADD"
  | .sub => "SUB"
  | .shiftRight => "SHR"
  | .subFrom => "SUBN"
  | .shiftLeft => "SHL"

def Instruction.mnemonic : Instruction → Mnemonic
  | .system target => ⟨"SYS", [.target target]⟩
  | .clear => ⟨"CLS", []⟩
  | .ret => ⟨"RET", []⟩
  | .jump target => ⟨"JP", [.target target]⟩
  | .call target => ⟨"CALL", [.target target]⟩
  | .skip condition => condition.mnemonic
  | .loadByte x kk => ⟨"LD", [.register x, .byte kk]⟩
  | .addByte x kk => ⟨"ADD", [.register x, .byte kk]⟩
  | .alu op x y => ⟨op.name, [.register x, .register y]⟩
  | .loadIndex target => ⟨"LD", [.index, .target target]⟩
  | .jumpOffset target => ⟨"JP", [.register (.low 0), .target target]⟩
  | .random x kk => ⟨"RND", [.register x, .byte kk]⟩
  | .draw x y rows => ⟨"DRW", [.register x, .register y, .count rows]⟩
  | .readDelay x => ⟨"LD", [.register x, .delay]⟩
  | .waitKey x => ⟨"LD", [.register x, .key]⟩
  | .setDelay x => ⟨"LD", [.delay, .register x]⟩
  | .setSound x => ⟨"LD", [.sound, .register x]⟩
  | .addIndex x => ⟨"ADD", [.index, .register x]⟩
  | .glyph x => ⟨"LD", [.glyph, .register x]⟩
  | .decimal x => ⟨"LD", [.decimal, .register x]⟩
  | .store x => ⟨"LD", [.indexed, .register x]⟩
  | .load x => ⟨"LD", [.register x, .indexed]⟩
  | .unknown word => ⟨"DW", [.word word]⟩

def Instruction.text (instruction : Instruction) : String := instruction.mnemonic.text

structure Line where
  address : UInt16
  word : Word
  instruction : Instruction
  deriving DecidableEq

def Line.read (address : UInt16) (word : Word) : Line := ⟨address, word, .ofWord word⟩

def Line.text (line : Line) : String :=
  "0x" ++ hex 3 line.address.toNat ++ "  " ++ hex 4 line.word.toNat ++ "  " ++ line.instruction.text

-- Data among the instructions is read as they are. A last odd byte is the high
-- half of a word whose low half is 0; addresses count on past FFFF at 0.
def listing (origin : UInt16) : List UInt8 → List Line
  | [] => []
  | [high] => [.read origin (.ofBytes high 0)]
  | high :: low :: rest => .read origin (.ofBytes high low) :: listing (origin + 2) rest

-- Where historical interpreters disagree: whether 8xy6 and 8xyE take Vy, whether Bnnn adds
-- Vx or V0, whether Fx55 and Fx65 move I on, and whether unknown words are faults.
structure Dialect where
  shiftsVy : Bool
  jumpsByVx : Bool
  advancesIndex : Bool
  strict : Bool
  deriving DecidableEq

namespace Dialect

def vip : Dialect := ⟨true, false, true, true⟩

def chip48 : Dialect := ⟨false, true, false, true⟩

-- On the instructions covered here it speaks as `chip48` does.
def superChip : Dialect := chip48

def named (name : String) : Option Dialect :=
  match name.toLower with
  | "vip" | "cosmac" | "cosmac-vip" => some vip
  | "chip48" | "chip-48" => some chip48
  | "schip" | "superchip" | "super-chip" => some superChip
  | _ => none

def permissive (d : Dialect) : Dialect := { d with strict := false }

end Dialect

end ChipEight
