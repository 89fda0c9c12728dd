import ChipEight.Instruction
namespace ChipEight

abbrev memorySize : Nat := 4096

def programStart : UInt16 := 0x200

def programRoom : Nat := memorySize - programStart.toNat

def fontStart : UInt16 := 0x050

def glyphSize : UInt16 := 5

def font : List UInt8 := [
  0xF0, 0x90, 0x90, 0x90, 0xF0,
  0x20, 0x60, 0x20, 0x20, 0x70,
  0xF0, 0x10, 0xF0, 0x80, 0xF0,
  0xF0, 0x10, 0xF0, 0x10, 0xF0,
  0x90, 0x90, 0xF0, 0x10, 0x10,
  0xF0, 0x80, 0xF0, 0x10, 0xF0,
  0xF0, 0x80, 0xF0, 0x90, 0xF0,
  0xF0, 0x10, 0x20, 0x40, 0x40,
  0xF0, 0x90, 0xF0, 0x90, 0xF0,
  0xF0, 0x90, 0xF0, 0x10, 0xF0,
  0xF0, 0x90, 0xF0, 0x90, 0x90,
  0xE0, 0x90, 0xE0, 0x90, 0xE0,
  0xF0, 0x80, 0x80, 0x80, 0xF0,
  0xE0, 0x90, 0x90, 0x90, 0xE0,
  0xF0, 0x80, 0xF0, 0x80, 0xF0,
  0xF0, 0x80, 0xF0, 0x80, 0x80]

structure Memory where
  bytes : Vector UInt8 memorySize
  deriving DecidableEq

namespace Memory

variable {address a : Nat}

def blank : Memory := ⟨Vector.replicate memorySize 0⟩

def withFont : Memory :=
  ⟨Vector.ofFn fun a =>
    if a.val < fontStart.toNat then 0 else font.getD (a.val - fontStart.toNat) 0⟩

-- Content and change in terms of all addresses, of which those outside hold 0 and keep it. The
-- operations below index with the bound that they have checked.
def byte (m : Memory) (address : Nat) : UInt8 := m.bytes[address]?.getD 0

def put (m : Memory) (address : Nat) (value : UInt8) : Memory :=
  ⟨m.bytes.setIfInBounds address value⟩

theorem byte_put (m : Memory) (value : UInt8) (inside : address < memorySize) :
    (m.put address value).byte a = if address = a then value else m.byte a := by
  by_cases equal : address = a
  · subst a
    simp [byte, put, inside]
  · simp [byte, put, equal]

theorem byte_put_outside (m : Memory) (value : UInt8) (outside : memorySize ≤ address) :
    (m.put address value).byte a = m.byte a := by
  by_cases equal : address = a
  · subst a
    simp [byte, put, Nat.not_lt.mpr outside]
  · simp [byte, put, equal]

def putAll (m : Memory) (address : Nat) : List UInt8 → Memory
  | [] => m
  | value :: rest => (m.put address value).putAll (address + 1) rest

def read (m : Memory) (address : Nat) : Except Fault UInt8 :=
  if inside : address < memorySize then .ok m.bytes[address]
  else .error (.outsideMemory address)

def write (m : Memory) (address : Nat) (value : UInt8) : Memory × Except Fault Unit :=
  if inside : address < memorySize then (⟨m.bytes.set address value⟩, .ok ())
  else (m, .error (.outsideMemory address))

structure Range (address length : Nat) : Type where
  inside : address + length ≤ memorySize

-- Ranges are checked as a whole before a byte of them is touched. The end is an
-- exclusive bound, so an empty range may stand at the end of memory, not behind it.
def reach (address length : Nat) : Except Stop (Range address length) :=
  if countLimit ≤ address + length then .error (.trap .addOverflow)
  else if inside : address + length ≤ memorySize then .ok ⟨inside⟩
  else .error (.fault (.outsideMemory (max address memorySize)))

def slice (m : Memory) (address length : Nat) : Except Stop (List UInt8) :=
  (reach address length).map fun ⟨inside⟩ => List.ofFn fun place : Fin length =>
    have bound : address + place.val < memorySize :=
      Nat.lt_of_lt_of_le (Nat.add_lt_add_left place.isLt address) inside
    m.bytes[address + place.val]

def word (m : Memory) (address : Nat) : Except Stop Word :=
  (reach address 2).map fun ⟨inside⟩ =>
    have high : address < memorySize := Nat.lt_of_succ_lt inside
    have low : address + 1 < memorySize := inside
    .ofBytes m.bytes[address] m.bytes[address + 1]

def overwrite (m : Memory) (address : Nat) :
    (values : List UInt8) → address + values.length ≤ memorySize → Memory
  | [], _ => m
  | value :: rest, inside =>
    have behind : address + 1 + rest.length ≤ memorySize := by
      rw [Nat.add_right_comm]
      exact inside
    have here : address < memorySize :=
      Nat.lt_of_lt_of_le (Nat.lt_add_of_pos_right (Nat.succ_pos rest.length)) inside
    overwrite ⟨m.bytes.set address value⟩ (address + 1) rest behind

def store (m : Memory) (address : Nat) (values : List UInt8) : Memory × Except Stop Unit :=
  match reach address values.length with
  | .ok ⟨inside⟩ => (m.overwrite address values inside, .ok ())
  | .error stop => (m, .error stop)

def fill (m : Memory) (address length : Nat) (value : UInt8) : Memory × Except Stop Unit :=
  match reach address length with
  | .ok ⟨inside⟩ =>
    have filled : address + (List.replicate length value).length ≤ memorySize := by
      rw [List.length_replicate]
      exact inside
    (m.overwrite address (List.replicate length value) filled, .ok ())
  | .error stop => (m, .error stop)

def poke (m : Memory) (address : Nat) (value : UInt8) : Except Trap Memory :=
  if inside : address < memorySize then .ok ⟨m.bytes.set address value⟩
  else .error (.indexOutside memorySize address)

end Memory
end ChipEight
