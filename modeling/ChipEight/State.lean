import ChipEight.Memory
import ChipEight.Screen
namespace ChipEight

abbrev stackDepth : Nat := 16

-- Return addresses of the calls that have not returned. A slot that is no longer
-- used keeps what was stored there last.
structure CallStack where
  slots : Vector UInt16 stackDepth
  used : Nat
  bounded : used ≤ stackDepth
  deriving DecidableEq

namespace CallStack

variable {s : CallStack} {address : UInt16}

def empty : CallStack := ⟨Vector.replicate stackDepth 0, 0, Nat.zero_le _⟩

def depth (s : CallStack) : Nat := s.used

def isFull (s : CallStack) : Bool := s.depth == stackDepth

def oldestFirst (s : CallStack) : List UInt16 := s.slots.toList.take s.used

-- Calls that change something give back what they leave behind, also where they fail.
def push (s : CallStack) (address : UInt16) : CallStack × Except Fault Unit :=
  if room : s.used < stackDepth then
    (⟨s.slots.set s.used address, s.used + 1, room⟩, .ok ())
  else (s, .error .stackOverflow)

def pop (s : CallStack) : CallStack × Except Fault UInt16 :=
  if stored : 0 < s.used then
    have top : s.used - 1 < stackDepth :=
      Nat.lt_of_lt_of_le (Nat.sub_one_lt_of_lt stored) s.bounded
    (⟨s.slots, s.used - 1, Nat.le_of_lt top⟩, .ok s.slots[s.used - 1])
  else (s, .error .stackUnderflow)

end CallStack

abbrev keyCount : Nat := 16

abbrev Key := Fin keyCount

def Key.ofByte (byte : UInt8) : Key := ⟨byte.toNat % keyCount, Nat.mod_lt _ (by decide)⟩

structure Keypad where
  held : Vector Bool keyCount
  deriving DecidableEq

namespace Keypad

variable {now before : Keypad} {key : Key}

def idle : Keypad := ⟨Vector.replicate keyCount false⟩

def change (pad : Keypad) (key : UInt8) (down : Bool) : Keypad × Except Fault Unit :=
  if onPad : key.toNat < keyCount then (⟨pad.held.set key.toNat down onPad⟩, .ok ())
  else (pad, .error (.noSuchKey key))

def press (pad : Keypad) (key : UInt8) : Keypad × Except Fault Unit := pad.change key true

def release (pad : Keypad) (key : UInt8) : Keypad × Except Fault Unit := pad.change key false

def isHeld (pad : Keypad) (key : UInt8) : Bool := pad.held[Key.ofByte key]

def fresh (now before : Keypad) : Option Key :=
  (List.finRange keyCount).find? fun key => now.held[key] && !before.held[key]

def Fresh (now before : Keypad) (key : Key) : Prop :=
  now.held[key] = true ∧ before.held[key] = false

theorem picked_iff : (now.held[key] && !before.held[key]) = true ↔ now.Fresh before key := by
  simp [Fresh]

theorem fresh_eq_none_iff : now.fresh before = none ↔ ∀ key, ¬ now.Fresh before key := by
  simp [fresh, Fresh]

theorem fresh_eq_some_iff :
    now.fresh before = some key ↔
      now.Fresh before key ∧ ∀ lower, lower < key → ¬ now.Fresh before lower := by
  unfold fresh
  rw [List.find?_eq_some_iff_getElem, picked_iff]
  simp only [List.getElem_finRange, Bool.not_eq_true', ← Bool.not_eq_true, picked_iff]
  constructor
  · rintro ⟨here, place, inside, rfl, lowest⟩
    exact ⟨here, fun lower below => lowest lower.val below⟩
  · rintro ⟨here, lowest⟩
    refine ⟨here, key.val, by simp, rfl, ?_⟩
    intro place below
    exact lowest ⟨place, Nat.lt_trans below key.isLt⟩ below

end Keypad

structure Timers where
  delay : UInt8
  sound : UInt8
  deriving DecidableEq

namespace Timers

def stopped : Timers := ⟨0, 0⟩

def countDown (t : UInt8) : UInt8 := UInt8.ofNat (t.toNat - 1)

def tick (t : Timers) : Timers := ⟨countDown t.delay, countDown t.sound⟩

def beeping (t : Timers) : Bool := 0 < t.sound

end Timers

structure KeyWait where
  register : UInt8
  seen : Keypad
  deriving DecidableEq

structure State where
  v : Vector UInt8 16
  i : UInt16
  pc : UInt16
  stack : CallStack
  timers : Timers
  memory : Memory
  screen : Display
  drawn : Bool
  keypad : Keypad
  wait : Option KeyWait
  deriving DecidableEq

namespace State

def fresh : State where
  v := Vector.replicate 16 0
  i := 0
  pc := programStart
  stack := .empty
  timers := .stopped
  memory := .withFont
  screen := .blank
  drawn := false
  keypad := .idle
  wait := none

def value (s : State) (x : Register) : UInt8 := s.v[x]

def setV (s : State) (x : Register) (value : UInt8) : State := { s with v := s.v.set x value }

def setFlag (s : State) (on : Bool) : State := s.setV .flag (if on then 1 else 0)

def jumpTo (s : State) (sum : Nat) : Except Trap State :=
  if sum < 0x10000 then .ok { s with pc := UInt16.ofNat sum } else .error .addOverflow

def pointTo (s : State) (sum : Nat) : Except Trap State :=
  if sum < 0x10000 then .ok { s with i := UInt16.ofNat sum } else .error .addOverflow

def forward (s : State) : Except Trap State := s.jumpTo (s.pc.toNat + 2)

def back (s : State) : Except Trap State :=
  if 2 ≤ s.pc.toNat then .ok { s with pc := s.pc - 2 } else .error .subOverflow

def holds (s : State) : Condition → Bool
  | .isByte x kk => s.value x == kk
  | .notByte x kk => s.value x != kk
  | .same x y => s.value x == s.value y
  | .differ x y => s.value x != s.value y
  | .pressed x => s.keypad.isHeld (s.value x)
  | .released x => !s.keypad.isHeld (s.value x)

def awaited (s : State) : Option (KeyWait × Key) :=
  s.wait.bind fun wait => (s.keypad.fresh wait.seen).map (wait, ·)

-- One look at the keypad during a wait, and whether the machine still waits. A
-- key held all along never ends a wait, since each look is remembered.
def look (s : State) : Except Trap (State × Bool) :=
  match s.wait with
  | none => .ok (s, false)
  | some wait =>
    match s.keypad.fresh wait.seen with
    | none => .ok ({ s with wait := some { wait with seen := s.keypad } }, true)
    | some key =>
      if named : wait.register.toNat < 16 then
        let stored := s.setV ⟨wait.register.toNat, named⟩ (UInt8.ofNat key.val)
        (State.forward { stored with wait := none }).map (·, false)
      else .error (.indexOutside 16 wait.register.toNat)

end State

end ChipEight
