import ChipEight.Machine
namespace ChipEight

inductive Event where
  | load (program : List UInt8) (entropy : Dice)
  | step
  | tick
  | press (key : UInt8)
  | release (key : UInt8)
  | setKeys (keypad : Keypad)
  | takeFrame

namespace Machine

def useKeypad (m : Machine) : Keypad × Except Fault Unit → Turn
  | (keypad, .ok ()) => ⟨m.setKeypad keypad, .done, []⟩
  | (keypad, .error fault) => ⟨m.setKeypad keypad, .refused fault, []⟩

def handle (m : Machine) : Event → Except Trap Turn
  | .load program entropy => m.load program entropy
  | .step => m.step
  | .tick => .ok ⟨m.tick, .done, []⟩
  | .press key => .ok (m.useKeypad (m.state.keypad.press key))
  | .release key => .ok (m.useKeypad (m.state.keypad.release key))
  | .setKeys keypad => .ok ⟨m.setKeypad keypad, .done, []⟩
  | .takeFrame => .ok ⟨m.takeFrame.1, .frame m.takeFrame.2, []⟩

-- Events one after the other, with the replies in order. A refusal does not end a run, a trap does.
def run (m : Machine) : List Event → Except Trap (Machine × List Reply)
  | [] => .ok (m, [])
  | event :: rest =>
    match m.handle event with
    | .error trap => .error trap
    | .ok turn => (turn.machine.run rest).map fun (last, replies) => (last, turn.reply :: replies)

end Machine
end ChipEight
