import ChipEight.Execute
import Mathlib.Data.List.TakeWhile
namespace ChipEight

namespace Memory

variable {m : Memory} {address length : Nat}

theorem reach_inside (inside : address + length ≤ memorySize) :
    reach address length = .ok ⟨inside⟩ := by
  have counted : ¬ countLimit ≤ address + length := by
    simp only [countLimit, memorySize] at *
    omega
  simp [reach, counted, inside]

theorem reach_outside (counted : address + length < countLimit)
    (outside : memorySize < address + length) :
    reach address length = .error (.fault (.outsideMemory (max address memorySize))) := by
  simp [reach, Nat.not_le.mpr counted, Nat.not_le.mpr outside]

def bytesFrom (m : Memory) (address length : Nat) : List UInt8 :=
  (List.range' address length).map m.byte

theorem length_bytesFrom : (m.bytesFrom address length).length = length := by
  simp [bytesFrom]

theorem byte_inside (inside : address < memorySize) : m.bytes[address] = m.byte address := by
  simp [byte, inside]

theorem set_inside {value : UInt8} (inside : address < memorySize) :
    ⟨m.bytes.set address value⟩ = m.put address value := by
  simp [put, Vector.setIfInBounds, Vector.set, Array.setIfInBounds, inside]

theorem overwrite_eq {values : List UInt8} (inside : address + values.length ≤ memorySize) :
    m.overwrite address values inside = m.putAll address values := by
  induction values generalizing m address with
  | nil => rfl
  | cons value rest ih => rw [overwrite, ih, set_inside, putAll]

theorem slice_inside (inside : address + length ≤ memorySize) :
    m.slice address length = .ok (m.bytesFrom address length) := by
  have bytes : List.ofFn (fun place : Fin length => m.byte (address + place.val)) =
      m.bytesFrom address length := by
    apply List.ext_getElem
    · simp [bytesFrom]
    · simp [bytesFrom]
  rw [slice, reach_inside inside, ← bytes]
  simp only [Except.map, byte_inside]

theorem slice_outside (counted : address + length < countLimit)
    (outside : memorySize < address + length) :
    m.slice address length = .error (.fault (.outsideMemory (max address memorySize))) := by
  simp [slice, reach_outside counted outside, Except.map]

theorem store_inside {values : List UInt8} (inside : address + values.length ≤ memorySize) :
    m.store address values = (m.putAll address values, .ok ()) := by
  simp [store, reach_inside inside, overwrite_eq]

theorem store_outside {values : List UInt8} (counted : address + values.length < countLimit)
    (outside : memorySize < address + values.length) :
    m.store address values =
      (m, .error (.fault (.outsideMemory (max address memorySize)))) := by
  simp [store, reach_outside counted outside]

theorem byte_put_other {value : UInt8} {a : Nat} (other : address ≠ a) :
    (m.put address value).byte a = m.byte a := by
  simp [byte, put, other]

theorem byte_putAll_outside {first : Nat} {values : List UInt8}
    (outside : address < first ∨ first + values.length ≤ address) :
    (m.putAll first values).byte address = m.byte address := by
  induction values generalizing m first with
  | nil => rfl
  | cons value rest ih =>
    simp only [List.length_cons] at outside
    rw [putAll, ih (by omega), byte_put_other (by omega)]

theorem byte_putAll_first {value : UInt8} {rest : List UInt8} (inside : address < memorySize) :
    (m.putAll address (value :: rest)).byte address = value := by
  rw [putAll, byte_putAll_outside (.inl (Nat.lt_succ_self address)), byte_put _ _ inside,
    if_pos rfl]

theorem byte_putAll {first : Nat} {values : List UInt8}
    (inside : first + values.length ≤ memorySize) (place : Nat) :
    (m.putAll first values).byte (first + place) = values.getD place (m.byte (first + place)) := by
  induction values generalizing m first place with
  | nil => rfl
  | cons value rest ih =>
    simp only [List.length_cons] at inside
    cases place with
    | zero => exact byte_putAll_first (by omega)
    | succ place =>
      have next : first + (place + 1) = first + 1 + place := by omega
      rw [putAll, next, ih (by omega), byte_put_other (by omega)]
      rfl

theorem byte_withFont (behind : fontStart.toNat + font.length ≤ address) :
    withFont.byte address = 0 := by
  have start : ¬ address < fontStart.toNat := by omega
  have glyphs : font.length ≤ address - fontStart.toNat := by omega
  rcases Nat.lt_or_ge address memorySize with inside | outside
  · simp [byte, withFont, inside, start, List.getElem?_eq_none glyphs]
  · simp [byte, Nat.not_lt.mpr outside]

theorem word_inside (inside : address + 2 ≤ memorySize) :
    m.word address = .ok (.ofBytes (m.byte address) (m.byte (address + 1))) := by
  simp [word, reach_inside inside, Except.map, byte_inside]

theorem word_outside (counted : address + 2 < countLimit) (outside : memorySize < address + 2) :
    m.word address = .error (.fault (.outsideMemory (max address memorySize))) := by
  simp [word, reach_outside counted outside, Except.map]

end Memory

namespace CallStack

variable {s t : CallStack} {address : UInt16}

theorem length_oldestFirst (s : CallStack) : s.oldestFirst.length = s.depth := by
  have bounded := s.bounded
  simp [oldestFirst, depth, bounded]

theorem push_full (full : s.depth = stackDepth) : s.push address = (s, .error .stackOverflow) := by
  have noRoom : ¬ s.used < stackDepth := Nat.not_lt.mpr (Nat.le_of_eq full.symm)
  simp [push, noRoom]

theorem push_room (room : s.depth < stackDepth) (address : UInt16) :
    ∃ pushed, s.push address = (pushed, .ok ()) := by
  have room : s.used < stackDepth := room
  exact ⟨_, by simp only [push, room, dite_true]; rfl⟩

-- What lies above the used slots is no part of the view, so it need not be known.
theorem push_ok (pushed : s.push address = (t, .ok ())) :
    t.oldestFirst = s.oldestFirst ++ [address] := by
  unfold push at pushed
  split at pushed
  · rename_i room
    cases pushed
    have slot : s.used < s.slots.toList.length := by simpa using room
    calc ((s.slots.set s.used address).toList).take (s.used + 1)
        = (s.slots.toList.set s.used address).take s.used ++ [address] := by
          rw [Vector.toList_set, List.take_add_one, List.getElem?_set_self slot]
          rfl
      _ = s.slots.toList.take s.used ++ [address] := by
          rw [List.take_set_of_le (Nat.le_refl _)]
  · cases pushed

theorem pop_idle (idle : s.depth = 0) : s.pop = (s, .error .stackUnderflow) := by
  have noStored : ¬ 0 < s.used := Nat.not_lt.mpr (Nat.le_of_eq idle)
  simp [pop, noStored]

theorem pop_stored (stored : 0 < s.depth) : ∃ popped address, s.pop = (popped, .ok address) := by
  have stored : 0 < s.used := stored
  exact ⟨_, _, by simp only [pop, stored, dite_true]; rfl⟩

theorem pop_ok (popped : s.pop = (t, .ok address)) :
    s.oldestFirst = t.oldestFirst ++ [address] := by
  unfold pop at popped
  split at popped
  · rename_i stored
    cases popped
    have top : s.used - 1 < s.slots.toList.length := by
      have bounded := s.bounded
      simp
      omega
    calc s.slots.toList.take s.used
        = s.slots.toList.take (s.used - 1 + 1) := by rw [Nat.sub_add_cancel stored]
      _ = s.slots.toList.take (s.used - 1) ++ [s.slots.toList[s.used - 1]] :=
          (List.take_append_getElem top).symm
  · cases popped

end CallStack

namespace State

variable {s : State} {sum : Nat} {wait : KeyWait} {key : Key}

theorem jumpTo_room (room : sum < 0x10000) :
    s.jumpTo sum = .ok { s with pc := UInt16.ofNat sum } := by
  simp [jumpTo, room]

theorem pointTo_room (room : sum < 0x10000) :
    s.pointTo sum = .ok { s with i := UInt16.ofNat sum } := by
  simp [pointTo, room]

theorem forward_room (room : s.pc.toNat + 2 < 0x10000) :
    s.forward = .ok { s with pc := s.pc + 2 } := by
  rw [forward, jumpTo_room room]
  simp

theorem forward_end (last : 0xFFFE ≤ s.pc.toNat) : s.forward = .error .addOverflow := by
  have noRoom : ¬ s.pc.toNat + 2 < 0x10000 := by omega
  simp [forward, jumpTo, noRoom]

theorem back_room (room : 2 ≤ s.pc.toNat) : s.back = .ok { s with pc := s.pc - 2 } := by
  simp [back, room]

theorem back_start (first : s.pc.toNat < 2) : s.back = .error .subOverflow := by
  simp [back, Nat.not_le.mpr first]

theorem look_quiet (waiting : s.wait = some wait) (quiet : s.keypad.fresh wait.seen = none) :
    s.look = .ok ({ s with wait := some { wait with seen := s.keypad } }, true) := by
  simp [look, waiting, quiet]

theorem look_fresh (waiting : s.wait = some wait) (fresh : s.keypad.fresh wait.seen = some key)
    (named : wait.register.toNat < 16) (room : s.pc.toNat + 2 < 0x10000) :
    s.look = .ok ({ s.setV ⟨wait.register.toNat, named⟩ (UInt8.ofNat key.val)
      with pc := s.pc + 2, wait := none }, false) := by
  simp [look, waiting, fresh, named, setV, forward, jumpTo, room, Except.map]

theorem look_unnamed (waiting : s.wait = some wait) (fresh : s.keypad.fresh wait.seen = some key)
    (unnamed : 16 ≤ wait.register.toNat) :
    s.look = .error (.indexOutside 16 wait.register.toNat) := by
  simp [look, waiting, fresh, Nat.not_lt.mpr unnamed]

theorem look_end (waiting : s.wait = some wait) (fresh : s.keypad.fresh wait.seen = some key)
    (named : wait.register.toNat < 16) (last : 0xFFFE ≤ s.pc.toNat) :
    s.look = .error .addOverflow := by
  have noRoom : ¬ s.pc.toNat + 2 < 0x10000 := by omega
  simp [look, waiting, fresh, named, setV, forward, jumpTo, noRoom, Except.map]

theorem awaited_of_wait (waiting : s.wait = some wait) :
    s.awaited = (s.keypad.fresh wait.seen).map (wait, ·) := by
  simp [awaited, waiting]

end State

namespace Sprite

variable {sprite : Sprite} {first column row x y : Nat}

theorem litFrom_bounds (lit : (column, row) ∈ litFrom first sprite) :
    column < 8 ∧ first ≤ row ∧ row < first + sprite.length := by
  induction sprite generalizing first with
  | nil => cases lit
  | cons byte rest ih =>
    rcases List.mem_append.mp lit with here | below
    · obtain ⟨point, member, same⟩ := List.mem_map.mp here
      cases same
      have narrow : column < 8 := List.mem_range.mp (List.mem_filter.mp member).1
      simp only [List.length_cons]
      omega
    · have bounds := ih below
      simp only [List.length_cons]
      omega

theorem placed_countable (wide : x + 8 ≤ countLimit) (tall : y + sprite.length ≤ countLimit) :
    (sprite.placed x y).all countable = true := by
  simp only [placed, List.all_map, List.all_eq_true]
  intro (column, row) lit
  have bounds := litFrom_bounds lit
  simp [countable]
  omega

end Sprite

namespace Screen

variable {width height y : Nat}

theorem length_row (s : Screen width height) (inside : y < height) :
    (s.row y).length = width := by
  have whole : y * width + width ≤ width * height := by
    calc y * width + width = (y + 1) * width := (Nat.succ_mul y width).symm
      _ ≤ height * width := Nat.mul_le_mul_right _ inside
      _ = width * height := Nat.mul_comm _ _
  simp only [row, Array.length_toList, Array.size_extract, Vector.size_toArray,
    Nat.min_eq_left whole, Nat.add_sub_cancel_left]

theorem length_rows (s : Screen width height) : s.rows.length = height := by
  simp [rows]

theorem length_of_mem_rows (s : Screen width height) {row : List Bool} (present : row ∈ s.rows) :
    row.length = width := by
  obtain ⟨y, inside, rfl⟩ := List.mem_map.mp present
  exact s.length_row (List.mem_range.mp inside)

end Screen

theorem Screen.draw_near {width height : Nat} (s : Screen width height) {sprite : Sprite}
    {x y : Nat} (wide : x + 8 ≤ countLimit) (tall : y + sprite.length ≤ countLimit) :
    s.draw x y sprite = (s.toggleAll (sprite.placed x y), .ok ()) := by
  have all := Sprite.placed_countable wide tall
  have whole : (sprite.placed x y).takeWhile Sprite.countable = sprite.placed x y :=
    List.takeWhile_eq_self_iff.mpr (by simpa using all)
  simp only [draw, all, whole, if_true]

theorem Screen.draw_bytes {width height : Nat} (s : Screen width height) {sprite : Sprite}
    (x y : UInt8) (short : sprite.length ≤ 16) :
    s.draw x.toNat y.toNat sprite = (s.toggleAll (sprite.placed x.toNat y.toNat), .ok ()) := by
  have xBound := x.toNat_lt
  have yBound := y.toNat_lt
  apply s.draw_near
  · simp only [countLimit]
    omega
  · simp only [countLimit]
    omega

end ChipEight
