import ChipEight.Proofs.Transfers
namespace ChipEight

def State.inTurn (d : Dialect) (s : State) (dice : Dice) : List (Vector UInt8 16 × Word) → Effect
  | [] => .finished s dice
  | (v, w) :: rest =>
    match { s with v }.execute d (.ofWord w) dice with
    | .finished after dice => after.inTurn d dice rest
    | stopped => stopped

-- Registers V0 up to Vx, with what V holds when they are saved and what is found there when they
-- are restored.
structure Block where
  x : Register
  saved : Vector UInt8 16
  found : Vector UInt8 16

namespace Block

def bytes (block : Block) : List UInt8 := block.saved.toList.take (block.x.val + 1)

def saving (block : Block) : Vector UInt8 16 × Word := (block.saved, .saving block.x)

def restoring (block : Block) : Vector UInt8 16 × Word := (block.found, .restoring block.x)

def total : List Block → Nat
  | [] => 0
  | block :: rest => (block.x.val + 1) + total rest

variable {s : State} {d : Dialect} {dice : Dice} {block : Block} {blocks earlier later : List Block}
  {count : Nat}

theorem length_bytes : block.bytes.length = block.x.val + 1 := State.length_take_registers

theorem length_flatMap_bytes : (blocks.flatMap bytes).length = total blocks := by
  induction blocks with
  | nil => rfl
  | cons block rest ih => rw [List.flatMap_cons, List.length_append, length_bytes, ih, total]

theorem toNat_advanced (advances : d.advancesIndex = true)
    (inside : s.i.toNat + count ≤ memorySize) :
    (s.advanceIndex d count).i.toNat = s.i.toNat + count := by
  have moved : s.advanceIndex d count = { s with i := s.i + UInt16.ofNat count } := by
    rw [State.advanceIndex, if_pos advances]
  rw [moved, UInt16.toNat_add, UInt16.toNat_ofNat']
  simp only [memorySize] at inside
  omega

theorem saves_in_turn (dice : Dice) (advances : d.advancesIndex = true)
    (room : s.i.toNat + total blocks ≤ memorySize) :
    ∃ after, s.inTurn d dice (blocks.map saving) = .finished after dice ∧
      after.memory = s.memory.putAll s.i.toNat (blocks.flatMap bytes) ∧
      after.i.toNat = s.i.toNat + total blocks := by
  induction blocks generalizing s with
  | nil => exact ⟨s, rfl, rfl, rfl⟩
  | cons block rest ih =>
    rw [total] at room
    have inside : s.i.toNat + (block.x.val + 1) ≤ memorySize := by omega
    obtain ⟨first, executed, _, memory, index⟩ :=
      State.saves { s with v := block.saved } d dice inside
    have moved : first.i.toNat = s.i.toNat + (block.x.val + 1) := by
      rw [index]
      exact toNat_advanced advances inside
    obtain ⟨after, done, written, last⟩ := ih (s := first) (by omega)
    refine ⟨after, ?_, ?_, ?_⟩
    · rw [List.map_cons, saving, State.inTurn, executed]
      exact done
    · rw [written, memory, moved, List.flatMap_cons, Memory.putAll_append, length_bytes]
      rfl
    · rw [last, moved, total]
      omega

theorem held_cons {m : Memory} {address : Nat}
    (held : m.bytesFrom address (total (block :: blocks)) = (block :: blocks).flatMap bytes) :
    m.bytesFrom address (block.x.val + 1) = block.bytes ∧
      m.bytesFrom (address + (block.x.val + 1)) (total blocks) = blocks.flatMap bytes := by
  rw [total, Memory.bytesFrom_append, List.flatMap_cons] at held
  exact List.append_inj held (by rw [Memory.length_bytesFrom, length_bytes])

theorem restores_in_turn (advances : d.advancesIndex = true)
    (room : s.i.toNat + total (earlier ++ block :: later) ≤ memorySize)
    (held : s.memory.bytesFrom s.i.toNat (total (earlier ++ block :: later)) =
      (earlier ++ block :: later).flatMap bytes) :
    ∃ after, s.inTurn d dice ((earlier ++ [block]).map restoring) = .finished after dice ∧
      after.memory = s.memory ∧ after.firstRegisters block.x = block.bytes := by
  induction earlier generalizing s with
  | nil =>
    rw [List.nil_append] at room held
    rw [total] at room
    obtain ⟨here, _⟩ := held_cons held
    obtain ⟨after, executed, moved, kept, _⟩ :=
      State.restores (x := block.x) { s with v := block.found } d dice (by simp only; omega)
    refine ⟨after, ?_, kept, ?_⟩
    · rw [List.nil_append, List.map_cons, restoring, State.inTurn, executed]
      rfl
    · rw [State.firstRegisters, moved, State.take_setRegisters Memory.length_bytesFrom]
      exact here
  | cons first rest ih =>
    rw [List.cons_append] at room held
    rw [total] at room
    obtain ⟨_, behind⟩ := held_cons held
    have inside : s.i.toNat + (first.x.val + 1) ≤ memorySize := by omega
    obtain ⟨next, executed, _, kept, index⟩ :=
      State.restores { s with v := first.found } d dice inside
    have moved : next.i.toNat = s.i.toNat + (first.x.val + 1) := by
      rw [index]
      exact toNat_advanced advances inside
    obtain ⟨after, done, memory, restored⟩ := ih (s := next) (by omega) (by
      rw [kept, moved]
      exact behind)
    refine ⟨after, ?_, memory.trans kept, restored⟩
    rw [List.cons_append, List.map_cons, restoring, State.inTurn, executed]
    exact done

-- Saved in turn, the blocks lie in one row from the first I on, and restored in turn from there
-- each is found again. Nothing else in memory has changed.
theorem return_in_turn (s : State) (dice : Dice) (advances : d.advancesIndex = true)
    (room : s.i.toNat + total blocks ≤ memorySize) :
    ∃ saved, s.inTurn d dice (blocks.map saving) = .finished saved dice ∧
      saved.memory.bytesFrom s.i.toNat (total blocks) = blocks.flatMap bytes ∧
      saved.i.toNat = s.i.toNat + total blocks ∧
      (∀ a, a < s.i.toNat ∨ s.i.toNat + total blocks ≤ a →
        saved.memory.byte a = s.memory.byte a) ∧
      ∀ earlier block later, blocks = earlier ++ block :: later →
        ∃ restored, { saved with i := s.i }.inTurn d dice ((earlier ++ [block]).map restoring) =
            .finished restored dice ∧
          restored.memory = saved.memory ∧ restored.firstRegisters block.x = block.bytes := by
  obtain ⟨saved, done, written, last⟩ := saves_in_turn dice advances room
  have length : (blocks.flatMap bytes).length = total blocks := length_flatMap_bytes
  have row : saved.memory.bytesFrom s.i.toNat (total blocks) = blocks.flatMap bytes := by
    rw [written]
    exact Memory.bytesFrom_putAll length room
  refine ⟨saved, done, row, last, ?_, ?_⟩
  · intro a outside
    rw [written]
    apply Memory.byte_putAll_outside
    rwa [length]
  · intro earlier block later cut
    rw [cut] at room row
    exact restores_in_turn (s := { saved with i := s.i }) advances room row

end Block

-- Fx55 and Fx65 undo each other where I is set back in between, and the digits of Fx33 make up
-- the value again. Where I moves on, any blocks that fit can be saved one behind the other.
theorem registers_return (s : State) (d : Dialect) (dice : Dice) :
    (∀ x : Register, s.i.toNat + x.val + 1 ≤ memorySize →
      (∃ saved restored, s.execute d (.ofWord (.saving x)) dice = .finished saved dice ∧
        { saved with i := s.i }.execute d (.ofWord (.restoring x)) dice =
          .finished restored dice ∧ restored.v = s.v) ∧
      ∃ restored saved, s.execute d (.ofWord (.restoring x)) dice = .finished restored dice ∧
        { restored with i := s.i }.execute d (.ofWord (.saving x)) dice = .finished saved dice ∧
        saved.memory = s.memory) ∧
    (s.i.toNat + 3 ≤ memorySize → ∀ x : Register, ∃ written restored,
      s.execute d (.ofWord (.ofDigits 0xF x 0x33)) dice = .finished written dice ∧
      written.i = s.i ∧ written.execute d (.ofWord 0xF265) dice = .finished restored dice ∧
      (restored.value 0).toNat ≤ 9 ∧ (restored.value 1).toNat ≤ 9 ∧ (restored.value 2).toNat ≤ 9 ∧
      100 * (restored.value 0).toNat + 10 * (restored.value 1).toNat +
        (restored.value 2).toNat = (s.value x).toNat) ∧
    (d.advancesIndex = true → ∀ blocks, s.i.toNat + Block.total blocks ≤ memorySize →
      ∃ saved, s.inTurn d dice (blocks.map Block.saving) = .finished saved dice ∧
        saved.memory.bytesFrom s.i.toNat (Block.total blocks) = blocks.flatMap Block.bytes ∧
        saved.i.toNat = s.i.toNat + Block.total blocks ∧
        (∀ a, a < s.i.toNat ∨ s.i.toNat + Block.total blocks ≤ a →
          saved.memory.byte a = s.memory.byte a) ∧
        ∀ earlier block later, blocks = earlier ++ block :: later →
          ∃ restored, { saved with i := s.i }.inTurn d dice
              ((earlier ++ [block]).map Block.restoring) = .finished restored dice ∧
            restored.memory = saved.memory ∧ restored.firstRegisters block.x = block.bytes) := by
  refine ⟨?_, ?_, ?_⟩
  · intro x inside
    exact ⟨State.saved_restored inside, State.restored_saved inside⟩
  · intro inside x
    exact State.decimal_restored inside
  · intro advances blocks room
    exact Block.return_in_turn s dice advances room

theorem registers_return_full :
    ∃ (s : State) (dice : Dice) (all one : Block), s.i = 0xFEF ∧ s.value 0 = 213 ∧
      (∃ saved restored, s.execute .vip (.ofWord 0xFF55) dice = .finished saved dice ∧
        { saved with i := 0xFEF }.execute .vip (.ofWord 0xFF65) dice = .finished restored dice ∧
        restored.v = s.v) ∧
      (∃ written digits, s.execute .vip (.ofWord 0xF033) dice = .finished written dice ∧
        written.execute .vip (.ofWord 0xF265) dice = .finished digits dice ∧
        100 * (digits.value 0).toNat + 10 * (digits.value 1).toNat + (digits.value 2).toNat =
          213) ∧
      ∃ saved restored, s.inTurn .vip dice [all.saving, one.saving] = .finished saved dice ∧
        saved.i = 0x1000 ∧ saved.memory.bytesFrom 0xFEF 17 = all.bytes ++ one.bytes ∧
        { saved with i := 0xFEF }.inTurn .vip dice [all.restoring, one.restoring] =
          .finished restored dice ∧ restored.firstRegisters 0 = [7] := by
  let s : State := { State.fresh with i := 0xFEF, v := .replicate 16 213 }
  let all : Block := ⟨15, .replicate 16 9, .replicate 16 0⟩
  let one : Block := ⟨0, .replicate 16 7, .replicate 16 0⟩
  obtain ⟨rounds, decimals, rows⟩ := registers_return s .vip (.ofList [])
  obtain ⟨round, _⟩ := rounds 15 (by decide)
  obtain ⟨written, digits, split, _, joined, _, _, _, sum⟩ := decimals (by decide) 0
  obtain ⟨saved, done, row, last, _, back⟩ := rows rfl [all, one] (by decide)
  obtain ⟨restored, again, _, found⟩ := back [all] one [] rfl
  have moved : saved.i = 0x1000 := by
    apply UInt16.toNat_inj.mp
    exact last
  exact ⟨s, .ofList [], all, one, rfl, rfl, round, ⟨written, digits, split, joined, sum⟩,
    saved, restored, done, moved, row, again, found⟩

end ChipEight
