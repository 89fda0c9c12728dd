import ChipEight.Proofs.Confinement
import ChipEight.Proofs.Sprites
import Mathlib.Data.List.Nodup
namespace ChipEight

def ahead (size start place : Nat) : Nat := (((place : Int) - start) % size).toNat

-- Points that Dxyn covers: a set bit of one of n bytes from I on lies on them, its column and
-- row being counted from Vx and Vy round the screen.
structure State.Covers (s : State) (w : Word) (px py : Nat) : Prop where
  column : ahead 64 (s.value w.x).toNat px < 8
  row : ahead 32 (s.value w.y).toNat py < w.n.val
  bit : Sprite.lit (s.memory.byte (s.i.toNat + ahead 32 (s.value w.y).toNat py))
    (ahead 64 (s.value w.x).toNat px) = true

def Screen.Erases {width height : Nat} (before after : Screen width height) : Prop :=
  ∃ px py, px < width ∧ py < height ∧ before.get px py = true ∧ after.get px py = false

theorem add_mod_eq_iff {size start place offset : Nat} (inside : place < size)
    (short : offset < size) : (start + offset) % size = place ↔ offset = ahead size start place := by
  constructor
  · rintro rfl
    have steps : (((start + offset) % size : Nat) - (start : Int)) % size = offset := by
      have cancelled : (start : Int) + offset - start = offset := by omega
      push_cast
      rw [Int.emod_sub_emod, cancelled]
      exact Int.emod_eq_of_lt (Int.natCast_nonneg offset) (Int.ofNat_lt.mpr short)
    rw [ahead, steps, Int.toNat_natCast]
  · rintro rfl
    have positive : (size : Int) ≠ 0 := by omega
    have sign := Int.emod_nonneg ((place : Int) - start) positive
    have cancelled : (start : Int) + (place - start) = place := by omega
    apply Int.ofNat_inj.mp
    push_cast [ahead, Int.toNat_of_nonneg sign]
    rw [Int.add_emod_emod, cancelled]
    exact Int.emod_eq_of_lt (Int.natCast_nonneg place) (Int.ofNat_lt.mpr inside)

namespace Sprite

variable {width height x y px py : Nat} {sprite : Sprite}

theorem nodup_bits : (Sprite.bits sprite).Nodup := by
  rw [Sprite.bits, List.nodup_flatMap]
  constructor
  · intro row _
    exact (List.nodup_range.filter _).map fun _ _ same => (Prod.mk.inj same).2
  · refine List.nodup_range.imp ?_
    intro row other apart bit here there
    obtain ⟨_, _, rfl⟩ := List.mem_map.mp here
    obtain ⟨_, _, same⟩ := List.mem_map.mp there
    exact apart (Prod.mk.inj same).1.symm

-- A sprite that is no larger than the screen does not lie on itself.
theorem coverage_near (wide : 8 ≤ width) (tall : sprite.length ≤ height) (column : px < width)
    (row : py < height) :
    coverage width height x y sprite.bits px py =
      if (ahead height y py, ahead width x px) ∈ sprite.bits then 1 else 0 := by
  have unique : ∀ bit ∈ sprite.bits,
      decide ((x + bit.2) % width = px ∧ (y + bit.1) % height = py) = true ↔
        (bit == (ahead height y py, ahead width x px)) = true := by
    rintro ⟨below, right⟩ member
    obtain ⟨inSprite, narrow, _⟩ := mem_bits.mp member
    rw [decide_eq_true_iff, beq_iff_eq, add_mod_eq_iff column (by omega),
      add_mod_eq_iff row (by omega), Prod.mk.injEq, and_comm]
  rw [coverage, List.countP_congr unique, ← List.count_eq_countP]
  split
  · rename_i member
    exact List.count_eq_one_of_mem nodup_bits member
  · rename_i absent
    exact List.count_eq_zero_of_not_mem absent

theorem collision_near (s : Screen width height) (wide : 8 ≤ width)
    (tall : sprite.length ≤ height) :
    (s.toggleAll (sprite.bits.map (spot x y))).collision = true ↔
      s.Erases (s.toggleAll (sprite.bits.map (spot x y))).screen := by
  rw [Screen.collision_toggleAll, Screen.Collides, Screen.Erases]
  refine exists_congr fun px => exists_congr fun py => ?_
  refine and_congr_right fun column => and_congr_right fun row => ?_
  rw [s.toggled_spots _ px py column row, hits_spots, coverage_near wide tall column row]
  split
  · cases s.get px py <;> simp
  · cases s.get px py <;> simp

end Sprite

namespace State

def sprite (s : State) (w : Word) : Sprite := s.memory.bytesFrom s.i.toNat w.n.val

def drawing (s : State) (w : Word) : Screen.Drawing displayWidth displayHeight :=
  s.screen.toggleAll
    ((s.sprite w).bits.map (Sprite.spot (s.value w.x).toNat (s.value w.y).toNat))

variable {s : State} {w : Word} {px py : Nat}

theorem length_sprite : (s.sprite w).length ≤ displayHeight := by
  rw [sprite, Memory.length_bytesFrom]
  exact Nat.le_trans (Nat.le_of_lt w.n.isLt) (by decide)

theorem covers_iff :
    s.Covers w px py ↔
      (ahead 32 (s.value w.y).toNat py, ahead 64 (s.value w.x).toNat px) ∈ (s.sprite w).bits := by
  rw [Sprite.mem_bits, sprite, Memory.length_bytesFrom]
  constructor
  · rintro ⟨column, row, bit⟩
    refine ⟨row, column, ?_⟩
    simpa [Memory.bytesFrom, row] using bit
  · rintro ⟨row, column, bit⟩
    refine ⟨column, row, ?_⟩
    simpa [Memory.bytesFrom, row] using bit

theorem switched_iff (column : px < displayWidth) (row : py < displayHeight) :
    (s.drawing w).screen.get px py ≠ s.screen.get px py ↔ s.Covers w px py := by
  rw [drawing, s.screen.toggled_spots _ px py column row,
    Sprite.coverage_near (by decide) length_sprite column row, covers_iff]
  split
  · rename_i member
    simp [member]
  · rename_i absent
    simp [absent]

theorem drawing_collision :
    (s.drawing w).collision = true ↔ s.screen.Erases (s.drawing w).screen :=
  Sprite.collision_near s.screen (by decide) length_sprite

theorem execute_draw (draws : w.family.val = 0xD) (inside : s.i.toNat + w.n.val ≤ memorySize)
    (dialect : Dialect) (dice : Dice) :
    s.execute dialect (.ofWord w) dice = .finished
      ({ s with screen := (s.drawing w).screen, drawn := true }.setFlag (s.drawing w).collision)
      dice := by
  rw [Instruction.ofWord_of_reads (.draw draws)]
  exact execute_completes (.draw inside (congrArg s.screen.toggleAll Sprite.placed_eq))

end State

-- Dxyn switches the points that its sprite covers, reports in VF whether one of them went off,
-- and takes Vx and Vy from before VF is written.
theorem draw_word_exact {s : State} {w : Word} (draws : w.family.val = 0xD)
    (inside : s.i.toNat + w.n.val ≤ 0x1000) (dialect : Dialect) (dice : Dice) :
    ∃ after, s.execute dialect (.ofWord w) dice = .finished after dice ∧
      (∀ px py, px < 64 → py < 32 →
        (after.screen.get px py ≠ s.screen.get px py ↔ s.Covers w px py)) ∧
      (s.screen.Erases after.screen ∧ after.value .flag = 1 ∨
        ¬ s.screen.Erases after.screen ∧ after.value .flag = 0) ∧
      (∀ r, r ≠ .flag → after.value r = s.value r) ∧
      after = { s with v := after.v, screen := after.screen, drawn := true } := by
  refine ⟨_, State.execute_draw draws inside dialect dice, ?_, ?_, ?_, rfl⟩
  · intro px py column row
    exact State.switched_iff column row
  · cases collision : (s.drawing w).collision with
    | true => exact .inl ⟨State.drawing_collision.mp collision, State.value_setV_self⟩
    | false =>
      refine .inr ⟨fun erases => ?_, State.value_setV_self⟩
      cases collision.symm.trans (State.drawing_collision.mpr erases)
  · intro r other
    exact State.value_setFlag other

theorem draw_word_exact_corner :
    ∃ (s after : State) (dice : Dice),
      s.execute .vip (.ofWord 0xDFF1) dice = .finished after dice ∧ s.value .flag = 63 ∧
      s.screen.get 63 31 = false ∧ after.screen.get 63 31 = true ∧
      s.screen.get 0 31 = true ∧ after.screen.get 0 31 = false ∧ after.value .flag = 1 := by
  obtain ⟨s, i, flag, byte, off, on⟩ : ∃ s : State, s.i = 0x300 ∧ s.value .flag = 63 ∧
      s.memory.byte 0x300 = 0xC0 ∧ s.screen.get 63 31 = false ∧ s.screen.get 0 31 = true := by
    refine ⟨{ State.fresh.setV .flag 63 with
      i := 0x300, memory := Memory.blank.put 0x300 0xC0, screen := Display.blank.set 0 31 true },
      rfl, State.value_setV_self, ?_, ?_, ?_⟩
    · rw [Memory.byte_put _ _ (by decide), if_pos rfl]
    · simp [Screen.get_set, Display.blank, Screen.get_blank]
    · simp [Screen.get_set]
  have inside : s.i.toNat + (0xDFF1 : Word).n.val ≤ 0x1000 := by
    rw [i]
    decide
  have covers : ∀ px ∈ [63, 0], s.Covers 0xDFF1 px 31 := by
    intro px corner
    have x : s.value (0xDFF1 : Word).x = 63 := flag
    have y : s.value (0xDFF1 : Word).y = 63 := flag
    refine ⟨?_, ?_, ?_⟩
    · rw [x]
      revert px
      decide
    · rw [y]
      decide
    · rw [x, y, i]
      change Sprite.lit (s.memory.byte 0x300) _ = true
      rw [byte]
      revert px
      decide
  obtain ⟨after, executed, switched, flagged, _⟩ :=
    draw_word_exact (s := s) (w := 0xDFF1) (by decide) inside .vip (.ofList [])
  have lit : after.screen.get 63 31 = true := by
    have apart := (switched 63 31 (by decide) (by decide)).mpr (covers 63 (by decide))
    rwa [off, ne_eq, Bool.not_eq_false] at apart
  have dark : after.screen.get 0 31 = false := by
    have apart := (switched 0 31 (by decide) (by decide)).mpr (covers 0 (by decide))
    rwa [on, ne_eq, Bool.not_eq_true] at apart
  have erases : s.screen.Erases after.screen := ⟨0, 31, by decide, by decide, on, dark⟩
  have reported : after.value .flag = 1 := by
    rcases flagged with ⟨_, reported⟩ | ⟨none, _⟩
    · exact reported
    · exact absurd erases none
  exact ⟨s, after, .ofList [], executed, flag, off, lit, on, dark, reported⟩

end ChipEight
