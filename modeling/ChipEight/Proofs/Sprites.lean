import ChipEight.Proofs.Toggles
import Mathlib.Data.Nat.Bitwise
namespace ChipEight

namespace Sprite

def lit (row : UInt8) (column : Nat) : Bool := row &&& (0x80 >>> UInt8.ofNat column) != 0

def bits (sprite : Sprite) : List (Nat × Nat) :=
  (List.range sprite.length).flatMap fun row =>
    ((List.range 8).filter (lit (sprite.getD row 0))).map (row, ·)

def spot (x y : Nat) (bit : Nat × Nat) : Nat × Nat := (x + bit.2, y + bit.1)

def Counted (x y : Nat) (bit : Nat × Nat) : Prop :=
  x + bit.2 < countLimit ∧ y + bit.1 < countLimit

instance (x y : Nat) (bit : Nat × Nat) : Decidable (Counted x y bit) :=
  inferInstanceAs (Decidable (_ ∧ _))

def coverage (width height x y : Nat) (bits : List (Nat × Nat)) (px py : Nat) : Nat :=
  bits.countP fun bit => (x + bit.2) % width = px ∧ (y + bit.1) % height = py

variable {width height x y px py row column first : Nat} {byte : UInt8} {rest sprite : Sprite}
  {bit : Nat × Nat} {bits before behind : List (Nat × Nat)}

theorem lit_eq_testBit (narrow : column < 8) : lit byte column = byte.toNat.testBit (7 - column) := by
  have mask : ∀ column < 8, ((0x80 : UInt8) >>> UInt8.ofNat column).toNat = 2 ^ (7 - column) := by
    decide
  have zero : (0 : UInt8).toNat = 0 := rfl
  rw [lit, Bool.eq_iff_iff, bne_iff_ne, ne_eq, ← UInt8.toNat_inj, UInt8.toNat_and,
    mask column narrow, zero, Nat.and_two_pow]
  cases byte.toNat.testBit (7 - column) <;> simp

theorem litColumns_eq : litColumns byte = (List.range 8).filter (lit byte) := by
  apply List.filter_congr
  intro column inside
  exact (lit_eq_testBit (List.mem_range.mp inside)).symm

theorem bits_cons :
    Sprite.bits (byte :: rest) =
      ((List.range 8).filter (lit byte)).map (0, ·) ++
        (Sprite.bits rest).map fun bit => (bit.1 + 1, bit.2) := by
  simp [Sprite.bits, List.range_succ_eq_map, List.flatMap_map, List.map_flatMap, Function.comp_def]

theorem litFrom_eq :
    litFrom first sprite = sprite.bits.map fun bit => (bit.2, first + bit.1) := by
  induction sprite generalizing first with
  | nil => rfl
  | cons byte rest ih =>
    rw [litFrom, litColumns_eq, ih, bits_cons]
    simp [Function.comp_def, Nat.add_assoc, Nat.add_comm 1]

theorem placed_eq : sprite.placed x y = sprite.bits.map (spot x y) := by
  simp [placed, litFrom_eq, spot, Function.comp_def]

theorem mem_bits :
    (row, column) ∈ sprite.bits ↔
      row < sprite.length ∧ column < 8 ∧ lit (sprite.getD row 0) column = true := by
  simp [Sprite.bits]

theorem countable_spot_iff : countable (spot x y bit) = true ↔ Counted x y bit := by
  simp only [countable, Bool.and_eq_true, decide_eq_true_eq]
  exact Iff.rfl

theorem hits_spots :
    Screen.hits width height (bits.map (spot x y)) px py = coverage width height x y bits px py := by
  rw [Screen.hits, List.countP_map]
  rfl

theorem counted_or_first (x y : Nat) (bits : List (Nat × Nat)) :
    (∀ bit ∈ bits, Counted x y bit) ∨
      ∃ before bit behind, bits = before ++ bit :: behind ∧
        (∀ earlier ∈ before, Counted x y earlier) ∧ ¬ Counted x y bit := by
  cases found : bits.find? fun bit => !countable (spot x y bit) with
  | none =>
    left
    intro bit present
    have counts := List.find?_eq_none.mp found bit present
    rw [← countable_spot_iff]
    simpa using counts
  | some bit =>
    right
    obtain ⟨fails, before, behind, split, earlier⟩ := List.find?_eq_some_iff_append.mp found
    refine ⟨before, bit, behind, split, ?_, ?_⟩
    · intro other present
      rw [← countable_spot_iff]
      simpa using earlier other present
    · rw [← countable_spot_iff]
      simpa using fails

end Sprite

namespace Screen

open Sprite

variable {width height x y : Nat} {sprite : Sprite} {bit : Nat × Nat}
  {before behind : List (Nat × Nat)}

def Toggled (s : Screen width height) (x y : Nat) (bits : List (Nat × Nat))
    (after : Screen width height) : Prop :=
  ∀ px py, px < width → py < height →
    after.get px py = (s.get px py ^^ (coverage width height x y bits px py).bodd)

theorem toggled_spots (s : Screen width height) (bits : List (Nat × Nat)) :
    s.Toggled x y bits (s.toggleAll (bits.map (spot x y))).screen := by
  intro px py column row
  rw [get_toggleAll column row, hits_spots]

theorem draw_counted (s : Screen width height) (counted : ∀ bit ∈ sprite.bits, Counted x y bit) :
    s.draw x y sprite = (s.toggleAll (sprite.bits.map (spot x y)), .ok ()) := by
  have all : ∀ point ∈ sprite.placed x y, countable point = true := by
    intro point present
    rw [placed_eq] at present
    obtain ⟨bit, member, rfl⟩ := List.mem_map.mp present
    exact countable_spot_iff.mpr (counted bit member)
  rw [draw, List.takeWhile_eq_self_iff.mpr all, if_pos (List.all_eq_true.mpr all), placed_eq]

theorem draw_overflow (s : Screen width height) (split : sprite.bits = before ++ bit :: behind)
    (counted : ∀ earlier ∈ before, Counted x y earlier) (overflows : ¬ Counted x y bit) :
    s.draw x y sprite = (s.toggleAll (before.map (spot x y)), .error .addOverflow) := by
  have fails : ¬ countable (spot x y bit) = true := fun counts =>
    overflows (countable_spot_iff.mp counts)
  have whole : ∀ point ∈ before.map (spot x y), countable point = true := by
    intro point present
    obtain ⟨earlier, member, rfl⟩ := List.mem_map.mp present
    exact countable_spot_iff.mpr (counted earlier member)
  have placed : sprite.placed x y =
      before.map (spot x y) ++ spot x y bit :: behind.map (spot x y) := by
    rw [placed_eq, split, List.map_append, List.map_cons]
  have drawn : (sprite.placed x y).takeWhile countable = before.map (spot x y) := by
    rw [placed, List.takeWhile_append_of_pos whole, List.takeWhile_cons_of_neg fails,
      List.append_nil]
  have stopped : ¬ (sprite.placed x y).all countable = true := by
    intro all
    apply fails
    exact List.all_eq_true.mp all _ (by simp [placed])
  rw [draw, drawn, if_neg stopped]

-- Drawing switches a point for every set bit that covers it, and tells whether one of them
-- found it on. It is only cut short by a bit whose place cannot be counted.
theorem sprite_toggles (s : Screen width height) (x y : Nat) (sprite : Sprite) :
    ((∀ bit ∈ sprite.bits, Counted x y bit) ∧
      ∃ drawing, s.draw x y sprite = (drawing, .ok ()) ∧
        s.Toggled x y sprite.bits drawing.screen ∧
        (drawing.collision = true ↔ ∃ px py, px < width ∧ py < height ∧
          (1 ≤ coverage width height x y sprite.bits px py ∧ s.get px py = true ∨
            2 ≤ coverage width height x y sprite.bits px py))) ∨
    ∃ before bit behind drawing, sprite.bits = before ++ bit :: behind ∧
      (∀ earlier ∈ before, Counted x y earlier) ∧ ¬ Counted x y bit ∧
      s.draw x y sprite = (drawing, .error .addOverflow) ∧
      s.Toggled x y before drawing.screen := by
  rcases counted_or_first x y sprite.bits with counted | ⟨before, bit, behind, split, counted, last⟩
  · refine .inl ⟨counted, _, draw_counted s counted, toggled_spots s _, ?_⟩
    rw [collision_toggleAll, Collides]
    simp only [hits_spots]
  · exact .inr ⟨before, bit, behind, _, split, counted, last, draw_overflow s split counted last,
      toggled_spots s _⟩

example : ((blank 1 1 (by decide) (by decide)).draw 0 0 [0xC0]).1.collision = true := by decide

end Screen
end ChipEight
