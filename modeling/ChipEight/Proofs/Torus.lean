import ChipEight.Proofs.Sprites
import Mathlib.Data.ZMod.Basic
namespace ChipEight

namespace Screen

inductive Edit where
  | set (x y : Nat) (on : Bool)
  | clear
  | draw (x y : Nat) (sprite : Sprite)
  deriving DecidableEq

variable {width height : Nat}

def edit (s : Screen width height) : Edit → Screen width height
  | .set x y on => s.set x y on
  | .clear => s.clear
  | .draw x y sprite => (s.draw x y sprite).1.screen

def editAll (s : Screen width height) (edits : List Edit) : Screen width height :=
  edits.foldl edit s

end Screen

-- Points by their residues: nothing is laid out, and no point lies next to another.
abbrev Torus (width height : Nat) := ZMod width → ZMod height → Bool

namespace Torus

variable {width height : Nat}

def set (t : Torus width height) (x y : Nat) (on : Bool) : Torus width height := fun px py =>
  if (x : ZMod width) = px ∧ (y : ZMod height) = py then on else t px py

def switch (t : Torus width height) (x y : Nat) (bits : List (Nat × Nat)) : Torus width height :=
  fun px py => t px py ^^ (bits.countP fun bit =>
    ((x + bit.2 : Nat) : ZMod width) = px ∧ ((y + bit.1 : Nat) : ZMod height) = py).bodd

def edit (t : Torus width height) : Screen.Edit → Torus width height
  | .set x y on => t.set x y on
  | .clear => fun _ _ => false
  | .draw x y sprite => t.switch x y (sprite.bits.takeWhile (Sprite.Counted x y ·))

def editAll (t : Torus width height) (edits : List Screen.Edit) : Torus width height :=
  edits.foldl edit t

end Torus

namespace Screen

variable {width height x y : Nat} {on : Bool} {s : Screen width height}
  {t : Torus width height}

def torus (s : Screen width height) : Torus width height := fun x y => s.get x.val y.val

def Shows (s : Screen width height) (t : Torus width height) : Prop :=
  ∀ x y : Nat, s.get x y = t x y

structure Toroidal (s : Screen width height) : Prop where
  size : s.points.toList.length = width * height
  inside : ∀ x y, y % height * width + x % width < countLimit ∧
    s.points.toList[y % height * width + x % width]? = some (s.get x y)
  wraps : ∀ x y x' y', x ≡ x' [MOD width] → y ≡ y' [MOD height] → s.get x y = s.get x' y'
  apart : ∀ x y on x' y', (s.set x y on).get x' y' =
    if x ≡ x' [MOD width] ∧ y ≡ y' [MOD height] then on else s.get x' y'
  rows : s.rows.length = height ∧ ∀ y < height, ∃ row, s.rows[y]? = some row ∧
    row.length = width ∧ ∀ x < width, row[x]? = some (s.get x y)
  whole : s.rows.flatten = s.points.toList
  blank : s.isBlank = true ↔ ∀ x y, s.get x y = false

theorem shows_torus (s : Screen width height) : s.Shows s.torus := by
  intro x y
  rw [torus, ZMod.val_natCast, ZMod.val_natCast]
  exact get_wrap s (Nat.mod_mod x width).symm (Nat.mod_mod y height).symm

theorem Shows.set (shown : s.Shows t) : (s.set x y on).Shows (t.set x y on) := by
  intro px py
  simp only [Torus.set, ZMod.natCast_eq_natCast_iff', get_set, shown px py]

theorem Shows.toggleAll {bits : List (Nat × Nat)} (shown : s.Shows t) :
    (s.toggleAll (bits.map (Sprite.spot x y))).screen.Shows (t.switch x y bits) := by
  intro px py
  have column := Nat.mod_lt px s.wide
  have row := Nat.mod_lt py s.tall
  calc (s.toggleAll (bits.map (Sprite.spot x y))).screen.get px py
      = (s.toggleAll (bits.map (Sprite.spot x y))).screen.get (px % width) (py % height) :=
        get_wrap _ (Nat.mod_mod px width).symm (Nat.mod_mod py height).symm
    _ = (s.get (px % width) (py % height) ^^
          (Sprite.coverage width height x y bits (px % width) (py % height)).bodd) :=
        s.toggled_spots bits _ _ column row
    _ = t.switch x y bits px py := by
        rw [get_wrap s (Nat.mod_mod px width) (Nat.mod_mod py height), shown px py]
        simp only [Torus.switch, Sprite.coverage, ZMod.natCast_eq_natCast_iff']

theorem draw_bits (s : Screen width height) (sprite : Sprite) :
    (s.draw x y sprite).1 = s.toggleAll
      ((sprite.bits.takeWhile (Sprite.Counted x y ·)).map (Sprite.spot x y)) := by
  have alike : Sprite.countable ∘ Sprite.spot x y = fun bit => decide (Sprite.Counted x y bit) := by
    funext bit
    rw [Bool.eq_iff_iff, decide_eq_true_iff]
    exact Sprite.countable_spot_iff
  rw [draw, Sprite.placed_eq, List.takeWhile_map, alike]

theorem Shows.edit (shown : s.Shows t) (e : Edit) : (s.edit e).Shows (t.edit e) := by
  cases e with
  | set x y on => exact shown.set
  | clear => exact fun _ _ => get_clear s
  | draw x y sprite =>
    rw [Screen.edit, draw_bits]
    exact shown.toggleAll

theorem Shows.editAll (shown : s.Shows t) (edits : List Edit) :
    (s.editAll edits).Shows (t.editAll edits) := by
  induction edits generalizing s t with
  | nil => exact shown
  | cons e rest ih => exact ih (shown.edit e)

theorem getElem?_points (s : Screen width height) :
    s.points.toList[y % height * width + x % width]? = some (s.get x y) := by
  have inside : y % height * width + x % width < s.points.toList.length := by
    rw [Vector.length_toList]
    exact (s.place x y).isLt
  rw [List.getElem?_eq_getElem inside, Vector.getElem_toList]
  rfl

theorem row_eq (s : Screen width height) (inside : y < height) :
    s.row y = (List.range width).map (s.get · y) := by
  apply List.ext_getElem?
  intro x
  by_cases column : x < width
  · have place := s.getElem?_points (x := x) (y := y)
    rw [Nat.mod_eq_of_lt column, Nat.mod_eq_of_lt inside] at place
    rw [List.getElem?_map, List.getElem?_range column, Option.map_some, ← place, row]
    simp [column]
  · have short : (s.row y).length ≤ x := by
      rw [s.length_row inside]
      exact Nat.not_lt.mp column
    have narrow : ((List.range width).map (s.get · y)).length ≤ x := by simpa using column
    rw [List.getElem?_eq_none short, List.getElem?_eq_none narrow]

theorem rows_eq (s : Screen width height) :
    s.rows = (List.range height).map fun y => (List.range width).map (s.get · y) := by
  apply List.map_congr_left
  intro y inside
  exact s.row_eq (List.mem_range.mp inside)

theorem flatMap_pieces {α : Type} (list : List α) (size count : Nat) :
    ((List.range count).flatMap fun place => (list.drop (place * size)).take size) =
      list.take (count * size) := by
  induction count with
  | zero => simp
  | succ count ih =>
    rw [List.range_succ, List.flatMap_append, ih, Nat.succ_mul, List.take_add]
    simp

theorem flatten_rows (s : Screen width height) : s.rows.flatten = s.points.toList := by
  have row : s.row = fun y => (s.points.toList.drop (y * width)).take width := by
    funext y
    simp [Screen.row, Vector.toList]
  have whole : s.points.toList.length ≤ height * width := by
    rw [Vector.length_toList, Nat.mul_comm]
  rw [rows, row, ← List.flatMap_def, flatMap_pieces, List.take_of_length_le whole]

theorem isBlank_iff (s : Screen width height) :
    s.isBlank = true ↔ ∀ x y, s.get x y = false := by
  simp only [isBlank, Vector.all_eq_true, Bool.not_eq_true']
  constructor
  · intro dark x y
    exact dark _ (s.place x y).isLt
  · intro dark i inside
    have point := dark (i % width) (i / width)
    simp only [get, place_div_mod s inside] at point
    exact point

theorem toroidal (s : Screen width height) (countable : width * height < countLimit) :
    s.Toroidal where
  size := Vector.length_toList
  inside x y := ⟨Nat.lt_trans (s.place x y).isLt countable, s.getElem?_points⟩
  wraps _ _ _ _ column row := get_wrap s column row
  apart _ _ _ _ _ := get_set s
  rows := by
    refine ⟨s.length_rows, ?_⟩
    intro y inside
    refine ⟨(List.range width).map (s.get · y), ?_, by simp, ?_⟩
    · simp [rows_eq, inside]
    · intro x column
      simp [column]
  whole := s.flatten_rows
  blank := s.isBlank_iff

-- Whatever has been done to it, a screen is a torus of points, and what it shows comes of doing
-- the same to the points alone.
theorem edited_toroidal (start : Screen width height) (edits : List Edit)
    (countable : width * height < countLimit) :
    (start.editAll edits).Toroidal ∧
      (start.editAll edits).Shows (start.torus.editAll edits) :=
  ⟨toroidal _ countable, start.shows_torus.editAll edits⟩

theorem edited_toroidal_corner :
    3 * 2 < countLimit ∧
      ∃ s : Screen 3 2, (blank 3 2 (by decide) (by decide)).editAll
          [.draw 2 1 [0xC0], .set 5 3 false] = s ∧
        s.Toroidal ∧ s.get 0 1 = true ∧ s.get 2 1 = false := by
  have countable : 3 * 2 < countLimit := by decide
  obtain ⟨toroidal, shown⟩ := edited_toroidal (blank 3 2 (by decide) (by decide))
    [.draw 2 1 [0xC0], .set 5 3 false] countable
  refine ⟨countable, _, rfl, toroidal, ?_, ?_⟩
  · rw [shown]
    decide
  · rw [shown]
    decide

end Screen
end ChipEight
