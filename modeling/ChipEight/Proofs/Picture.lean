import ChipEight.Proofs.Torus
import Mathlib.Algebra.Order.Floor.Div
import Mathlib.GroupTheory.GroupAction.Ring
namespace ChipEight

namespace Picture

inductive Depicts : Char → Bool → Bool → Prop where
  | both : Depicts '█' true true
  | upper : Depicts '▀' true false
  | lower : Depicts '▄' false true
  | neither : Depicts ' ' false false

variable {c : Char} {upper lower upper' lower' : Bool} {rows : List (List Bool)} {j : Nat}

theorem depicts_cell : Depicts (cell upper lower) upper lower := by
  cases upper with
  | true =>
    cases lower with
    | true => exact .both
    | false => exact .upper
  | false =>
    cases lower with
    | true => exact .lower
    | false => exact .neither

theorem Depicts.unique (one : Depicts c upper lower) (other : Depicts c upper' lower') :
    upper = upper' ∧ lower = lower' := by
  cases one <;> cases other <;> exact ⟨rfl, rfl⟩

theorem Depicts.visible (depicts : Depicts c upper lower) : c ≠ '\n' := by
  cases depicts <;> decide

theorem length_lines : (lines rows).length = (rows.length + 1) / 2 := by
  fun_induction lines rows with
  | case1 => rfl
  | case2 upper => simp
  | case3 upper lower rest ih =>
    simp only [List.length_cons, ih]
    omega

theorem getElem?_lines : (lines rows)[j]? = rows[2 * j]?.map fun upper =>
    line upper (rows[2 * j + 1]?.getD (List.replicate upper.length false)) := by
  fun_induction lines rows generalizing j with
  | case1 => rfl
  | case2 upper =>
    cases j with
    | zero => rfl
    | succ j => rfl
  | case3 upper lower rest ih =>
    cases j with
    | zero => rfl
    | succ j => exact ih

end Picture

namespace Screen

open Picture

variable {width height j x y : Nat} {s t : Screen width height}

def pictured (s : Screen width height) (x y : Nat) : Bool := decide (y < height) && s.get x y

def cells (s : Screen width height) (j : Nat) : List Char :=
  (List.range width).map fun x => cell (s.get x (2 * j)) (s.pictured x (2 * j + 1))

theorem pictured_inside (inside : y < height) : s.pictured x y = s.get x y := by
  simp [pictured, inside]

theorem length_cells (s : Screen width height) : (s.cells j).length = width := by
  simp [cells]

theorem getElem?_cells (s : Screen width height) (column : x < width) :
    (s.cells j)[x]? = some (cell (s.get x (2 * j)) (s.pictured x (2 * j + 1))) := by
  simp [cells, column]

theorem newline_not_mem_cells (s : Screen width height) : '\n' ∉ s.cells j := by
  intro present
  obtain ⟨x, _, broken⟩ := List.mem_map.mp present
  exact depicts_cell.visible broken

theorem line_rows (s : Screen width height) (inside : 2 * j < height) :
    (lines s.rows)[j]? = some (s.cells j ++ ['\n']) := by
  have upper : s.rows[2 * j]? = some ((List.range width).map (s.get · (2 * j))) := by
    simp [rows_eq, inside]
  have lower : s.rows[2 * j + 1]?.getD (List.replicate width false) =
      (List.range width).map (s.pictured · (2 * j + 1)) := by
    by_cases paired : 2 * j + 1 < height
    · simp [rows_eq, pictured, paired]
    · simp [rows_eq, pictured, paired]
  rw [getElem?_lines, upper, Option.map_some, List.length_map, List.length_range, lower, line,
    List.zipWith_map, List.zipWith_self]
  rfl

theorem lines_rows (s : Screen width height) :
    lines s.rows = (List.range (height ⌈/⌉ 2)).map fun j => s.cells j ++ ['\n'] := by
  have half := Nat.ceilDiv_eq_add_pred_div height 2
  apply List.ext_getElem?
  intro j
  by_cases inside : 2 * j < height
  · have within : j < height ⌈/⌉ 2 := by omega
    rw [s.line_rows inside, List.getElem?_map, List.getElem?_range within, Option.map_some]
  · have length : (lines s.rows).length ≤ j := by
      rw [length_lines, length_rows]
      omega
    rw [List.getElem?_eq_none length, List.getElem?_eq_none]
    rw [List.length_map, List.length_range]
    omega

theorem toList_picture (s : Screen width height) :
    s.picture.toList = ((List.range (height ⌈/⌉ 2)).map s.cells).flatMap (· ++ ['\n']) := by
  rw [picture, String.toList_ofList, lines_rows, List.flatMap_map, List.flatMap_def]

-- All lines are equally long, so they can be told apart in the picture.
theorem cells_of_picture (same : s.picture = t.picture) (within : j < height ⌈/⌉ 2) :
    s.cells j = t.cells j := by
  have letters : (lines s.rows).flatten = (lines t.rows).flatten := String.ofList_injective same
  have lengths : (lines s.rows).map List.length = (lines t.rows).map List.length := by
    simp [lines_rows, length_cells]
  have rows : lines s.rows = lines t.rows := List.eq_iff_flatten_eq.mpr ⟨letters, lengths⟩
  rw [lines_rows, lines_rows, List.map_inj_left] at rows
  exact List.append_cancel_right (rows j (List.mem_range.mpr within))

theorem picture_injective (same : s.picture = t.picture) : s = t := by
  have half := Nat.ceilDiv_eq_add_pred_div height 2
  apply ext_get
  intro x y column row
  have pair : ∀ j, j < height ⌈/⌉ 2 → s.get x (2 * j) = t.get x (2 * j) ∧
      s.pictured x (2 * j + 1) = t.pictured x (2 * j + 1) := by
    intro j within
    have here := s.getElem?_cells (j := j) column
    rw [cells_of_picture same within, t.getElem?_cells column, Option.some_inj] at here
    have depicts : Depicts (cell (t.get x (2 * j)) (t.pictured x (2 * j + 1)))
      (s.get x (2 * j)) (s.pictured x (2 * j + 1)) := here ▸ depicts_cell
    exact depicts.unique depicts_cell
  obtain ⟨upper, lower⟩ := pair (y / 2) (by omega)
  rcases Nat.mod_two_eq_zero_or_one y with even | odd
  · have place : 2 * (y / 2) = y := by omega
    rwa [place] at upper
  · have place : 2 * (y / 2) + 1 = y := by omega
    rwa [place, pictured_inside row, pictured_inside row] at lower

-- A picture has a line for every two rows and a character for every column, which shows the two
-- points that lie there, and no two screens of one size have the same picture.
theorem picture_faithful (s : Screen width height) :
    (∃ lines : List (List Char), s.picture.toList = lines.flatMap (· ++ ['\n']) ∧
      lines.length = height ⌈/⌉ 2 ∧
      ∀ j < height ⌈/⌉ 2, ∃ row, lines[j]? = some row ∧ row.length = width ∧ '\n' ∉ row ∧
        ∀ x < width, ∃ c, row[x]? = some c ∧
          Depicts c (s.get x (2 * j)) (decide (2 * j + 1 < height) && s.get x (2 * j + 1))) ∧
    ∀ t : Screen width height, s.picture = t.picture ↔ s = t := by
  refine ⟨⟨_, s.toList_picture, by simp, ?_⟩, fun t => ⟨picture_injective, congrArg picture⟩⟩
  intro j within
  refine ⟨s.cells j, by simp [within], s.length_cells, s.newline_not_mem_cells, ?_⟩
  intro x column
  exact ⟨_, s.getElem?_cells column, depicts_cell⟩

example : ((blank 2 3 (by decide) (by decide)).set 1 2 true).picture = "  \n ▀\n" := by decide

end Screen
end ChipEight
