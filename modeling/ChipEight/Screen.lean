import ChipEight.Fault
namespace ChipEight

abbrev displayWidth : Nat := 64

abbrev displayHeight : Nat := 32

structure Screen (width height : Nat) where
  points : Vector Bool (width * height)
  wide : 0 < width
  tall : 0 < height
  deriving DecidableEq

abbrev Display := Screen displayWidth displayHeight

namespace Screen

variable {width height x y x' y' : Nat} {on : Bool}

def blank (width height : Nat) (wide : 0 < width) (tall : 0 < height) : Screen width height :=
  ⟨Vector.replicate _ false, wide, tall⟩

def blank? (width height : Nat) : Except Trap (Screen width height) :=
  if positive : 0 < width ∧ 0 < height then
    if countLimit ≤ width * height then .error .mulOverflow
    else if pieceLimit ≤ width * height then .error .capacityOverflow
    else .ok (blank width height positive.1 positive.2)
  else .error (.emptyScreen width height)

def place (s : Screen width height) (x y : Nat) : Fin (width * height) :=
  ⟨y % height * width + x % width, by
    have column := Nat.mod_lt x s.wide
    have row : y % height + 1 ≤ height := Nat.mod_lt y s.tall
    calc y % height * width + x % width
        < y % height * width + width := Nat.add_lt_add_left column _
      _ = (y % height + 1) * width := (Nat.succ_mul _ _).symm
      _ ≤ height * width := Nat.mul_le_mul_right _ row
      _ = width * height := Nat.mul_comm _ _⟩

def get (s : Screen width height) (x y : Nat) : Bool := s.points[s.place x y]

def set (s : Screen width height) (x y : Nat) (on : Bool) : Screen width height :=
  { s with points := s.points.set (s.place x y) on }

def clear (s : Screen width height) : Screen width height :=
  { s with points := Vector.replicate _ false }

theorem place_eq_iff (s : Screen width height) :
    s.place x y = s.place x' y' ↔ x % width = x' % width ∧ y % height = y' % height := by
  simp only [place, Fin.mk.injEq]
  constructor
  · intro equal
    have wide := s.wide
    have column := congrArg (· % width) equal
    have row := congrArg (· / width) equal
    simp [Nat.mul_comm _ width, Nat.mul_add_div wide, Nat.div_eq_of_lt, Nat.mod_lt _ wide]
      at column row
    exact ⟨column, row⟩
  · rintro ⟨column, row⟩
    rw [column, row]

theorem get_set (s : Screen width height) :
    (s.set x y on).get x' y' =
      if x % width = x' % width ∧ y % height = y' % height then on else s.get x' y' := by
  have moved : (s.set x y on).place x' y' = s.place x' y' := rfl
  simp only [get, moved]
  by_cases equal : s.place x y = s.place x' y'
  · rw [if_pos (place_eq_iff s |>.mp equal)]
    simp [set, equal]
  · rw [if_neg fun same => equal (place_eq_iff s |>.mpr same)]
    simp [set, Fin.val_inj, equal]

theorem get_clear (s : Screen width height) : s.clear.get x y = false := by
  simp [clear, get]

theorem get_blank (wide : 0 < width) (tall : 0 < height) :
    (blank width height wide tall).get x y = false := by
  simp [blank, get]

def row (s : Screen width height) (y : Nat) : List Bool :=
  (s.points.toArray.extract (y * width) (y * width + width)).toList

def rows (s : Screen width height) : List (List Bool) := (List.range height).map s.row

def isBlank (s : Screen width height) : Bool := s.points.all (!·)

def lit (s : Screen width height) : Nat := s.points.count true

end Screen

def Display.blank : Display := Screen.blank displayWidth displayHeight (by decide) (by decide)

abbrev Sprite := List UInt8

namespace Sprite

def litColumns (row : UInt8) : List Nat :=
  (List.range 8).filter fun column => row.toNat.testBit (7 - column)

def litFrom (first : Nat) : Sprite → List (Nat × Nat)
  | [] => []
  | row :: rest => (litColumns row).map (·, first) ++ litFrom (first + 1) rest

-- Where the lit points come to lie with the top left corner at (x, y). Points
-- that are off are nowhere, so they cannot overflow.
def placed (sprite : Sprite) (x y : Nat) : List (Nat × Nat) :=
  (litFrom 0 sprite).map fun (column, row) => (x + column, y + row)

def countable (point : Nat × Nat) : Bool := point.1 < countLimit && point.2 < countLimit

end Sprite

namespace Screen

variable {width height : Nat}

structure Drawing (width height : Nat) where
  screen : Screen width height
  collision : Bool

def Drawing.toggle (d : Drawing width height) (point : Nat × Nat) : Drawing width height :=
  let on := d.screen.get point.1 point.2
  ⟨d.screen.set point.1 point.2 !on, d.collision || on⟩

-- Points are toggled one after the other, so one that is met twice is on again and has collided.
def toggleAll (s : Screen width height) (points : List (Nat × Nat)) : Drawing width height :=
  points.foldl Drawing.toggle ⟨s, false⟩

-- Drawing stops at the first point that cannot be counted; what was drawn before it stays.
def draw (s : Screen width height) (x y : Nat) (sprite : Sprite) :
    Drawing width height × Except Trap Unit :=
  let points := sprite.placed x y
  (s.toggleAll (points.takeWhile Sprite.countable),
    if points.all Sprite.countable then .ok () else .error .addOverflow)

end Screen

def cell (upper lower : Bool) : Char :=
  match upper, lower with
  | true, true => '█'
  | true, false => '▀'
  | false, true => '▄'
  | false, false => ' '

namespace Picture

def line (upper lower : List Bool) : List Char := List.zipWith cell upper lower ++ ['\n']

def lines : List (List Bool) → List (List Char)
  | [] => []
  | [upper] => [line upper (List.replicate upper.length false)]
  | upper :: lower :: rest => line upper lower :: lines rest

end Picture

def Screen.picture {width height : Nat} (s : Screen width height) : String :=
  String.ofList (Picture.lines s.rows).flatten

def homeAndClear : String := "\x1b[H\x1b[2J"

end ChipEight
