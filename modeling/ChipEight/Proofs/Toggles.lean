import ChipEight.Proofs.Access
import Mathlib.Data.Nat.Bits
namespace ChipEight.Screen

def hits (width height : Nat) (points : List (Nat × Nat)) (x y : Nat) : Nat :=
  points.countP fun point => point.1 % width = x ∧ point.2 % height = y

-- A collision is a point that was on and is met at all, or one that is met again.
def Collides {width height : Nat} (s : Screen width height) (points : List (Nat × Nat)) : Prop :=
  ∃ x y, x < width ∧ y < height ∧
    (1 ≤ hits width height points x y ∧ s.get x y = true ∨ 2 ≤ hits width height points x y)

variable {width height x y x' y' : Nat} {point : Nat × Nat} {points others rest : List (Nat × Nat)}

theorem hits_cons :
    hits width height (point :: rest) x y =
      hits width height rest x y + if point.1 % width = x ∧ point.2 % height = y then 1 else 0 := by
  simp [hits, List.countP_cons]

theorem hits_append :
    hits width height (points ++ others) x y =
      hits width height points x y + hits width height others x y := by
  simp [hits, List.countP_append]

theorem hits_perm (permuted : points.Perm others) :
    hits width height points x y = hits width height others x y :=
  permuted.countP_eq _

theorem get_wrap (s : Screen width height) (column : x % width = x' % width)
    (row : y % height = y' % height) : s.get x y = s.get x' y' := by
  simp only [get, (place_eq_iff s).mpr ⟨column, row⟩]

theorem place_div_mod (s : Screen width height) {i : Nat} (inside : i < width * height) :
    s.place (i % width) (i / width) = ⟨i, inside⟩ := by
  have row : i / width < height := Nat.div_lt_of_lt_mul inside
  apply Fin.ext
  simp only [Screen.place, Nat.mod_eq_of_lt row, Nat.mod_mod]
  rw [Nat.mul_comm]
  exact Nat.div_add_mod i width

theorem ext_get (s t : Screen width height)
    (same : ∀ x y, x < width → y < height → s.get x y = t.get x y) : s = t := by
  have points : s.points = t.points := by
    apply Vector.ext
    intro i inside
    have column : i % width < width := Nat.mod_lt _ s.wide
    have row : i / width < height := Nat.div_lt_of_lt_mul inside
    have here := same (i % width) (i / width) column row
    simp only [get, place_div_mod _ inside] at here
    exact here
  cases s
  cases t
  cases points
  rfl

section Toggle

variable (column : x < width) (row : y < height)
include column row

theorem get_toggle (d : Drawing width height) :
    (d.toggle point).screen.get x y =
      if point.1 % width = x ∧ point.2 % height = y then !d.screen.get x y
      else d.screen.get x y := by
  rw [Drawing.toggle, get_set, Nat.mod_eq_of_lt column, Nat.mod_eq_of_lt row]
  split
  · rename_i here
    have same : d.screen.get point.1 point.2 = d.screen.get x y := by
      apply get_wrap
      · rw [here.1, Nat.mod_eq_of_lt column]
      · rw [here.2, Nat.mod_eq_of_lt row]
    rw [same]
  · rfl

theorem get_foldl_toggle (d : Drawing width height) :
    (points.foldl Drawing.toggle d).screen.get x y =
      (d.screen.get x y ^^ (hits width height points x y).bodd) := by
  induction points generalizing d with
  | nil => simp [hits]
  | cons point rest ih =>
    rw [List.foldl_cons, ih, get_toggle column row, hits_cons]
    split
    · rw [Nat.bodd_succ, Bool.not_xor, Bool.xor_not]
    · rfl

theorem get_toggleAll (s : Screen width height) :
    (s.toggleAll points).screen.get x y =
      (s.get x y ^^ (hits width height points x y).bodd) :=
  get_foldl_toggle column row ⟨s, false⟩

end Toggle

theorem toggle_collision (d : Drawing width height) :
    (d.toggle point).collision = true ↔
      d.collision = true ∨ d.screen.get point.1 point.2 = true := by
  simp [Drawing.toggle]

theorem collides_cons (d : Drawing width height) :
    d.screen.Collides (point :: rest) ↔
      d.screen.get point.1 point.2 = true ∨ (d.toggle point).screen.Collides rest := by
  have column : point.1 % width < width := Nat.mod_lt _ d.screen.wide
  have row : point.2 % height < height := Nat.mod_lt _ d.screen.tall
  have here : d.screen.get (point.1 % width) (point.2 % height) = d.screen.get point.1 point.2 :=
    get_wrap _ (Nat.mod_mod _ _) (Nat.mod_mod _ _)
  constructor
  · rintro ⟨x, y, inColumn, inRow, met⟩
    rw [hits_cons] at met
    by_cases same : point.1 % width = x ∧ point.2 % height = y
    · obtain ⟨rfl, rfl⟩ := same
      rw [if_pos ⟨rfl, rfl⟩, here] at met
      cases on : d.screen.get point.1 point.2 with
      | true => exact .inl rfl
      | false =>
        refine .inr ⟨_, _, column, row, .inl ⟨?_, ?_⟩⟩
        · exact Nat.le_of_succ_le_succ (met.resolve_left (by simp [on]))
        · rw [get_toggle column row, if_pos ⟨rfl, rfl⟩, here, on]
          rfl
    · rw [if_neg same] at met
      refine .inr ⟨x, y, inColumn, inRow, ?_⟩
      rwa [get_toggle inColumn inRow, if_neg same]
  · rintro (on | ⟨x, y, inColumn, inRow, met⟩)
    · refine ⟨_, _, column, row, .inl ⟨?_, here.trans on⟩⟩
      rw [hits_cons, if_pos ⟨rfl, rfl⟩]
      exact Nat.le_add_left _ _
    · refine ⟨x, y, inColumn, inRow, ?_⟩
      rw [get_toggle inColumn inRow] at met
      rw [hits_cons]
      split at met
      · rename_i same
        rw [if_pos same]
        omega
      · rename_i apart
        rwa [if_neg apart]

theorem collision_foldl_toggle (d : Drawing width height) :
    (points.foldl Drawing.toggle d).collision = true ↔
      d.collision = true ∨ d.screen.Collides points := by
  induction points generalizing d with
  | nil => simp [Collides, hits]
  | cons point rest ih =>
    rw [List.foldl_cons, ih, toggle_collision, collides_cons, or_assoc]

theorem collision_toggleAll (s : Screen width height) :
    (s.toggleAll points).collision = true ↔ s.Collides points :=
  (collision_foldl_toggle ⟨s, false⟩).trans (by simp)

theorem toggleAll_screen_congr (s : Screen width height)
    (same : ∀ x y, (hits width height points x y).bodd = (hits width height others x y).bodd) :
    (s.toggleAll points).screen = (s.toggleAll others).screen := by
  apply ext_get
  intro x y column row
  rw [get_toggleAll column row, get_toggleAll column row, same]

theorem toggleAll_append_screen (s : Screen width height) :
    (s.toggleAll (points ++ others)).screen = ((s.toggleAll points).screen.toggleAll others).screen := by
  apply ext_get
  intro x y column row
  rw [get_toggleAll column row, get_toggleAll column row, get_toggleAll column row, hits_append,
    Nat.bodd_add, Bool.xor_assoc]

end ChipEight.Screen
