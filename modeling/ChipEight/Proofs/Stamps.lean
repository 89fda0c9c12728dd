import ChipEight.Proofs.Sprites
namespace ChipEight

structure Stamp where
  x : Nat
  y : Nat
  sprite : Sprite
  deriving DecidableEq

namespace Stamp

def Counted (stamp : Stamp) : Prop :=
  ∀ bit ∈ stamp.sprite.bits, Sprite.Counted stamp.x stamp.y bit

instance (stamp : Stamp) : Decidable stamp.Counted := inferInstanceAs (Decidable (∀ _ ∈ _, _))

structure Matches (width height : Nat) (one other : Stamp) : Prop where
  column : one.x % width = other.x % width
  row : one.y % height = other.y % height
  sprite : one.sprite = other.sprite

theorem Matches.symm {width height : Nat} {one other : Stamp}
    (same : one.Matches width height other) : other.Matches width height one :=
  ⟨same.column.symm, same.row.symm, same.sprite.symm⟩

def points (stamp : Stamp) : List (Nat × Nat) :=
  stamp.sprite.bits.map (Sprite.spot stamp.x stamp.y)

end Stamp

def Screen.drawAll {width height : Nat} (s : Screen width height) :
    List Stamp → Except Trap (Screen width height)
  | [] => .ok s
  | stamp :: rest =>
    match s.draw stamp.x stamp.y stamp.sprite with
    | (drawing, .ok ()) => drawing.screen.drawAll rest
    | (_, .error trap) => .error trap

namespace Sprite

variable {width height x y px py : Nat} {sprite : Sprite} {bits : List (Nat × Nat)}

theorem exists_lit {byte : UInt8} : (∃ column < 8, lit byte column = true) ↔ byte ≠ 0 := by
  constructor
  · rintro ⟨column, narrow, set⟩ rfl
    rw [lit_eq_testBit narrow] at set
    simp at set
  · intro nonzero
    have positive : byte.toNat ≠ 0 := fun zero => nonzero (UInt8.toNat_inj.mp zero)
    obtain ⟨place, set, _⟩ := Nat.exists_most_significant_bit positive
    have small : place < 8 := by
      by_contra large
      have bound : byte.toNat < 2 ^ place :=
        Nat.lt_of_lt_of_le byte.toNat_lt (Nat.pow_le_pow_right (by decide) (Nat.not_lt.mp large))
      rw [Nat.testBit_lt_two_pow bound] at set
      cases set
    refine ⟨7 - place, by omega, ?_⟩
    rw [lit_eq_testBit (by omega), Nat.sub_sub_self (by omega), set]

theorem exists_bit : (∃ bit, bit ∈ sprite.bits) ↔ ∃ byte ∈ sprite, byte ≠ 0 := by
  constructor
  · rintro ⟨⟨row, column⟩, member⟩
    obtain ⟨inSprite, narrow, set⟩ := mem_bits.mp member
    refine ⟨sprite.getD row 0, ?_, exists_lit.mp ⟨column, narrow, set⟩⟩
    simp [inSprite]
  · rintro ⟨byte, present, nonzero⟩
    obtain ⟨row, inSprite, rfl⟩ := List.getElem_of_mem present
    obtain ⟨column, narrow, set⟩ := exists_lit.mpr nonzero
    refine ⟨(row, column), mem_bits.mpr ⟨inSprite, narrow, ?_⟩⟩
    simpa [inSprite] using set

theorem exists_covered (wide : 0 < width) (tall : 0 < height) :
    (∃ px py, px < width ∧ py < height ∧ 1 ≤ coverage width height x y bits px py) ↔
      ∃ bit, bit ∈ bits := by
  constructor
  · rintro ⟨_, _, _, _, covered⟩
    obtain ⟨bit, member, _⟩ := List.countP_pos_iff.mp covered
    exact ⟨bit, member⟩
  · rintro ⟨bit, member⟩
    refine ⟨(x + bit.2) % width, (y + bit.1) % height, Nat.mod_lt _ wide, Nat.mod_lt _ tall, ?_⟩
    exact List.countP_pos_iff.mpr ⟨bit, member, by simp⟩

end Sprite

namespace Screen

variable {width height px py : Nat} {first second stamp : Stamp}
  {stamps others before between behind : List Stamp}

theorem hits_matches (same : first.Matches width height second) :
    hits width height first.points px py = hits width height second.points px py := by
  have column (c : Nat) : (first.x + c) % width = (second.x + c) % width := by
    rw [Nat.add_mod, same.column, ← Nat.add_mod]
  have row (r : Nat) : (first.y + r) % height = (second.y + r) % height := by
    rw [Nat.add_mod, same.row, ← Nat.add_mod]
  rw [Stamp.points, Stamp.points, Sprite.hits_spots, Sprite.hits_spots, same.sprite]
  simp only [Sprite.coverage, column, row]

theorem drawAll_counted (s : Screen width height) (counted : ∀ stamp ∈ stamps, stamp.Counted) :
    s.drawAll stamps = .ok (s.toggleAll (stamps.flatMap Stamp.points)).screen := by
  induction stamps generalizing s with
  | nil => rfl
  | cons stamp rest ih =>
    obtain ⟨now, later⟩ := List.forall_mem_cons.mp counted
    rw [drawAll, draw_counted s now]
    simp only
    rw [ih _ later, List.flatMap_cons, toggleAll_append_screen]
    rfl

theorem drawAll_perm (s : Screen width height) (counted : ∀ stamp ∈ stamps, stamp.Counted)
    (permuted : stamps.Perm others) : s.drawAll others = s.drawAll stamps := by
  have alsoCounted : ∀ stamp ∈ others, stamp.Counted := fun stamp present =>
    counted stamp (permuted.mem_iff.mpr present)
  rw [drawAll_counted s counted, drawAll_counted s alsoCounted]
  congr 1
  apply toggleAll_screen_congr
  intro px py
  rw [hits_perm (permuted.symm.flatMap_right _)]

theorem toggleAll_matches (s : Screen width height) (same : first.Matches width height second)
    (points : List (Nat × Nat)) :
    (s.toggleAll (first.points ++ (second.points ++ points))).screen =
      (s.toggleAll points).screen := by
  apply toggleAll_screen_congr
  intro px py
  rw [hits_append, hits_append, hits_matches same, Nat.bodd_add, Nat.bodd_add, ← Bool.xor_assoc,
    Bool.xor_self, Bool.false_xor]

theorem drawAll_matches (s : Screen width height) (same : first.Matches width height second)
    (counted : ∀ stamp ∈ first :: second :: stamps, stamp.Counted) :
    s.drawAll (first :: second :: stamps) = s.drawAll stamps := by
  have rest : ∀ stamp ∈ stamps, stamp.Counted := fun stamp present =>
    counted stamp (List.mem_cons_of_mem _ (List.mem_cons_of_mem _ present))
  rw [drawAll_counted s counted, drawAll_counted s rest, List.flatMap_cons, List.flatMap_cons,
    toggleAll_matches s same]

theorem perm_front :
    (before ++ first :: between ++ second :: behind).Perm
      (second :: first :: (before ++ between ++ behind)) := by
  refine List.perm_middle.trans (.cons _ ?_)
  exact (List.perm_middle.append_right behind)

-- What the first of two equal draws meets for the only time and finds off, the second finds on.
theorem collides_twice (s : Screen width height) (same : first.Matches width height second) :
    s.Collides first.points ∨ (s.toggleAll first.points).screen.Collides second.points ↔
      ∃ px py, px < width ∧ py < height ∧ 1 ≤ hits width height first.points px py := by
  constructor
  · rintro (⟨px, py, column, row, met⟩ | ⟨px, py, column, row, met⟩)
    · exact ⟨px, py, column, row, by omega⟩
    · rw [← hits_matches same] at met
      exact ⟨px, py, column, row, by omega⟩
  · rintro ⟨px, py, column, row, met⟩
    rcases Nat.eq_or_lt_of_le met with once | again
    · cases on : s.get px py with
      | true => exact .inl ⟨px, py, column, row, .inl ⟨met, on⟩⟩
      | false =>
        refine .inr ⟨px, py, column, row, .inl ⟨?_, ?_⟩⟩
        · rwa [← hits_matches same]
        · rw [get_toggleAll column row, on, ← once]
          rfl
    · exact .inl ⟨px, py, column, row, .inr again⟩

theorem draw_twice (s : Screen width height) (same : first.Matches width height second)
    (counted : first.Counted) (again : second.Counted) :
    ∃ one two, s.draw first.x first.y first.sprite = (one, .ok ()) ∧
      one.screen.draw second.x second.y second.sprite = (two, .ok ()) ∧ two.screen = s ∧
      (one.collision = true ∨ two.collision = true ↔ ∃ byte ∈ first.sprite, byte ≠ 0) := by
  refine ⟨_, _, draw_counted s counted, draw_counted _ again, ?_, ?_⟩
  · have restored := toggleAll_matches s same []
    rwa [List.append_nil, toggleAll_append_screen] at restored
  · rw [collision_toggleAll, collision_toggleAll, ← Sprite.exists_bit,
      ← Sprite.exists_covered s.wide s.tall]
    simp only [← Sprite.hits_spots]
    exact collides_twice s same

-- The order of draws does not matter, and two that match undo each other, wherever they stand.
-- One of the two collides unless there is nothing to draw.
theorem stamps_cancel (counted : ∀ stamp ∈ stamps, stamp.Counted) (s : Screen width height) :
    ∃ last, s.drawAll stamps = .ok last ∧
      (∀ others, stamps.Perm others → s.drawAll others = .ok last) ∧
      (∀ before first between second behind,
        stamps = before ++ first :: between ++ second :: behind →
        first.Matches width height second →
        s.drawAll (before ++ between ++ behind) = .ok last) ∧
      ∀ first ∈ stamps, ∀ second ∈ stamps, first.Matches width height second →
        ∃ one two, s.draw first.x first.y first.sprite = (one, .ok ()) ∧
          one.screen.draw second.x second.y second.sprite = (two, .ok ()) ∧ two.screen = s ∧
          (one.collision = true ∨ two.collision = true ↔ ∃ byte ∈ first.sprite, byte ≠ 0) := by
  have drawn := drawAll_counted s counted
  refine ⟨_, drawn, ?_, ?_, ?_⟩
  · intro others permuted
    rw [drawAll_perm s counted permuted, drawn]
  · rintro before first between second behind rfl same
    have alsoCounted : ∀ stamp ∈ second :: first :: (before ++ between ++ behind),
        stamp.Counted := fun stamp present => counted stamp (perm_front.mem_iff.mpr present)
    rw [← drawn, ← drawAll_perm s counted perm_front]
    exact (drawAll_matches s same.symm alsoCounted).symm
  · intro first present second also same
    exact draw_twice s same (counted first present) (counted second also)

theorem stamps_cancel_turned :
    ∃ last : Screen 5 3,
      (Screen.blank 5 3 (by decide) (by decide)).drawAll
        [⟨1, 1, [0xFF]⟩, ⟨0, 0, [0x80]⟩, ⟨6, 4, [0xFF]⟩] = .ok last ∧
      (Screen.blank 5 3 (by decide) (by decide)).drawAll [⟨0, 0, [0x80]⟩] = .ok last := by
  have counted : ∀ stamp ∈ [⟨1, 1, [0xFF]⟩, ⟨0, 0, [0x80]⟩, (⟨6, 4, [0xFF]⟩ : Stamp)],
      stamp.Counted := by decide
  obtain ⟨last, drawn, _, removed, _⟩ :=
    stamps_cancel counted (Screen.blank 5 3 (by decide) (by decide))
  exact ⟨last, drawn, removed [] _ [⟨0, 0, [0x80]⟩] _ [] rfl ⟨rfl, rfl, rfl⟩⟩

end Screen
end ChipEight
