import ChipEight.Proofs.Halting
import ChipEight.Proofs.Listing
import Mathlib.Data.Nat.Find
namespace ChipEight

theorem Word.reaches_zero_iff {w : Word} :
    w.Reaches 0 ↔ w.family.val = 0xD ∧ w.n.val = 0 := by
  constructor
  · intro reaches
    generalize empty : 0 = length at reaches
    cases reaches with
    | draw family => exact ⟨family, rfl⟩
    | decimal => cases empty
    | store => cases empty
    | load => cases empty
  · rintro ⟨family, digit⟩
    exact digit ▸ .draw family

namespace Machine

inductive Needs (m : Machine) : Nat → Prop where
  | high (even : m.state.pc.toNat % 2 = 0) : Needs m m.state.pc.toNat
  | low (even : m.state.pc.toNat % 2 = 0) : Needs m (m.state.pc.toNat + 1)
  | operand (fetches : m.Fetches w) (reaches : w.Reaches length) (within : offset < length) :
      Needs m (m.state.i.toNat + offset)

structure FirstOutside (m : Machine) (address : Nat) : Prop where
  needed : m.Needs address
  outside : 0x1000 ≤ address
  lowest : ∀ other, m.Needs other → 0x1000 ≤ other → address ≤ other

variable {m : Machine} {w : Word} {address length : Nat}

theorem needs_outside_iff (fetches : m.Fetches w) (outside : 0x1000 ≤ address) :
    m.Needs address ↔ ∃ length, w.Reaches length ∧
      m.state.i.toNat ≤ address ∧ address < m.state.i.toNat + length := by
  have even := fetches.even
  have inside := fetches.inside
  simp only [memorySize] at inside
  constructor
  · intro needs
    cases needs with
    | high => omega
    | low => omega
    | @operand _ length offset again reaches within =>
      cases fetches.unique again
      exact ⟨length, reaches, Nat.le_add_right _ _, Nat.add_lt_add_left within _⟩
  · rintro ⟨length, reaches, behind, before⟩
    have within : address - m.state.i.toNat < length := Nat.sub_lt_left_of_lt_add behind before
    have needs := Needs.operand fetches reaches within
    rwa [Nat.add_sub_cancel' behind] at needs

theorem firstOutside_of_fetches (fetches : m.Fetches w) :
    m.FirstOutside address ↔ ∃ length, w.Reaches length ∧ 0 < length ∧
      0x1000 < m.state.i.toNat + length ∧ address = max m.state.i.toNat 0x1000 := by
  constructor
  · rintro ⟨needed, outside, lowest⟩
    obtain ⟨length, reaches, behind, before⟩ := (needs_outside_iff fetches outside).mp needed
    refine ⟨length, reaches, by omega, by omega, ?_⟩
    have first : 0x1000 ≤ max m.state.i.toNat 0x1000 := Nat.le_max_right _ _
    have needed := (needs_outside_iff fetches first).mpr ⟨length, reaches, by omega, by omega⟩
    have least := lowest _ needed first
    omega
  · rintro ⟨length, reaches, positive, beyond, rfl⟩
    have first : 0x1000 ≤ max m.state.i.toNat 0x1000 := Nat.le_max_right _ _
    refine ⟨(needs_outside_iff fetches first).mpr ⟨length, reaches, by omega, by omega⟩, first, ?_⟩
    intro other needed outside
    obtain ⟨_, _, behind, _⟩ := (needs_outside_iff fetches outside).mp needed
    omega

theorem firstOutside_of_outside (even : m.state.pc.toNat % 2 = 0)
    (outside : 0x1000 ≤ m.state.pc.toNat) :
    m.FirstOutside address ↔ address = m.state.pc.toNat := by
  have least : ∀ other, m.Needs other → m.state.pc.toNat ≤ other := by
    intro other needed
    cases needed with
    | high => exact Nat.le_refl _
    | low => exact Nat.le_succ _
    | operand fetches => exact absurd fetches.inside (Nat.not_lt.mpr outside)
  constructor
  · rintro ⟨needed, _, lowest⟩
    exact Nat.le_antisymm (lowest _ (.high even) outside) (least _ needed)
  · rintro rfl
    exact ⟨.high even, outside, fun other needed _ => least other needed⟩

theorem not_needs_of_odd (odd : m.state.pc.toNat % 2 = 1) : ¬ m.Needs address := by
  intro needed
  cases needed with
  | high even => omega
  | low even => omega
  | operand fetches =>
    have even := fetches.even
    omega

theorem failing_outside_of_fetches (fetches : m.Fetches w) :
    m.Failing (.outsideMemory address) ↔ ∃ length, w.Reaches length ∧
      0x1000 < m.state.i.toNat + length ∧ address = max m.state.i.toNat 0x1000 := by
  have inside := fetches.inside
  simp only [memorySize] at inside
  constructor
  · intro failing
    cases failing with
    | outside => omega
    | word again refuses =>
      cases fetches.unique again
      cases refuses with
      | range reaches beyond => exact ⟨_, reaches, beyond, rfl⟩
  · rintro ⟨_, reaches, beyond, rfl⟩
    exact .word fetches (.range reaches beyond)

-- A sprite without bytes needs no address beside its word's, and yet its place has to be in
-- memory or right behind it.
structure Displaced (m : Machine) (address : Nat) : Prop where
  sprite : ∃ w, m.Fetches w ∧ w.family.val = 0xD ∧ w.n.val = 0
  behind : 0x1000 < m.state.i.toNat
  named : address = m.state.i.toNat

theorem failing_outside_iff :
    m.Failing (.outsideMemory address) ↔ m.FirstOutside address ∨ m.Displaced address := by
  rcases misaligned_or_outside_or_fetches m with odd | ⟨even, outside⟩ | ⟨w, fetches⟩
  · constructor
    · intro failing
      cases failing with
      | outside even => omega
      | word fetches =>
        have even := fetches.even
        omega
    · rintro (first | displaced)
      · exact absurd first.needed (not_needs_of_odd odd)
      · obtain ⟨_, fetches, _⟩ := displaced.sprite
        have even := fetches.even
        omega
  · rw [firstOutside_of_outside even outside]
    constructor
    · intro failing
      cases failing with
      | outside => exact .inl rfl
      | word fetches => exact absurd fetches.inside (Nat.not_lt.mpr outside)
    · rintro (rfl | displaced)
      · exact .outside even outside
      · obtain ⟨_, fetches, _⟩ := displaced.sprite
        exact absurd fetches.inside (Nat.not_lt.mpr outside)
  · rw [failing_outside_of_fetches fetches, firstOutside_of_fetches fetches]
    constructor
    · rintro ⟨length, reaches, beyond, rfl⟩
      rcases Nat.eq_zero_or_pos length with rfl | positive
      · obtain ⟨family, digit⟩ := Word.reaches_zero_iff.mp reaches
        exact .inr ⟨⟨w, fetches, family, digit⟩, beyond, Nat.max_eq_left (Nat.le_of_lt beyond)⟩
      · exact .inl ⟨length, reaches, positive, beyond, rfl⟩
    · rintro (⟨length, reaches, _, beyond, named⟩ | ⟨⟨_, again, family, digit⟩, behind, rfl⟩)
      · exact ⟨length, reaches, beyond, named⟩
      · cases fetches.unique again
        exact ⟨0, Word.reaches_zero_iff.mpr ⟨family, digit⟩, behind,
          (Nat.max_eq_left (Nat.le_of_lt behind)).symm⟩

theorem exists_firstOutside_iff :
    (∃ address, m.FirstOutside address) ↔ ∃ address, m.Needs address ∧ 0x1000 ≤ address := by
  classical
  constructor
  · rintro ⟨address, first⟩
    exact ⟨address, first.needed, first.outside⟩
  · intro missing
    refine ⟨Nat.find missing, (Nat.find_spec missing).1, (Nat.find_spec missing).2, ?_⟩
    intro other needed outside
    exact Nat.find_min' missing ⟨needed, outside⟩

theorem Displaced.inside (displaced : m.Displaced address) (other : Nat) (needed : m.Needs other) :
    other < 0x1000 := by
  obtain ⟨_, fetches, empty⟩ := displaced.sprite
  by_contra outside
  obtain ⟨_, first⟩ := exists_firstOutside_iff.mpr ⟨other, needed, Nat.not_lt.mp outside⟩
  obtain ⟨length, reaches, positive, _⟩ := (firstOutside_of_fetches fetches).mp first
  have none := Instruction.range_ofWord.mpr (Word.reaches_zero_iff.mpr empty)
  cases none.symm.trans (Instruction.range_ofWord.mpr reaches)
  exact Nat.lt_irrefl 0 positive

end Machine

variable {m : Machine} {past : List Moment}

-- A step is refused for a place outside memory where one that it needs is outside, and
-- the first of them is named; beside that only for an empty sprite far enough outside.
theorem outside_fault_exact (reached : Reached m past) (ready : m.Ready) :
    ∃ turn, m.step = .ok turn ∧
      ((∃ address, turn.reply = .refused (.outsideMemory address)) ↔
        (∃ address, m.Needs address ∧ 0x1000 ≤ address) ∨ ∃ address, m.Displaced address) ∧
      ∀ address, turn.reply = .refused (.outsideMemory address) ↔
        m.FirstOutside address ∨ m.Displaced address := by
  obtain ⟨turn, ran⟩ := Machine.step_answers reached.sound
  have named : ∀ address, turn.reply = .refused (.outsideMemory address) ↔
      m.FirstOutside address ∨ m.Displaced address := by
    intro address
    rw [Machine.refused_iff_failing ready (Machine.step_ok_iff.mp ran)]
    exact Machine.failing_outside_iff
  refine ⟨turn, ran, ?_, named⟩
  simp only [named, exists_or, Machine.exists_firstOutside_iff]

theorem outside_fault_exact_straddling :
    ∃ m past turn, Reached m past ∧ m.Ready ∧ m.state.i = 0xFFF ∧ m.Fetches (.ofBytes 0xD0 0x02) ∧
      m.step = .ok turn ∧ turn.reply = .refused (.outsideMemory 0x1000) := by
  let program : List UInt8 := [0xAF, 0xFF, 0xD0, 0x02]
  have fits : program.length ≤ programRoom := by decide
  obtain ⟨_, reached⟩ := (Reached.empty .vip none (.ofList [])).started fits (.ofList [])
  obtain ⟨_, reached, here⟩ := reached.onward Machine.started_atWord fits (by decide)
    (show _ = Instruction.loadIndex 0xFFF by decide) .loadIndex rfl rfl rfl
  obtain ⟨m, past, reached, here, i⟩ : ∃ m past, Reached m past ∧ m.AtWord program 1 ∧
      m.state.i = 0xFFF := ⟨_, _, reached, here, rfl⟩
  have fetches : m.Fetches (.ofBytes 0xD0 0x02) := here.fetches fits (by decide)
  obtain ⟨turn, ran, _, named⟩ := outside_fault_exact reached here.toReady
  refine ⟨m, past, turn, reached, here.toReady, i, fetches, ran, (named _).mpr (.inl ?_)⟩
  refine (Machine.firstOutside_of_fetches fetches).mpr ⟨_, .draw (by decide), by decide, ?_, ?_⟩
  · rw [i]
    decide
  · rw [i]
    rfl

theorem displaced_sprite :
    ∃ m past, Reached m past ∧ calls past =
        [.load [0x60, 0x02, 0xAF, 0xFF, 0xF0, 0x1E, 0xD0, 0x00] (.ofList []), .step, .step, .step] ∧
      m.Ready ∧ m.Displaced 0x1001 := by
  let program : List UInt8 := [0x60, 0x02, 0xAF, 0xFF, 0xF0, 0x1E, 0xD0, 0x00]
  have fits : program.length ≤ programRoom := by decide
  have loaded : (Machine.empty .vip none (.ofList [])).handle (.load program (.ofList [])) = .ok _ :=
    Machine.load_fits fits (.ofList [])
  obtain ⟨_, reached, here⟩ := ((Reached.empty .vip none (.ofList [])).call loaded).onward
    Machine.started_atWord fits (by decide) (show _ = Instruction.loadByte 0 2 by decide) .loadByte
    rfl rfl rfl
  obtain ⟨_, reached, here⟩ := reached.onward here fits (by decide)
    (show _ = Instruction.loadIndex 0xFFF by decide) .loadIndex rfl rfl rfl
  obtain ⟨_, reached, here⟩ := reached.onward here fits (by decide)
    (show _ = Instruction.addIndex 0 by decide) .addIndex rfl rfl rfl
  refine ⟨_, _, reached, rfl, here.toReady, ⟨_, here.fetches fits (by decide), ?_, ?_⟩, ?_, ?_⟩
  · decide
  · decide
  · decide
  · decide

theorem empty_sprite_outside :
    ∃ m past turn, Reached m past ∧ calls past =
        [.load [0x60, 0x02, 0xAF, 0xFF, 0xF0, 0x1E, 0xD0, 0x00] (.ofList []), .step, .step, .step] ∧
      m.Ready ∧ (∀ address, m.Needs address → address < 0x1000) ∧
      m.step = .ok turn ∧ turn.reply = .refused (.outsideMemory 0x1001) := by
  obtain ⟨m, past, reached, called, ready, displaced⟩ := displaced_sprite
  obtain ⟨turn, ran⟩ := Machine.step_answers reached.sound
  have failing := Machine.failing_outside_iff.mpr (.inr displaced)
  exact ⟨m, past, turn, reached, called, ready, displaced.inside, ran,
    (Machine.refused_iff_failing ready (Machine.step_ok_iff.mp ran)).mpr failing⟩

end ChipEight
