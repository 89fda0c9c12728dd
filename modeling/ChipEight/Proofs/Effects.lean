import ChipEight.Proofs.Access
namespace ChipEight

def Instruction.range : Instruction → Option Nat
  | .draw _ _ rows => some rows.val
  | .decimal _ => some 3
  | .store x => some (x.val + 1)
  | .load x => some (x.val + 1)
  | _ => none

theorem Instruction.range_le {instruction : Instruction} {length : Nat}
    (reaches : instruction.range = some length) : length ≤ 16 := by
  cases instruction with
  | draw x y rows =>
    cases reaches
    exact Nat.le_of_lt rows.isLt
  | decimal =>
    cases reaches
    decide
  | store x =>
    cases reaches
    exact x.isLt
  | load x =>
    cases reaches
    exact x.isLt
  | _ => cases reaches

-- The three ways an instruction can go, as rules on the state before it (whose pc
-- is already past it). They are independent of `execute`, which is compared below.
inductive Completes (dialect : Dialect) (s : State) (dice : Dice) :
    Instruction → State → Dice → Prop where
  | system : Completes dialect s dice (.system target) s dice
  | clear :
      Completes dialect s dice .clear { s with screen := s.screen.clear, drawn := true } dice
  | ret (popped : s.stack.pop = (stack, .ok address)) :
      Completes dialect s dice .ret { s with pc := address, stack } dice
  | jump : Completes dialect s dice (.jump target) { s with pc := UInt16.ofNat target.val } dice
  | call (pushed : s.stack.push s.pc = (stack, .ok ())) :
      Completes dialect s dice (.call target) { s with pc := UInt16.ofNat target.val, stack } dice
  | skip (holds : s.holds condition = true) (room : s.pc.toNat + 2 < 0x10000) :
      Completes dialect s dice (.skip condition) { s with pc := s.pc + 2 } dice
  | stay (fails : s.holds condition = false) : Completes dialect s dice (.skip condition) s dice
  | loadByte : Completes dialect s dice (.loadByte x kk) (s.setV x kk) dice
  | addByte : Completes dialect s dice (.addByte x kk) (s.setV x (s.value x + kk)) dice
  | alu : Completes dialect s dice (.alu op x y) (s.compute dialect op x y) dice
  | loadIndex :
      Completes dialect s dice (.loadIndex target) { s with i := UInt16.ofNat target.val } dice
  | jumpOffset :
      Completes dialect s dice (.jumpOffset target)
        { s with pc := UInt16.ofNat (target.val + (s.jumpBase dialect target).toNat) } dice
  | random :
      Completes dialect s dice (.random x kk) (s.setV x (dice.next &&& kk)) dice.throw
  | draw (inside : s.i.toNat + rows.val ≤ memorySize)
      (drawn : s.screen.toggleAll
        (Sprite.placed (s.memory.bytesFrom s.i.toNat rows.val) (s.value x).toNat (s.value y).toNat) =
          drawing) :
      Completes dialect s dice (.draw x y rows)
        ({ s with screen := drawing.screen, drawn := true }.setFlag drawing.collision) dice
  | readDelay : Completes dialect s dice (.readDelay x) (s.setV x s.timers.delay) dice
  | waitKey (past : 2 ≤ s.pc.toNat) :
      Completes dialect s dice (.waitKey x)
        { s with pc := s.pc - 2, wait := some ⟨UInt8.ofNat x.val, s.keypad⟩ } dice
  | setDelay : Completes dialect s dice (.setDelay x) { s with timers.delay := s.value x } dice
  | setSound : Completes dialect s dice (.setSound x) { s with timers.sound := s.value x } dice
  | addIndex :
      Completes dialect s dice (.addIndex x) { s with i := s.i + (s.value x).toUInt16 } dice
  | glyph :
      Completes dialect s dice (.glyph x)
        { s with i := UInt16.ofNat (State.glyphStart (s.value x)) } dice
  | decimal (inside : s.i.toNat + 3 ≤ memorySize) :
      Completes dialect s dice (.decimal x)
        { s with memory := s.memory.putAll s.i.toNat (State.decimalDigits (s.value x)) } dice
  | store (inside : s.i.toNat + (x.val + 1) ≤ memorySize) :
      Completes dialect s dice (.store x)
        ({ s with memory := s.memory.putAll s.i.toNat (s.firstRegisters x) }.advanceIndex
          dialect (x.val + 1)) dice
  | load (inside : s.i.toNat + (x.val + 1) ≤ memorySize) :
      Completes dialect s dice (.load x)
        ({ s with v := State.setRegisters s.v 0 (s.memory.bytesFrom s.i.toNat (x.val + 1)) }.advanceIndex
          dialect (x.val + 1)) dice
  | unknown (lenient : dialect.strict = false) (past : 2 ≤ s.pc.toNat) :
      Completes dialect s dice (.unknown word) s dice

inductive Fails (dialect : Dialect) (s : State) : Instruction → Fault → Prop where
  | ret (idle : s.stack.depth = 0) : Fails dialect s .ret .stackUnderflow
  | call (full : s.stack.depth = stackDepth) : Fails dialect s (.call target) .stackOverflow
  | range (reaches : instruction.range = some length) (outside : memorySize < s.i.toNat + length) :
      Fails dialect s instruction (.outsideMemory (max s.i.toNat memorySize))
  | unknown (strict : dialect.strict = true) (past : 2 ≤ s.pc.toNat) :
      Fails dialect s (.unknown word) (.unknownInstruction word (s.pc - 2))

inductive Traps (s : State) : Instruction → Prop where
  | skip (holds : s.holds condition = true) (last : 0xFFFE ≤ s.pc.toNat) :
      Traps s (.skip condition)
  | waitKey (first : s.pc.toNat < 2) : Traps s (.waitKey x)
  | unknown (first : s.pc.toNat < 2) : Traps s (.unknown word)

namespace State

variable {dialect : Dialect} {s after : State} {dice rest : Dice} {instruction : Instruction}
  {fault : Fault} {x : Register}

theorem glyphStart_room {value : UInt8} : glyphStart value < 0x10000 := by
  have digit : value.toNat % 16 < 16 := Nat.mod_lt _ (by decide)
  have start : fontStart.toNat = 80 := rfl
  have size : glyphSize.toNat = 5 := rfl
  rw [glyphStart, start, size]
  omega

theorem length_firstRegisters : (s.firstRegisters x).length = x.val + 1 := by
  have bound := x.isLt
  simp only [firstRegisters, List.length_take, Vector.length_toList]
  omega

theorem execute_completes (completes : Completes dialect s dice instruction after rest) :
    s.execute dialect instruction dice = .finished after rest := by
  cases completes with
  | ret popped => simp only [execute, popped]
  | call pushed => simp only [execute, pushed]
  | skip holds room => simp only [execute, holds, forward_room room, if_true]
  | stay fails => simp [execute, fails]
  | @jumpOffset target =>
    have room : target.val + (s.jumpBase dialect target).toNat < 0x10000 := by
      have base := (s.jumpBase dialect target).toNat_lt
      omega
    simp only [execute, jumpTo_room room]
  | @glyph x => simp only [execute, pointTo_room glyphStart_room]
  | @draw x y drawing rows inside drawn =>
    have short : (s.memory.bytesFrom s.i.toNat rows.val).length ≤ 16 := by
      rw [Memory.length_bytesFrom]
      exact Nat.le_of_lt rows.isLt
    simp only [execute, Memory.slice_inside inside, Screen.draw_bytes _ _ _ short, drawn]
  | waitKey past => simp [execute, back, past]
  | @decimal x inside =>
    have room : s.i.toNat + (decimalDigits (s.value x)).length ≤ memorySize := inside
    simp only [execute, Memory.store_inside room]
  | @store x inside =>
    have room : s.i.toNat + (s.firstRegisters x).length ≤ memorySize := by
      rwa [length_firstRegisters]
    simp only [execute, Memory.store_inside room]
  | load inside => simp only [execute, Memory.slice_inside inside]
  | unknown lenient past => simp [execute, back_room past, lenient]
  | _ => rfl

-- Every check comes before the first write, so nothing has been done by then.
theorem execute_fails (fails : Fails dialect s instruction fault) :
    s.execute dialect instruction dice = .failed fault s dice := by
  cases fails with
  | ret idle => simp only [execute, CallStack.pop_idle idle]
  | call full => simp only [execute, CallStack.push_full full]
  | unknown strict past => simp [execute, back_room past, strict]
  | @range length _ reaches outside =>
    have counted : s.i.toNat + length < countLimit := by
      have start := s.i.toNat_lt
      have short := Instruction.range_le reaches
      simp only [countLimit]
      omega
    cases instruction with
    | draw x y rows =>
      cases reaches
      simp only [execute, Memory.slice_outside counted outside, Effect.stopped]
    | decimal x =>
      cases reaches
      have digits : (decimalDigits (s.value x)).length = 3 := rfl
      rw [← digits] at counted outside
      simp only [execute, Memory.store_outside counted outside, Effect.stopped]
    | store x =>
      cases reaches
      rw [← length_firstRegisters (s := s)] at counted outside
      simp only [execute, Memory.store_outside counted outside, Effect.stopped]
    | load x =>
      cases reaches
      simp only [execute, Memory.slice_outside counted outside, Effect.stopped]
    | _ => cases reaches

theorem execute_traps (dialect : Dialect) (dice : Dice) (traps : Traps s instruction) :
    ∃ trap, s.execute dialect instruction dice = .trapped trap := by
  cases traps with
  | skip holds last =>
    exact ⟨.addOverflow, by simp only [execute, holds, forward_end last, if_true]⟩
  | waitKey first => exact ⟨.subOverflow, by simp [execute, back, Nat.not_le.mpr first]⟩
  | unknown first => exact ⟨.subOverflow, by simp only [execute, back_start first]⟩

theorem completes_or_fails_or_traps (dialect : Dialect) (s : State) (dice : Dice)
    (instruction : Instruction) :
    (∃ after rest, Completes dialect s dice instruction after rest) ∨
      (∃ fault, Fails dialect s instruction fault) ∨ Traps s instruction := by
  have split (length : Nat) : s.i.toNat + length ≤ memorySize ∨ memorySize < s.i.toNat + length :=
    Nat.lt_or_ge _ _ |>.symm
  cases instruction with
  | ret =>
    rcases Nat.eq_zero_or_pos s.stack.depth with idle | stored
    · exact .inr (.inl ⟨_, .ret idle⟩)
    · obtain ⟨_, _, popped⟩ := CallStack.pop_stored stored
      exact .inl ⟨_, _, .ret popped⟩
  | call target =>
    rcases Nat.lt_or_eq_of_le s.stack.bounded with room | full
    · obtain ⟨_, pushed⟩ := CallStack.push_room room s.pc
      exact .inl ⟨_, _, .call pushed⟩
    · exact .inr (.inl ⟨_, .call full⟩)
  | skip condition =>
    cases holds : s.holds condition with
    | false => exact .inl ⟨_, _, .stay holds⟩
    | true =>
      rcases Nat.lt_or_ge s.pc.toNat 0xFFFE with room | last
      · exact .inl ⟨_, _, .skip holds (Nat.add_lt_add_right room 2)⟩
      · exact .inr (.inr (.skip holds last))
  | waitKey x =>
    rcases Nat.lt_or_ge s.pc.toNat 2 with first | past
    · exact .inr (.inr (.waitKey first))
    · exact .inl ⟨_, _, .waitKey past⟩
  | unknown word =>
    rcases Nat.lt_or_ge s.pc.toNat 2 with first | past
    · exact .inr (.inr (.unknown first))
    · cases strict : dialect.strict with
      | false => exact .inl ⟨_, _, .unknown strict past⟩
      | true => exact .inr (.inl ⟨_, .unknown strict past⟩)
  | draw x y rows =>
    rcases split rows.val with inside | outside
    · exact .inl ⟨_, _, .draw inside rfl⟩
    · exact .inr (.inl ⟨_, .range rfl outside⟩)
  | decimal x =>
    rcases split 3 with inside | outside
    · exact .inl ⟨_, _, .decimal inside⟩
    · exact .inr (.inl ⟨_, .range rfl outside⟩)
  | store x =>
    rcases split (x.val + 1) with inside | outside
    · exact .inl ⟨_, _, .store inside⟩
    · exact .inr (.inl ⟨_, .range rfl outside⟩)
  | load x =>
    rcases split (x.val + 1) with inside | outside
    · exact .inl ⟨_, _, .load inside⟩
    · exact .inr (.inl ⟨_, .range rfl outside⟩)
  | system => exact .inl ⟨_, _, .system⟩
  | clear => exact .inl ⟨_, _, .clear⟩
  | jump => exact .inl ⟨_, _, .jump⟩
  | loadByte => exact .inl ⟨_, _, .loadByte⟩
  | addByte => exact .inl ⟨_, _, .addByte⟩
  | alu => exact .inl ⟨_, _, .alu⟩
  | loadIndex => exact .inl ⟨_, _, .loadIndex⟩
  | jumpOffset => exact .inl ⟨_, _, .jumpOffset⟩
  | random => exact .inl ⟨_, _, .random⟩
  | readDelay => exact .inl ⟨_, _, .readDelay⟩
  | setDelay => exact .inl ⟨_, _, .setDelay⟩
  | setSound => exact .inl ⟨_, _, .setSound⟩
  | addIndex => exact .inl ⟨_, _, .addIndex⟩
  | glyph => exact .inl ⟨_, _, .glyph⟩

theorem execute_finished_iff :
    s.execute dialect instruction dice = .finished after rest ↔
      Completes dialect s dice instruction after rest := by
  refine ⟨fun finished => ?_, execute_completes⟩
  rcases completes_or_fails_or_traps dialect s dice instruction with
    ⟨_, _, completes⟩ | ⟨_, fails⟩ | traps
  · rw [execute_completes completes] at finished
    cases finished
    exact completes
  · rw [execute_fails fails] at finished
    cases finished
  · obtain ⟨_, trapped⟩ := execute_traps dialect dice traps
    rw [trapped] at finished
    cases finished

theorem execute_failed_iff :
    s.execute dialect instruction dice = .failed fault after rest ↔
      after = s ∧ rest = dice ∧ Fails dialect s instruction fault := by
  constructor
  · intro failed
    rcases completes_or_fails_or_traps dialect s dice instruction with
      ⟨_, _, completes⟩ | ⟨_, fails⟩ | traps
    · rw [execute_completes completes] at failed
      cases failed
    · rw [execute_fails fails] at failed
      cases failed
      exact ⟨rfl, rfl, fails⟩
    · obtain ⟨_, trapped⟩ := execute_traps dialect dice traps
      rw [trapped] at failed
      cases failed
  · rintro ⟨rfl, rfl, fails⟩
    exact execute_fails fails

theorem execute_trapped_iff :
    (∃ trap, s.execute dialect instruction dice = .trapped trap) ↔ Traps s instruction := by
  refine ⟨fun ⟨trap, trapped⟩ => ?_, execute_traps dialect dice⟩
  rcases completes_or_fails_or_traps dialect s dice instruction with
    ⟨_, _, completes⟩ | ⟨_, fails⟩ | traps
  · rw [execute_completes completes] at trapped
    cases trapped
  · rw [execute_fails fails] at trapped
    cases trapped
  · exact traps

end State
end ChipEight
