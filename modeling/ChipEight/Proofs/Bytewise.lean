import ChipEight.Proofs.Access
namespace ChipEight.Memory

def readEach (m : Memory) (address : Nat) : Nat → Except Fault (List UInt8)
  | 0 => .ok []
  | length + 1 =>
    match m.read address with
    | .error fault => .error fault
    | .ok byte => (m.readEach (address + 1) length).map (byte :: ·)

def writeEach (m : Memory) (address : Nat) : List UInt8 → Memory × Except Fault Unit
  | [] => (m, .ok ())
  | value :: rest =>
    match m.write address value with
    | (after, .ok ()) => after.writeEach (address + 1) rest
    | (after, .error fault) => (after, .error fault)

def orNothing (m : Memory) : Memory × Except Fault Unit → Memory × Except Stop Unit
  | (after, .ok ()) => (after, .ok ())
  | (_, .error fault) => (m, .error (.fault fault))

def Readable (m : Memory) (address length : Nat) : Prop :=
  ∀ a, address ≤ a → a < address + length → ∃ byte, m.read a = .ok byte

structure Bytewise (m : Memory) (address length : Nat) : Prop where
  slice_readable : (∃ bytes, m.slice address length = .ok bytes) ↔ m.Readable address length
  fill_readable : ∀ value,
    (∃ after, m.fill address length value = (after, .ok ())) ↔ m.Readable address length
  store_readable : ∀ values, values.length = length →
    ((∃ after, m.store address values = (after, .ok ())) ↔ m.Readable address length)
  slice_each : m.slice address length = (m.readEach address length).mapError .fault
  fill_each : ∀ value,
    m.fill address length value = m.orNothing (m.writeEach address (List.replicate length value))
  store_each : ∀ values, values.length = length →
    m.store address values = m.orNothing (m.writeEach address values)

structure Uncounted (m : Memory) (address length : Nat) : Prop where
  slice : m.slice address length = .error (.trap .addOverflow)
  fill : ∀ value, m.fill address length value = (m, .error (.trap .addOverflow))
  store : ∀ values, values.length = length →
    m.store address values = (m, .error (.trap .addOverflow))

variable {m : Memory} {address length : Nat} {value : UInt8} {values : List UInt8}

theorem read_inside (inside : address < memorySize) : m.read address = .ok (m.byte address) := by
  rw [read, dif_pos inside, byte_inside]

theorem read_outside (outside : memorySize ≤ address) :
    m.read address = .error (.outsideMemory address) := dif_neg (Nat.not_lt.mpr outside)

theorem write_inside (inside : address < memorySize) :
    m.write address value = (m.put address value, .ok ()) := by
  rw [write, dif_pos inside, set_inside]

theorem write_outside (outside : memorySize ≤ address) :
    m.write address value = (m, .error (.outsideMemory address)) := dif_neg (Nat.not_lt.mpr outside)

theorem readEach_inside (inside : address + length ≤ memorySize) :
    m.readEach address length = .ok (m.bytesFrom address length) := by
  induction length generalizing address with
  | zero => rfl
  | succ length ih =>
    rw [readEach, read_inside (by omega), ih (by omega)]
    rfl

theorem readEach_outside (some : 1 ≤ length) (outside : memorySize < address + length) :
    m.readEach address length = .error (.outsideMemory (max address memorySize)) := by
  induction length generalizing address with
  | zero => cases some
  | succ length ih =>
    by_cases inside : address < memorySize
    · have next : max (address + 1) memorySize = max address memorySize := by omega
      rw [readEach, read_inside inside, ih (by omega) (by omega), next]
      rfl
    · have here : max address memorySize = address := by omega
      rw [readEach, read_outside (by omega), here]

theorem writeEach_inside (inside : address + values.length ≤ memorySize) :
    m.writeEach address values = (m.putAll address values, .ok ()) := by
  induction values generalizing m address with
  | nil => rfl
  | cons value rest ih =>
    rw [List.length_cons] at inside
    rw [writeEach, write_inside (by omega)]
    exact ih (by omega)

theorem writeEach_outside (some : 1 ≤ values.length)
    (outside : memorySize < address + values.length) :
    ∃ broken, m.writeEach address values =
      (broken, .error (.outsideMemory (max address memorySize))) := by
  induction values generalizing m address with
  | nil => cases some
  | cons value rest ih =>
    rw [List.length_cons] at outside
    by_cases inside : address < memorySize
    · have next : max (address + 1) memorySize = max address memorySize := by omega
      rw [writeEach, write_inside inside, ← next]
      exact ih (by omega) (by omega)
    · have here : max address memorySize = address := by omega
      rw [writeEach, write_outside (by omega), here]
      exact ⟨_, rfl⟩

theorem readable_iff (some : 1 ≤ length) :
    m.Readable address length ↔ address + length ≤ memorySize := by
  constructor
  · intro readable
    obtain ⟨byte, last⟩ := readable (address + length - 1) (by omega) (by omega)
    by_contra outside
    rw [read_outside (by omega)] at last
    cases last
  · intro inside a _ before
    exact ⟨_, read_inside (by omega)⟩

theorem fill_eq_store :
    m.fill address length value = m.store address (List.replicate length value) := by
  have same : (List.replicate length value).length = length := List.length_replicate
  by_cases inside : address + length ≤ memorySize
  · have filled : address + (List.replicate length value).length ≤ memorySize := same.symm ▸ inside
    rw [store_inside filled, fill, reach_inside inside]
    simp only [overwrite_eq]
  · rw [fill, store]
    cases refused : reach address length with
    | ok range => exact absurd range.inside inside
    | error stop =>
      have again : reach address (List.replicate length value).length = .error stop := by
        rw [same]
        exact refused
      simp only [again]

theorem slice_bytewise (some : 1 ≤ length) (counted : address + length < countLimit) :
    m.slice address length = (m.readEach address length).mapError .fault := by
  by_cases inside : address + length ≤ memorySize
  · rw [slice_inside inside, readEach_inside inside]
    rfl
  · have outside := Nat.not_le.mp inside
    rw [slice_outside counted outside, readEach_outside some outside]
    rfl

theorem store_bytewise (some : 1 ≤ values.length)
    (counted : address + values.length < countLimit) :
    m.store address values = m.orNothing (m.writeEach address values) := by
  by_cases inside : address + values.length ≤ memorySize
  · rw [store_inside inside, writeEach_inside inside]
    rfl
  · have outside := Nat.not_le.mp inside
    obtain ⟨broken, refused⟩ := writeEach_outside (m := m) some outside
    rw [store_outside counted outside, refused]
    rfl

theorem slice_ok_iff (counted : address + length < countLimit) :
    (∃ bytes, m.slice address length = .ok bytes) ↔ address + length ≤ memorySize := by
  constructor
  · intro ⟨bytes, sliced⟩
    by_contra inside
    rw [slice_outside counted (Nat.not_le.mp inside)] at sliced
    cases sliced
  · intro inside
    exact ⟨_, slice_inside inside⟩

theorem store_ok_iff (counted : address + values.length < countLimit) :
    (∃ after, m.store address values = (after, .ok ())) ↔
      address + values.length ≤ memorySize := by
  constructor
  · intro ⟨after, stored⟩
    by_contra inside
    rw [store_outside counted (Nat.not_le.mp inside)] at stored
    cases stored
  · intro inside
    exact ⟨_, store_inside inside⟩

theorem bytewise (some : 1 ≤ length) (counted : address + length < countLimit) :
    m.Bytewise address length := by
  have stores : ∀ values : List UInt8, values.length = length →
      m.store address values = m.orNothing (m.writeEach address values) ∧
        ((∃ after, m.store address values = (after, .ok ())) ↔ m.Readable address length) := by
    intro values filled
    subst filled
    exact ⟨store_bytewise some counted, (store_ok_iff counted).trans (readable_iff some).symm⟩
  refine ⟨(slice_ok_iff counted).trans (readable_iff some).symm, ?_, ?_,
    slice_bytewise some counted, ?_, ?_⟩
  · intro value
    rw [fill_eq_store]
    exact (stores _ List.length_replicate).2
  · intro values filled
    exact (stores values filled).2
  · intro value
    rw [fill_eq_store]
    exact (stores _ List.length_replicate).1
  · intro values filled
    exact (stores values filled).1

theorem reach_uncounted (uncounted : countLimit ≤ address + length) :
    reach address length = .error (.trap .addOverflow) := by
  rw [reach, if_pos uncounted]

theorem uncounted (past : countLimit ≤ address + length) : m.Uncounted address length := by
  refine ⟨?_, ?_, ?_⟩
  · rw [slice, reach_uncounted past]
    rfl
  · intro value
    rw [fill, reach_uncounted past]
  · intro values filled
    subst filled
    rw [store, reach_uncounted past]

theorem word_slice : m.word address =
    (m.slice address 2).map fun bytes => .ofBytes (bytes.getD 0 0) (bytes.getD 1 0) := by
  rw [word, slice]
  cases reach address 2 with
  | ok => rfl
  | error => rfl

-- Whatever memory holds, a range of at least one byte is read and written as its bytes would be,
-- all of them or none. Where its end cannot be counted nothing is done, but single bytes have
-- no end to be counted.
theorem ranges_bytewise (m : Memory) (address : Nat) {length : Nat} (some : 1 ≤ length) :
    (address + length < countLimit → m.Bytewise address length) ∧
      (countLimit ≤ address + length → m.Uncounted address length) ∧
      m.word address =
        (m.slice address 2).map (fun bytes => .ofBytes (bytes.getD 0 0) (bytes.getD 1 0)) ∧
      (memorySize ≤ address → m.read address = .error (.outsideMemory address) ∧
        ∀ value, m.write address value = (m, .error (.outsideMemory address))) := by
  refine ⟨bytewise some, uncounted, word_slice, ?_⟩
  intro outside
  exact ⟨read_outside outside, fun _ => write_outside outside⟩

theorem ranges_bytewise_straddling :
    ∃ m broken : Memory, m.writeEach 0xFFF [1, 2, 3] = (broken, .error (.outsideMemory 0x1000)) ∧
      m.byte 0xFFF = 0 ∧ broken.byte 0xFFF = 1 ∧
      m.store 0xFFF [1, 2, 3] = (m, .error (.fault (.outsideMemory 0x1000))) := by
  have written : blank.writeEach 0xFFF [1, 2, 3] =
      (blank.put 0xFFF 1, .error (.outsideMemory 0x1000)) := by
    simp [writeEach, write_inside, write_outside]
  obtain ⟨counted, _⟩ := ranges_bytewise blank 0xFFF (show 1 ≤ 3 by decide)
  have stored := (counted (by decide)).store_each [1, 2, 3] rfl
  rw [written] at stored
  refine ⟨blank, _, written, by simp [blank, byte], ?_, stored⟩
  rw [byte_put _ _ (by decide), if_pos rfl]

end ChipEight.Memory
