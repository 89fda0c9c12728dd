import ChipEight.Proofs.Listing
import ChipEight.Proofs.Mnemonics
namespace ChipEight

namespace Word

def bytes (w : Word) : List UInt8 := [UInt8.ofNat (w.toNat / 256), w.kk]

def ofTarget (family : Nat) (target : Target) : Word := UInt16.ofNat (family * 4096 + target.val)

def ofDigits (family : Nat) (x : Register) (low : Nat) : Word :=
  UInt16.ofNat (family * 4096 + x.val * 256 + low)

variable {w other : Word} {family low : Nat}

theorem toNat_kk : w.kk.toNat = w.toNat % 256 := by
  unfold kk
  rw [UInt8.toNat_ofNat']
  omega

theorem kk_digits : w.kk.toNat = w.y.val * 16 + w.n.val := by
  rw [toNat_kk]
  simp only [y, n, Register.low]
  omega

theorem ofTarget_target (named : w.family.val = family) : ofTarget family w.target = w := by
  have bound := w.toNat_lt
  simp only [Word.family] at named
  apply UInt16.toNat_inj.mp
  simp only [ofTarget, target, UInt16.toNat_ofNat']
  omega

theorem ofDigits_x (named : w.family.val = family) (digits : w.kk.toNat = low) :
    ofDigits family w.x low = w := by
  have bound := w.toNat_lt
  rw [toNat_kk] at digits
  simp only [Word.family] at named
  apply UInt16.toNat_inj.mp
  simp only [ofDigits, x, Register.low, UInt16.toNat_ofNat']
  omega

theorem bytes_ofBytes (high low : UInt8) : (ofBytes high low).bytes = [high, low] := by
  have highBound := high.toNat_lt
  have lowBound := low.toNat_lt
  have first : UInt8.ofNat ((ofBytes high low).toNat / 256) = high := by
    apply UInt8.toNat_inj.mp
    rw [toNat_ofBytes, UInt8.toNat_ofNat']
    omega
  have last : (ofBytes high low).kk = low := by
    apply UInt8.toNat_inj.mp
    rw [toNat_kk, toNat_ofBytes]
    omega
  rw [bytes, first, last]

theorem bytes_injective : Function.Injective bytes := by
  intro w other same
  simp only [bytes, List.cons.injEq, and_true] at same
  obtain ⟨high, low⟩ := same
  have highs := congrArg UInt8.toNat high
  have lows := congrArg UInt8.toNat low
  rw [UInt8.toNat_ofNat', UInt8.toNat_ofNat'] at highs
  rw [toNat_kk, toNat_kk] at lows
  have bound := w.toNat_lt
  have otherBound := other.toNat_lt
  apply UInt16.toNat_inj.mp
  omega

theorem flatMap_bytes_injective : Function.Injective (List.flatMap bytes) := by
  intro words others same
  induction words generalizing others with
  | nil =>
    cases others with
    | nil => rfl
    | cons => cases same
  | cons w words ih =>
    cases others with
    | nil => cases same
    | cons other others =>
      rw [List.flatMap_cons, List.flatMap_cons] at same
      obtain ⟨first, rest⟩ := List.append_inj same rfl
      rw [bytes_injective first, ih rest]

end Word

def Instruction.word : Instruction → Word
  | .system target => .ofTarget 0x0 target
  | .clear => 0x00E0
  | .ret => 0x00EE
  | .jump target => .ofTarget 0x1 target
  | .call target => .ofTarget 0x2 target
  | .skip (.isByte x kk) => .ofDigits 0x3 x kk.toNat
  | .skip (.notByte x kk) => .ofDigits 0x4 x kk.toNat
  | .skip (.same x y) => .ofDigits 0x5 x (y.val * 16)
  | .loadByte x kk => .ofDigits 0x6 x kk.toNat
  | .addByte x kk => .ofDigits 0x7 x kk.toNat
  | .alu op x y => .ofDigits 0x8 x (y.val * 16 + op.digit)
  | .skip (.differ x y) => .ofDigits 0x9 x (y.val * 16)
  | .loadIndex target => .ofTarget 0xA target
  | .jumpOffset target => .ofTarget 0xB target
  | .random x kk => .ofDigits 0xC x kk.toNat
  | .draw x y rows => .ofDigits 0xD x (y.val * 16 + rows.val)
  | .skip (.pressed x) => .ofDigits 0xE x 0x9E
  | .skip (.released x) => .ofDigits 0xE x 0xA1
  | .readDelay x => .ofDigits 0xF x 0x07
  | .waitKey x => .ofDigits 0xF x 0x0A
  | .setDelay x => .ofDigits 0xF x 0x15
  | .setSound x => .ofDigits 0xF x 0x18
  | .addIndex x => .ofDigits 0xF x 0x1E
  | .glyph x => .ofDigits 0xF x 0x29
  | .decimal x => .ofDigits 0xF x 0x33
  | .store x => .ofDigits 0xF x 0x55
  | .load x => .ofDigits 0xF x 0x65
  | .unknown word => word

theorem Instruction.word_ofWord (w : Word) : (ofWord w).word = w := by
  have reads := ofWord_reads w
  generalize ofWord w = instruction at reads
  cases reads with
  | clear named => exact named.symm
  | ret named => exact named.symm
  | system family => exact Word.ofTarget_target family
  | jump family => exact Word.ofTarget_target family
  | call family => exact Word.ofTarget_target family
  | loadIndex family => exact Word.ofTarget_target family
  | jumpOffset family => exact Word.ofTarget_target family
  | isByte family => exact Word.ofDigits_x family rfl
  | notByte family => exact Word.ofDigits_x family rfl
  | loadByte family => exact Word.ofDigits_x family rfl
  | addByte family => exact Word.ofDigits_x family rfl
  | random family => exact Word.ofDigits_x family rfl
  | same family digit => exact Word.ofDigits_x family (by rw [Word.kk_digits, digit, Nat.add_zero])
  | differ family digit => exact Word.ofDigits_x family (by rw [Word.kk_digits, digit, Nat.add_zero])
  | alu family digit => exact Word.ofDigits_x family (by rw [Word.kk_digits, digit])
  | draw family => exact Word.ofDigits_x family Word.kk_digits
  | pressed family digits => exact Word.ofDigits_x family digits
  | released family digits => exact Word.ofDigits_x family digits
  | readDelay family digits => exact Word.ofDigits_x family digits
  | waitKey family digits => exact Word.ofDigits_x family digits
  | setDelay family digits => exact Word.ofDigits_x family digits
  | setSound family digits => exact Word.ofDigits_x family digits
  | addIndex family digits => exact Word.ofDigits_x family digits
  | glyph family digits => exact Word.ofDigits_x family digits
  | decimal family digits => exact Word.ofDigits_x family digits
  | store family digits => exact Word.ofDigits_x family digits
  | load family digits => exact Word.ofDigits_x family digits
  | unknown => rfl

theorem Word.text_injective : Function.Injective fun w : Word => (Instruction.ofWord w).text :=
  Instruction.text_injective.comp (Function.LeftInverse.injective Instruction.word_ofWord)

def evened (bytes : List UInt8) : List UInt8 := bytes ++ List.replicate (bytes.length % 2) 0

variable {origin other : UInt16} {bytes others : List UInt8}

theorem length_listing : (listing origin bytes).length = (bytes.length + 1) / 2 := by
  fun_induction listing origin bytes with
  | case1 => rfl
  | case2 => simp
  | case3 origin high low rest ih =>
    simp only [List.length_cons, ih]
    omega

theorem listing_addresses :
    (listing origin bytes).map (fun line => line.address.toNat) =
      (List.range ((bytes.length + 1) / 2)).map fun place => (origin.toNat + 2 * place) % 65536 := by
  apply List.ext_getElem?
  intro place
  rw [List.getElem?_map, List.getElem?_map, listing_getElem?]
  by_cases within : 2 * place < bytes.length
  · have inRange : place < (bytes.length + 1) / 2 := by omega
    rw [if_pos within, List.getElem?_range inRange]
    simp only [Option.map_some, Line.read, UInt16.toNat_add, UInt16.toNat_ofNat']
    congr 1
    omega
  · have behind : (bytes.length + 1) / 2 ≤ place := by omega
    rw [if_neg within, List.getElem?_eq_none (by rwa [List.length_range])]
    rfl

theorem listing_bytes (origin : UInt16) (bytes : List UInt8) :
    ((listing origin bytes).map Line.word).flatMap Word.bytes = evened bytes := by
  fun_induction listing origin bytes with
  | case1 => rfl
  | case2 origin high => exact (List.append_nil _).trans (Word.bytes_ofBytes high 0)
  | case3 origin high low rest ih =>
    have last : (high :: low :: rest).length % 2 = rest.length % 2 := Nat.add_mod_right _ 2
    rw [List.map_cons, List.flatMap_cons, ih]
    simp only [evened, last, Line.read, Word.bytes_ofBytes]
    rfl

theorem listing_texts :
    (listing origin bytes).map (fun line => line.instruction.text) =
      ((listing origin bytes).map Line.word).map fun w => (Instruction.ofWord w).text := by
  fun_induction listing origin bytes with
  | case1 => rfl
  | case2 => rfl
  | case3 origin high low rest ih => exact congrArg (List.cons _) ih

-- A listing loses nothing. Its words are the bytes that were listed, and so much can be told
-- from the mnemonics alone, wherever the two listings begin.
theorem listing_lossless (origin : UInt16) (bytes : List UInt8) :
    (listing origin bytes).length = (bytes.length + 1) / 2 ∧
    (listing origin bytes).map (fun line => line.address.toNat) =
      (List.range ((bytes.length + 1) / 2)).map (fun place => (origin.toNat + 2 * place) % 65536) ∧
    ((listing origin bytes).map Line.word).flatMap Word.bytes = evened bytes ∧
    ∀ other others,
      (listing origin bytes).map (fun line => line.instruction.text) =
          (listing other others).map (fun line => line.instruction.text) ↔
        evened bytes = evened others := by
  refine ⟨length_listing, listing_addresses, listing_bytes origin bytes, ?_⟩
  intro other others
  have words : evened bytes = evened others ↔
      (listing origin bytes).map Line.word = (listing other others).map Line.word := by
    rw [← listing_bytes origin, ← listing_bytes other]
    exact Word.flatMap_bytes_injective.eq_iff
  rw [words, listing_texts, listing_texts]
  exact List.map_inj_right fun _ _ same => Word.text_injective same

end ChipEight
