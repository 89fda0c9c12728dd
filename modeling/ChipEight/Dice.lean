namespace ChipEight

namespace Seed

-- A 64-bit seed is stretched to a key of eight 32-bit words by a linear
-- congruential generator whose output is permuted.
def advance (s : UInt64) : UInt64 := s * 6364136223846793005 + 11634580027462260723

def state (seed : UInt64) : Nat → UInt64
  | 0 => seed
  | n + 1 => advance (state seed n)

-- An amount of 0 shifts left by 32, which is by 0 in this width: the word is or-ed with itself.
def rotateRight (x amount : UInt32) : UInt32 := (x >>> amount) ||| (x <<< (32 - amount))

def output (s : UInt64) : UInt32 :=
  rotateRight (((s >>> 18) ^^^ s) >>> 27).toUInt32 (s >>> 59).toUInt32

def word (seed : UInt64) (n : Nat) : UInt32 := output (state seed (n + 1))

abbrev Key := Vector UInt32 8

def key (seed : UInt64) : Key := Vector.ofFn fun n => word seed n.val

end Seed

namespace Keystream

-- ChaCha with twelve rounds. The stream position is a block number and nothing
-- else: there is no nonce.
abbrev blockSize : Nat := 16

abbrev Block := Vector UInt32 blockSize

def rotateLeft (x amount : UInt32) : UInt32 := (x <<< amount) ||| (x >>> (32 - amount))

def quarter (block : Block) (a b c d : Fin blockSize) : Block :=
  let block := block.set a (block[a] + block[b])
  let block := block.set d (rotateLeft (block[d] ^^^ block[a]) 16)
  let block := block.set c (block[c] + block[d])
  let block := block.set b (rotateLeft (block[b] ^^^ block[c]) 12)
  let block := block.set a (block[a] + block[b])
  let block := block.set d (rotateLeft (block[d] ^^^ block[a]) 8)
  let block := block.set c (block[c] + block[d])
  block.set b (rotateLeft (block[b] ^^^ block[c]) 7)

def doubleRound (block : Block) : Block :=
  let block := quarter block 0 4 8 12
  let block := quarter block 1 5 9 13
  let block := quarter block 2 6 10 14
  let block := quarter block 3 7 11 15
  let block := quarter block 0 5 10 15
  let block := quarter block 1 6 11 12
  let block := quarter block 2 7 8 13
  quarter block 3 4 9 14

def start (key : Seed.Key) (number : Nat) : Block := #v[
  0x61707865, 0x3320646e, 0x79622d32, 0x6b206574,
  key[0], key[1], key[2], key[3], key[4], key[5], key[6], key[7],
  UInt32.ofNat number, UInt32.ofNat (number / 0x100000000), 0, 0]

def block (key : Seed.Key) (number : Nat) : Block :=
  let first := start key number
  Vector.zipWith (· + ·) (Nat.repeat doubleRound 6 first) first

def word (key : Seed.Key) (position : Nat) : UInt32 :=
  (block key (position / blockSize)).get ⟨position % blockSize, Nat.mod_lt _ (by decide)⟩

end Keystream

structure Dice where
  face : Nat → UInt8
  thrown : Nat

namespace Dice

def next (d : Dice) : UInt8 := d.face d.thrown

def throw (d : Dice) : Dice := { d with thrown := d.thrown + 1 }

def ofWords (word : Nat → UInt32) : Dice := ⟨fun n => (word n).toUInt8, 0⟩

def ofSeed (seed : UInt64) : Dice :=
  let key := Seed.key seed
  ofWords (Keystream.word key)

def ofList (words : List UInt32) : Dice := ofWords fun n => words.getD n 0

end Dice

end ChipEight
