import TwoWayPeg.Hash.Sha256

/-!
# RIPEMD-160

The second of the two hashes that turn a public key or a script into the twenty bytes an address
carries: `hash160` is RIPEMD-160 of SHA-256. Two lines of eighty steps run over each block with
their own word order, rotation amounts and constants, and are added together at its end.
-/

namespace TwoWayPeg.Ripemd160

/-- The five working words. -/
structure State where
  a : UInt32
  b : UInt32
  c : UInt32
  d : UInt32
  e : UInt32

/-- The words before the first block. -/
def initial : State := ⟨0x67452301, 0xefcdab89, 0x98badcfe, 0x10325476, 0xc3d2e1f0⟩

/-- The order in which the left line takes the words of a block. -/
def leftOrder : List Nat :=
  [0, 1, 2, 3, 4, 5, 6, 7, 8, 9, 10, 11, 12, 13, 14, 15,
   7, 4, 13, 1, 10, 6, 15, 3, 12, 0, 9, 5, 2, 14, 11, 8,
   3, 10, 14, 4, 9, 15, 8, 1, 2, 7, 0, 6, 13, 11, 5, 12,
   1, 9, 11, 10, 0, 8, 12, 4, 13, 3, 7, 15, 14, 5, 6, 2,
   4, 0, 5, 9, 7, 12, 2, 10, 14, 1, 3, 8, 11, 6, 15, 13]

/-- The order in which the right line takes the words of a block. -/
def rightOrder : List Nat :=
  [5, 14, 7, 0, 9, 2, 11, 4, 13, 6, 15, 8, 1, 10, 3, 12,
   6, 11, 3, 7, 0, 13, 5, 10, 14, 15, 8, 12, 4, 9, 1, 2,
   15, 5, 1, 3, 7, 14, 6, 9, 11, 8, 12, 2, 10, 0, 4, 13,
   8, 6, 4, 1, 3, 11, 15, 0, 5, 12, 2, 13, 9, 7, 10, 14,
   12, 15, 10, 4, 1, 5, 8, 7, 6, 2, 13, 14, 0, 3, 9, 11]

/-- The rotation amounts of the left line. -/
def leftTurns : List UInt32 :=
  [11, 14, 15, 12, 5, 8, 7, 9, 11, 13, 14, 15, 6, 7, 9, 8,
   7, 6, 8, 13, 11, 9, 7, 15, 7, 12, 15, 9, 11, 7, 13, 12,
   11, 13, 6, 7, 14, 9, 13, 15, 14, 8, 13, 6, 5, 12, 7, 5,
   11, 12, 14, 15, 14, 15, 9, 8, 9, 14, 5, 6, 8, 6, 5, 12,
   9, 15, 5, 11, 6, 8, 13, 12, 5, 12, 13, 14, 11, 8, 5, 6]

/-- The rotation amounts of the right line. -/
def rightTurns : List UInt32 :=
  [8, 9, 9, 11, 13, 15, 15, 5, 7, 7, 8, 11, 14, 14, 12, 6,
   9, 13, 15, 7, 12, 8, 9, 11, 7, 7, 12, 7, 6, 15, 13, 11,
   9, 7, 15, 11, 8, 6, 6, 14, 12, 13, 5, 14, 13, 13, 7, 5,
   15, 5, 8, 11, 14, 14, 6, 14, 6, 9, 12, 9, 12, 5, 15, 8,
   8, 5, 12, 9, 12, 5, 14, 6, 8, 13, 6, 5, 15, 13, 11, 11]

/-- The constants of the left line, one for each sixteen steps. -/
def leftConstants : List UInt32 := [0x00000000, 0x5a827999, 0x6ed9eba1, 0x8f1bbcdc, 0xa953fd4e]

/-- The constants of the right line, one for each sixteen steps. -/
def rightConstants : List UInt32 := [0x50a28be6, 0x5c4dd124, 0x6d703ef3, 0x7a6d76e9, 0x00000000]

/-- A word turned left by a number of bits between 1 and 31. -/
def rotateLeft (x n : UInt32) : UInt32 := (x <<< n) ||| (x >>> (32 - n))

/-- The mixing function of the sixteen steps numbered `group`. -/
def mix (group : Nat) (x y z : UInt32) : UInt32 :=
  match group with
  | 0 => x ^^^ y ^^^ z
  | 1 => (x &&& y) ||| ((~~~ x) &&& z)
  | 2 => (x ||| (~~~ y)) ^^^ z
  | 3 => (x &&& z) ||| (y &&& (~~~ z))
  | _ => x ^^^ (y ||| (~~~ z))

/-- One step of a line. -/
def step (group : Nat) (constant : UInt32) (turn : UInt32) (word : UInt32) (s : State) : State :=
  let t := rotateLeft (s.a + mix group s.b s.c s.d + word + constant) turn + s.e
  ⟨s.e, t, s.b, rotateLeft s.c 10, s.d⟩

/-- The steps of a line from number `index` on, as many as `order` and `turns` list; the mixing
functions run backwards in the right line. -/
def line (backwards : Bool) (constants : List UInt32) (block : List UInt32) :
    Nat → List Nat → List UInt32 → State → State
  | index, position :: order, turn :: turns, s =>
    let group := index / 16
    line backwards constants block (index + 1) order turns
      (step (if backwards then 4 - group else group) (constants.getD group 0) turn
        (block.getD position 0) s)
  | _, _, _, s => s

/-- The words after a block of sixteen words. -/
def compress (s : State) (block : List UInt32) : State :=
  let l := line false leftConstants block 0 leftOrder leftTurns s
  let r := line true rightConstants block 0 rightOrder rightTurns s
  ⟨s.b + l.c + r.d, s.c + l.d + r.e, s.d + l.e + r.a, s.e + l.a + r.b, s.a + l.b + r.c⟩

/-- Bytes in groups of four as words, least significant byte first. -/
def words : Bytes → List UInt32
  | b0 :: b1 :: b2 :: b3 :: rest => Sha256.word b3 b2 b1 b0 :: words rest
  | _ => []

/-- What is put behind a message of a length: a one bit, zeros, and the length in bits. -/
def padding (length : Nat) : Bytes :=
  0x80 :: (List.replicate ((119 - length % 64) % 64) 0 ++ Bytes.ofNatLE 8 (8 * length))

/-- The first `count` blocks of a padded message, taken in one after the other. -/
def absorb : Nat → State → Bytes → State
  | 0, s, _ => s
  | count + 1, s, message => absorb count (compress s (words (message.take 64))) (message.drop 64)

/-- A word as four bytes, least significant first. -/
def wordBytes (w : UInt32) : Bytes := Bytes.ofNatLE 4 w.toNat

/-- The words written out. -/
def State.digest (s : State) : FixedBytes 20 :=
  ⟨wordBytes s.a ++ wordBytes s.b ++ wordBytes s.c ++ wordBytes s.d ++ wordBytes s.e,
    by simp [wordBytes]⟩

/-- The RIPEMD-160 digest of a byte string. -/
def hash (message : Bytes) : FixedBytes 20 :=
  let padded := message ++ padding message.length
  (absorb (padded.length / 64) initial padded).digest

end TwoWayPeg.Ripemd160

namespace TwoWayPeg

/-- RIPEMD-160 of SHA-256, the twenty bytes that addresses carry. -/
def hash160 (message : Bytes) : FixedBytes 20 := Ripemd160.hash (Sha256.hash message).toList

end TwoWayPeg
