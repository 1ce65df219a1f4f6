import TwoWayPeg.Bytes

/-!
# Keccak-256

The hash of the host chain: the sponge over the permutation of twenty-five 64-bit lanes with a rate
of 136 bytes and the padding of the first submission, which begins with a one byte. Lane `x + 5 * y`
of the list is the lane of column `x` and row `y`.
-/

namespace TwoWayPeg.Keccak256

/-! ### The permutation -/

/-- The constants of the twenty-four rounds. -/
def roundConstants : List UInt64 :=
  [0x0000000000000001, 0x0000000000008082, 0x800000000000808a, 0x8000000080008000,
   0x000000000000808b, 0x0000000080000001, 0x8000000080008081, 0x8000000000008009,
   0x000000000000008a, 0x0000000000000088, 0x0000000080008009, 0x000000008000000a,
   0x000000008000808b, 0x800000000000008b, 0x8000000000008089, 0x8000000000008003,
   0x8000000000008002, 0x8000000000000080, 0x000000000000800a, 0x800000008000000a,
   0x8000000080008081, 0x8000000000008080, 0x0000000080000001, 0x8000000080008008]

/-- How far each lane is turned, in the order of the lanes. -/
def turns : List UInt64 :=
  [0, 1, 62, 28, 27, 36, 44, 6, 55, 20, 3, 10, 43, 25, 39, 41, 45, 15, 21, 8, 18, 2, 61, 56, 14]

/-- For each place the lane that moves there. -/
def sources : List Nat :=
  [0, 6, 12, 18, 24, 3, 9, 10, 16, 22, 1, 7, 13, 19, 20, 4, 5, 11, 17, 23, 2, 8, 14, 15, 21]

/-- A lane turned left by fewer than 64 bits. -/
def rotateLeft (x n : UInt64) : UInt64 := if n = 0 then x else (x <<< n) ||| (x >>> (64 - n))

/-- The exclusive or of the five lanes of a column. -/
def column (lanes : List UInt64) (x : Nat) : UInt64 :=
  lanes.getD x 0 ^^^ lanes.getD (x + 5) 0 ^^^ lanes.getD (x + 10) 0 ^^^ lanes.getD (x + 15) 0 ^^^
    lanes.getD (x + 20) 0

/-- The five columns mixed into their neighbours. -/
def theta (lanes : List UInt64) : List UInt64 :=
  let columns := (List.range 5).map (column lanes)
  let change := (List.range 5).map fun x =>
    columns.getD ((x + 4) % 5) 0 ^^^ rotateLeft (columns.getD ((x + 1) % 5) 0) 1
  lanes.zipIdx.map fun (lane, i) => lane ^^^ change.getD (i % 5) 0

/-- Every lane turned and moved to its place. -/
def rhoPi (lanes : List UInt64) : List UInt64 :=
  let turned := List.zipWith rotateLeft lanes turns
  sources.map fun i => turned.getD i 0

/-- Every lane combined with the two that follow it in its row. -/
def chi (lanes : List UInt64) : List UInt64 :=
  lanes.zipIdx.map fun (lane, i) =>
    let row := 5 * (i / 5)
    lane ^^^ ((~~~ lanes.getD (row + (i + 1) % 5) 0) &&& lanes.getD (row + (i + 2) % 5) 0)

/-- A round constant added to the first lane. -/
def iota (constant : UInt64) : List UInt64 → List UInt64
  | [] => []
  | lane :: rest => (lane ^^^ constant) :: rest

/-- The permutation of the state. -/
def permute (lanes : List UInt64) : List UInt64 :=
  roundConstants.foldl (fun s constant => iota constant (chi (rhoPi (theta s)))) lanes

/-! ### The sponge -/

/-- Bytes in groups of eight as lanes, least significant byte first. -/
def lanes : Bytes → List UInt64
  | b0 :: b1 :: b2 :: b3 :: b4 :: b5 :: b6 :: b7 :: rest =>
    UInt64.ofNat (Bytes.toNatLE [b0, b1, b2, b3, b4, b5, b6, b7]) :: lanes rest
  | _ => []

/-- A message filled up to a whole number of blocks. -/
def pad (message : Bytes) : Bytes :=
  let free := 136 - message.length % 136
  if free = 1 then message ++ [0x81]
  else message ++ 0x01 :: (List.replicate (free - 2) 0 ++ [0x80])

/-- The first `count` blocks taken in one after the other. -/
def absorb : Nat → List UInt64 → Bytes → List UInt64
  | 0, state, _ => state
  | count + 1, state, message =>
    let block := lanes (message.take 136) ++ List.replicate 8 0
    absorb count (permute (List.zipWith (· ^^^ ·) state block)) (message.drop 136)

/-- The Keccak-256 digest of a byte string. -/
def hash (message : Bytes) : FixedBytes 32 :=
  let padded := pad message
  let state := absorb (padded.length / 136) (List.replicate 25 0) padded
  let lane (i : Nat) := Bytes.ofNatLE 8 (state.getD i 0).toNat
  ⟨lane 0 ++ lane 1 ++ lane 2 ++ lane 3, by simp [lane]⟩

end TwoWayPeg.Keccak256
