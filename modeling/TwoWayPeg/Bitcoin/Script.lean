import TwoWayPeg.Bitcoin.Digest
import TwoWayPeg.Hash.Ripemd160

/-!
# Scripts

A script is a byte string that reads as a list of instructions: pushes of data and operations. Of
all operations the peg only needs to know that they are not pushes, except for the three standard
output scripts that it pays to or recognises.

* `Script.instructions` reads a script; a push that runs past the end is `truncated` and last.
* `Script.push` writes a push with the shortest length form.
-/

namespace TwoWayPeg

/-- A script as its bytes. -/
abbrev Script := Bytes

namespace Script

/-! ### Reading -/

/-- One instruction of a script. -/
inductive Instruction
  | push (data : Bytes)
  | op (code : UInt8)
  /-- A push that announces more bytes than are left. -/
  | truncated
deriving DecidableEq

/-- A push of `n` bytes and what follows it. -/
def takePush (n : Nat) (rest : Bytes) : Instruction × Bytes :=
  if rest.length < n then (.truncated, []) else (.push (rest.take n), rest.drop n)

/-- A push whose length is written in `width` bytes, and what follows it. -/
def takeSizedPush (width : Nat) (rest : Bytes) : Instruction × Bytes :=
  if rest.length < width then (.truncated, [])
  else takePush (Bytes.toNatLE (rest.take width)) (rest.drop width)

/-- The instruction that a code begins, and what follows it. -/
def next (code : UInt8) (rest : Bytes) : Instruction × Bytes :=
  if code.toNat < 76 then takePush code.toNat rest
  else if code.toNat = 76 then takeSizedPush 1 rest
  else if code.toNat = 77 then takeSizedPush 2 rest
  else if code.toNat = 78 then takeSizedPush 4 rest
  else (.op code, rest)

/-- Taking a push leaves no more than there was. -/
theorem length_takePush_le (n : Nat) (rest : Bytes) :
    (takePush n rest).2.length ≤ rest.length := by
  unfold takePush; split <;> simp

/-- Taking a push with its length leaves no more than there was. -/
theorem length_takeSizedPush_le (width : Nat) (rest : Bytes) :
    (takeSizedPush width rest).2.length ≤ rest.length := by
  unfold takeSizedPush
  split
  · simp
  · have := length_takePush_le (Bytes.toNatLE (rest.take width)) (rest.drop width)
    simp only [List.length_drop] at this
    omega

/-- Taking an instruction leaves no more than there was. -/
theorem length_next_le (code : UInt8) (rest : Bytes) :
    (next code rest).2.length ≤ rest.length := by
  unfold next
  split
  · exact length_takePush_le _ _
  · split
    · exact length_takeSizedPush_le _ _
    · split
      · exact length_takeSizedPush_le _ _
      · split
        · exact length_takeSizedPush_le _ _
        · simp

/-- The instructions of a script, in order. -/
def instructions : Script → List Instruction
  | [] => []
  | code :: rest =>
    have := length_next_le code rest
    (next code rest).1 :: instructions (next code rest).2
termination_by s => s.length
decreasing_by simp only [List.length_cons]; omega

/-- The data of an instruction that is a push. -/
def Instruction.data? : Instruction → Option Bytes
  | .push data => some data
  | _ => none

/-- The data that a script pushes, if it does nothing but push. -/
def chunks (s : Script) : Option (List Bytes) := s.instructions.mapM Instruction.data?

/-- The data of all pushes of a script, whatever else it does. -/
def pushes (s : Script) : List Bytes := s.instructions.filterMap Instruction.data?

/-! ### Writing -/

/-- A push of data, its length in the shortest form. -/
def push (data : Bytes) : Script :=
  let n := data.length
  if n < 76 then UInt8.ofNat n :: data
  else if n < 0x100 then 76 :: (Bytes.ofNatLE 1 n ++ data)
  else if n < 0x10000 then 77 :: (Bytes.ofNatLE 2 n ++ data)
  else 78 :: (Bytes.ofNatLE 4 n ++ data)

/-- The script that pushes chunks of data, none where a chunk is too long for a push. -/
def ofChunks? (cs : List Bytes) : Option Script :=
  if cs.all fun c => c.length < UInt32.size then some (cs.flatMap push) else none

/-- A number in as few bytes as possible, least significant first, with the sign in the top bit. -/
def numberBytes (n : Nat) : Bytes :=
  if n = 0 then []
  else
    let width := n.log2 / 8 + 1
    let magnitude := Bytes.ofNatLE width n
    if n < 1 <<< (8 * width - 1) then magnitude else magnitude ++ [0]

/-- A push of a number; small numbers have codes of their own. -/
def pushNumber (n : Nat) : Script :=
  if n = 0 then [0x00]
  else if n ≤ 16 then [UInt8.ofNat (0x50 + n)]
  else push (numberBytes n)

/-! ### Standard output scripts -/

/-- The digest that stands for a script in an address. -/
def hash (s : Script) : KeyHash := ⟨hash160 s⟩

/-- The script that pays to whoever holds the key of a digest. -/
def payToKeyHash (h : KeyHash) : Script := 0x76 :: 0xA9 :: 0x14 :: (h.bytes.toList ++ [0x88, 0xAC])

/-- The script that pays to whoever satisfies the script of a digest. -/
def payToScriptHash (h : KeyHash) : Script := 0xA9 :: 0x14 :: (h.bytes.toList ++ [0x87])

/-- The digest that a script pays to by key. -/
def keyHash? : Script → Option KeyHash
  | 0x76 :: 0xA9 :: 0x14 :: rest =>
    if rest.drop 20 = [0x88, 0xAC] then (FixedBytes.ofList? 20 (rest.take 20)).map KeyHash.mk
    else none
  | _ => none

/-- The digest that a script pays to by script. -/
def scriptHash? : Script → Option KeyHash
  | 0xA9 :: 0x14 :: rest =>
    if rest.drop 20 = [0x87] then (FixedBytes.ofList? 20 (rest.take 20)).map KeyHash.mk else none
  | _ => none

/-- The version and the program of a script that pays to a witness program. -/
def witnessProgram? : Script → Option (Nat × Bytes)
  | code :: length :: program =>
    let version :=
      if code = 0x00 then some 0
      else if 0x51 ≤ code ∧ code ≤ 0x60 then some (code.toNat - 0x50)
      else none
    if 2 ≤ program.length ∧ program.length ≤ 40 ∧ length.toNat = program.length then
      version.map fun v => (v, program)
    else none
  | _ => none

end Script

end TwoWayPeg
