import TwoWayPeg.SortedMap
import TwoWayPeg.Text.Hex

/-!
# Names made of digests

Transactions, blocks and keys are named by digests. Each kind of name is a type of its own, ordered
by its bytes. Names of transactions and blocks are shown with their bytes reversed, the hash of a
key as it stands.

* `Txid.ofText?_text`, `BlockHash.ofText?_text`, `KeyHash.ofText?_text`: a shown name is read back.
-/

namespace TwoWayPeg

/-! ### Transactions -/

/-- The name of a transaction. -/
structure Txid where
  /-- The digest as it is computed. -/
  bytes : FixedBytes 32
deriving DecidableEq

namespace Txid

/-- Names of transactions are ordered by their bytes. -/
instance : KeyOrder Txid := .ofInjective Txid.bytes fun a b h => by cases a; cases b; simp_all

/-- The name in hexadecimal digits, last byte first. -/
def text (t : Txid) : String := Hex.encode t.bytes.reverse.toList

/-- The name that hexadecimal digits spell, last byte first. -/
def ofText? (s : String) : Option Txid := (Hex.decodeExactly? 32 s).map fun b => ⟨b.reverse⟩

/-- The name of a transaction is read back from its text. -/
theorem ofText?_text (t : Txid) : ofText? t.text = some t := by
  simp [ofText?, text, Hex.decodeExactly?, Hex.decodeExactly_encode, Except.toOption]

end Txid

/-! ### Blocks -/

/-- The name of a block. -/
structure BlockHash where
  /-- The digest as it is computed. -/
  bytes : FixedBytes 32
deriving DecidableEq

namespace BlockHash

/-- Names of blocks are ordered by their bytes. -/
instance : KeyOrder BlockHash :=
  .ofInjective BlockHash.bytes fun a b h => by cases a; cases b; simp_all

/-- The name in hexadecimal digits, last byte first. -/
def text (h : BlockHash) : String := Hex.encode h.bytes.reverse.toList

/-- The name that hexadecimal digits spell, last byte first. -/
def ofText? (s : String) : Option BlockHash :=
  (Hex.decodeExactly? 32 s).map fun b => ⟨b.reverse⟩

/-- The name of a block is read back from its text. -/
theorem ofText?_text (h : BlockHash) : ofText? h.text = some h := by
  simp [ofText?, text, Hex.decodeExactly?, Hex.decodeExactly_encode, Except.toOption]

end BlockHash

/-! ### Keys and scripts -/

/-- The short digest that stands for a key or a script in an address. -/
structure KeyHash where
  /-- The digest as it is computed. -/
  bytes : FixedBytes 20
deriving DecidableEq

namespace KeyHash

/-- Key hashes are ordered by their bytes. -/
instance : KeyOrder KeyHash :=
  .ofInjective KeyHash.bytes fun a b h => by cases a; cases b; simp_all

/-- The digest in hexadecimal digits. -/
def text (h : KeyHash) : String := Hex.encode h.bytes.toList

/-- The digest that hexadecimal digits spell. -/
def ofText? (s : String) : Option KeyHash := (Hex.decodeExactly? 20 s).map fun b => ⟨b⟩

/-- A key hash is read back from its text. -/
theorem ofText?_text (h : KeyHash) : ofText? h.text = some h := by
  simp [ofText?, text, Hex.decodeExactly?, Hex.decodeExactly_encode, Except.toOption]

end KeyHash

end TwoWayPeg
