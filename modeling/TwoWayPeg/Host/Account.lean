import TwoWayPeg.Bitcoin.PublicKey
import TwoWayPeg.Hash.Keccak256

/-!
# Accounts and transactions of the host chain

The host chain keeps accounts, which are named by twenty bytes, and calls the peg from transactions,
which are named by digests. An account that belongs to a key is named by the end of the digest of
the key's point, whichever encoding the key has.

Both names are read from hexadecimal digits with or without `0x` in front.

* `HostAddress.ofText_text`, `HostTxHash.ofText_text`: a shown name is read back.
-/

namespace TwoWayPeg

/-- What follows all marks `0x` in front of a text. -/
def stripHexMarks : List Char → List Char
  | '0' :: 'x' :: rest => stripHexMarks rest
  | cs => cs

/-! ### Accounts -/

/-- The name of an account. -/
structure HostAddress where
  bytes : FixedBytes 20
deriving DecidableEq

namespace HostAddress

/-- Accounts are ordered by their bytes. -/
instance : KeyOrder HostAddress :=
  .ofInjective HostAddress.bytes fun a b h => by cases a; cases b; simp_all

/-- The name in hexadecimal digits, with its mark. -/
def text (a : HostAddress) : String := "0x" ++ Hex.encode a.bytes.toList

/-- The name that hexadecimal digits spell. -/
def ofText (s : String) : Except HexError HostAddress :=
  (Hex.decodeExactly 20 (String.ofList (stripHexMarks s.toList))).map HostAddress.mk

/-- The account of a key. -/
def ofKey (k : PublicKey) : HostAddress :=
  let digest := Keccak256.hash ((PublicKey.longForm k.point).drop 1)
  ⟨digest.toList.drop 12, by simp [digest.length_eq]⟩

/-- The account that holds all that is locked. -/
def bridge : HostAddress := ⟨.ofNat 20 0x01000006⟩

/-- The account from which nothing comes back. -/
def burn : HostAddress := ⟨.replicate 20 0⟩

end HostAddress

/-! ### Transactions -/

/-- The name of a transaction. -/
structure HostTxHash where
  bytes : FixedBytes 32
deriving DecidableEq

namespace HostTxHash

/-- Names of host transactions are ordered by their bytes. -/
instance : KeyOrder HostTxHash :=
  .ofInjective HostTxHash.bytes fun a b h => by cases a; cases b; simp_all

/-- The name in hexadecimal digits. -/
def text (h : HostTxHash) : String := Hex.encode h.bytes.toList

/-- The name that hexadecimal digits spell. -/
def ofText (s : String) : Except HexError HostTxHash :=
  (Hex.decodeExactly 32 (String.ofList (stripHexMarks s.toList))).map HostTxHash.mk

end HostTxHash

/-- A transaction that calls the peg. -/
structure HostTransaction where
  hash : HostTxHash
  sender : HostAddress
  /-- The key that signed it, where it is known. -/
  senderKey : Option PublicKey
  /-- The host units that come with the call. -/
  value : Nat
  /-- Whether the call comes from a contract. -/
  fromContract : Bool

/-- A transaction that the holder of a key has signed. -/
def HostTransaction.signedBy (hash : HostTxHash) (key : PublicKey) (value : Nat) :
    HostTransaction :=
  ⟨hash, .ofKey key, some key, value, false⟩

/-- The block in which the peg is called. -/
structure ExecutionBlock where
  number : UInt64
  timestampMs : UInt64

/-! ### Names are read back -/

/-- Digits that are written do not begin with a mark. -/
theorem stripHexMarks_encode (b : Bytes) :
    stripHexMarks (Hex.encode b).toList = (Hex.encode b).toList := by
  cases b with
  | nil => rfl
  | cons x rest =>
    have hne : ∀ n : Fin 16, Hex.digit n.val ≠ 'x' := by decide
    have hx := x.toNat_lt
    have := hne ⟨x.toNat % 16, by omega⟩
    simp only [Hex.encode, List.flatMap_cons, Hex.encodeByte, List.cons_append,
      String.toList_ofList]
    unfold stripHexMarks
    split
    · next h => simp at h; exact absurd h.2.1 this
    · rfl

/-- An account is read back from its text. -/
theorem HostAddress.ofText_text (a : HostAddress) : ofText a.text = .ok a := by
  have h : stripHexMarks a.text.toList = (Hex.encode a.bytes.toList).toList := by
    simp only [text, String.toList_append]
    exact stripHexMarks_encode _
  simp [ofText, h, Hex.decodeExactly_encode, Except.map]

/-- The name of a host transaction is read back from its text. -/
theorem HostTxHash.ofText_text (a : HostTxHash) : ofText a.text = .ok a := by
  simp [ofText, text, stripHexMarks_encode, Hex.decodeExactly_encode, Except.map]

end TwoWayPeg
