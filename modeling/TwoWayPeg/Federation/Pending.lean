import TwoWayPeg.Federation.Basic

/-!
# Federations in the making

Members are staged one by one until the federation is committed. Voters name what they commit to by
a digest of the staged bitcoin keys, which depends neither on the order of staging nor on the other
keys.
-/

namespace TwoWayPeg

/-- The staged members, in the order of staging. -/
structure PendingFederation where
  members : List Member
deriving DecidableEq

namespace PendingFederation

/-- No member yet. -/
def empty : PendingFederation := ⟨[]⟩

/-- The number of staged members. -/
def size (p : PendingFederation) : Nat := p.members.length

/-- The staged bitcoin keys. -/
def btcKeys (p : PendingFederation) : List PublicKey := p.members.map (·.btc)

/-- Whether there are enough members. -/
def isComplete (p : PendingFederation) (least : Nat) : Bool := least ≤ p.size

/-- Whether two members share a key for the same purpose. -/
def shareKey (a b : Member) : Bool := a.btc == b.btc || a.host == b.host || a.mst == b.mst

/-- Whether a staged member shares a key with a candidate. -/
def conflictsWith (p : PendingFederation) (candidate : Member) : Bool :=
  p.members.any (shareKey · candidate)

/-- The staged members and one more. -/
def add (p : PendingFederation) (m : Member) : PendingFederation := ⟨p.members ++ [m]⟩

/-- What the digest is taken of: the number of keys, then each key behind its length, in the order
of their bytes. -/
def hashedBytes (p : PendingFederation) : Bytes :=
  let keys := (p.btcKeys.map PublicKey.bytes).mergeSort Federation.notAfter
  Bytes.ofNatBE 4 keys.length ++ keys.flatMap fun k => UInt8.ofNat k.length :: k

/-- The digest that voters commit to. -/
def hash (p : PendingFederation) : FixedBytes 32 := Keccak256.hash p.hashedBytes

/-- The federation of the staged members. -/
def form (p : PendingFederation) (timeMs block : UInt64) (network : Network) :
    Except FederationError Federation :=
  Federation.form p.members timeMs block network

end PendingFederation

end TwoWayPeg
