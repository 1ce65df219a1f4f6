import TwoWayPeg.Bitcoin.Address
import TwoWayPeg.Host.Account
import TwoWayPeg.Text.Plain

/-!
# Federations

A federation holds the locked bitcoin in common. Each member has three keys, and the bitcoin keys of
all members, in the order of their bytes, make the script that a majority of them can satisfy. The
order is fixed when the federation is formed, so that the same members always make the same script.
-/

namespace TwoWayPeg

/-- What a key of a member is for. -/
inductive KeyRole
  /-- Signing bitcoin transactions. -/
  | btc
  /-- Signing transactions of the host chain. -/
  | host
  /-- An auxiliary key. -/
  | mst
deriving DecidableEq

/-- The name of the role. -/
def KeyRole.title : KeyRole → String
  | btc => "Btc"
  | host => "Host"
  | mst => "Mst"

/-- All roles. -/
def KeyRole.all : List KeyRole := [btc, host, mst]

/-- The role of a name in any case. -/
def KeyRole.ofName? (s : String) : Option KeyRole :=
  let name := Text.folded s
  if name = "btc" then some .btc
  else if name = "host" ∨ name = "rsk" then some .host
  else if name = "mst" then some .mst
  else none

/-- A member of a federation. -/
structure Member where
  btc : PublicKey
  host : PublicKey
  mst : PublicKey
deriving DecidableEq

namespace Member

/-- A member with one key for everything. -/
def ofKey (k : PublicKey) : Member := ⟨k, k, k⟩

/-- The key for a purpose. -/
def key (m : Member) : KeyRole → PublicKey
  | .btc => m.btc
  | .host => m.host
  | .mst => m.mst

/-- The account that the member calls the peg from. -/
def hostAddress (m : Member) : HostAddress := .ofKey m.host

end Member

/-- The most members a federation can have. -/
def maxFederationSize : Nat := 15

/-- The longest script that an input can push in order to satisfy its digest. -/
def maxRedeemScriptSize : Nat := 520

/-- Why members do not make a federation, or a federation has no address. -/
inductive FederationError
  | empty
  | tooManyMembers (count : Nat)
  | duplicateKey (key : PublicKey)
  /-- The script is too long to be satisfied. -/
  | noAddress
deriving DecidableEq

/-- The name of the kind of error. -/
def FederationError.kind : FederationError → String
  | empty => "Empty"
  | tooManyMembers _ => "TooManyMembers"
  | duplicateKey _ => "DuplicateKey"
  | noAddress => "Address"

/-- The error in words. -/
def FederationError.message : FederationError → String
  | empty => "federation has no members"
  | tooManyMembers n => s!"federation of {n} members exceeds the maximum of {maxFederationSize}"
  | duplicateKey k => "duplicate federator key: " ++ k.text
  | noAddress => "cannot derive federation address: "

/-- A federation as it is recorded. -/
structure Federation where
  members : List Member
  creationTimeMs : UInt64
  creationBlock : UInt64
  network : Network
deriving DecidableEq

namespace Federation

/-! ### Forming a federation -/

/-- Whether one byte string does not come after another. -/
def notAfter (a b : Bytes) : Bool := Bytes.cmp a b != .gt

/-- Members in the order of their bitcoin keys. -/
def ordered (ms : List Member) : List Member :=
  ms.mergeSort fun a b => notAfter a.btc.bytes b.btc.bytes

/-- The first bitcoin key that two neighbours of a list share. -/
def repeatedKey? : List Member → Option PublicKey
  | a :: b :: rest => if a.btc = b.btc then some a.btc else repeatedKey? (b :: rest)
  | _ => none

/-- The federation of a list of members, provided they are neither too few nor too many and no two
share a bitcoin key. -/
def form (ms : List Member) (timeMs block : UInt64) (network : Network) :
    Except FederationError Federation :=
  if ms.isEmpty then .error .empty
  else if maxFederationSize < ms.length then .error (.tooManyMembers ms.length)
  else
    let sorted := ordered ms
    match repeatedKey? sorted with
    | some k => .error (.duplicateKey k)
    | none => .ok ⟨sorted, timeMs, block, network⟩

/-! ### Size and keys -/

/-- The number of members. -/
def size (f : Federation) : Nat := f.members.length

/-- The number of signatures that spend: more than half of the members. -/
def threshold (f : Federation) : Nat := f.size / 2 + 1

/-- The bitcoin keys in the order of the members. -/
def btcKeys (f : Federation) : List PublicKey := f.members.map (·.btc)

/-- Whether a key is the bitcoin key of a member. -/
def hasKey (f : Federation) (k : PublicKey) : Bool := f.btcKeys.contains k

/-- The place of a bitcoin key among the members. -/
def keyIndex? (f : Federation) (k : PublicKey) : Option Nat := f.btcKeys.findIdx? (· == k)

/-- A key of the member at a place. -/
def keyAt? (f : Federation) (index : Nat) (role : KeyRole) : Option PublicKey :=
  f.members[index]?.map fun m => m.key role

/-! ### Scripts and address -/

/-- The script of a vote among keys: a threshold, the keys, their number and the check. -/
def multisigScript (threshold : Nat) (keys : List PublicKey) : Script :=
  Script.pushNumber threshold ++ keys.flatMap (fun k => Script.push k.bytes) ++
    Script.pushNumber keys.length ++ [0xAE]

/-- The script that a majority of the members can satisfy. -/
def redeemScript (f : Federation) : Script := multisigScript f.threshold f.btcKeys

/-- The output script that pays to the federation. -/
def payScript (f : Federation) : Script := Script.payToScriptHash f.redeemScript.hash

/-- The address that pays to the federation. -/
def address (f : Federation) : Except FederationError String :=
  let redeem := f.redeemScript
  if maxRedeemScriptSize < redeem.length then .error .noAddress
  else .ok (Address.text f.network (.script redeem.hash))

end Federation

end TwoWayPeg
