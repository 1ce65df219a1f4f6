import TwoWayPeg.Bitcoin.Network
import TwoWayPeg.Bitcoin.Script
import TwoWayPeg.Text.Base58
import TwoWayPeg.Text.Bech32

/-!
# Addresses

An address is the text of an output script on a network. Scripts that pay to the hash of a key or of
a script have addresses in base 58, which tell the main network from all others by a version byte;
scripts that pay to a witness program have addresses in base 32, which begin with a name of the
network. Other scripts have none.
-/

namespace TwoWayPeg

/-- What an address pays to. -/
inductive Payee
  | key (hash : KeyHash)
  | script (hash : KeyHash)
  | witness (version : Nat) (program : Bytes)
deriving DecidableEq

namespace Address

/-- The version byte of addresses that pay to a key. -/
def keyVersion : Network → UInt8
  | .bitcoin => 0
  | _ => 111

/-- The version byte of addresses that pay to a script. -/
def scriptVersion : Network → UInt8
  | .bitcoin => 5
  | _ => 196

/-- The name of the network in addresses of witness programs. -/
def witnessName : Network → String
  | .bitcoin => "bc"
  | .regtest => "bcrt"
  | _ => "tb"

/-- The payee of an output script. -/
def payee? (s : Script) : Option Payee :=
  match s.keyHash? with
  | some h => some (.key h)
  | none =>
    match s.scriptHash? with
    | some h => some (.script h)
    | none =>
      match s.witnessProgram? with
      | some (version, program) =>
        if Bech32.validLength version program.length then some (.witness version program) else none
      | none => none

/-- The address of a payee. -/
def text (network : Network) : Payee → String
  | .key h => Base58.encodeChecked (keyVersion network :: h.bytes.toList)
  | .script h => Base58.encodeChecked (scriptVersion network :: h.bytes.toList)
  | .witness version program => Bech32.encode (witnessName network) version program

/-- A script as its address where it has one, and as hexadecimal digits otherwise. -/
def describeScript (network : Network) (s : Script) : String :=
  match payee? s with
  | some p => text network p
  | none => Hex.encode s

/-- The payee of a base 58 payload on a network. -/
def payeeOfPayload? (network : Network) : Bytes → Option Payee
  | version :: rest =>
    match FixedBytes.ofList? 20 rest with
    | none => none
    | some b =>
      if version = keyVersion network then some (.key ⟨b⟩)
      else if version = scriptVersion network then some (.script ⟨b⟩)
      else none
  | [] => none

/-- The payee of an address that belongs to a network. -/
def parse? (network : Network) (s : String) : Option Payee :=
  match Bech32.decode? s with
  | some (name, version, program) =>
    if name = witnessName network then some (.witness version program) else none
  | none =>
    if 50 < s.utf8ByteSize then none
    else (Base58.decodeChecked? s).bind (payeeOfPayload? network)

end Address

end TwoWayPeg
