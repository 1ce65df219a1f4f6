import TwoWayPeg.Proofs.Federation.Forming
import TwoWayPeg.Proofs.Federation.RedeemScript
import TwoWayPeg.Proofs.Text.Base58

/-!
# Which federations have an address

Nodes refuse to run a script that takes more than 520 bytes when it is pushed, so what is paid to a
longer script is lost. The limit on the number of members keeps the script that short as long as
their keys are given with one coordinate. Two coordinates take thirty-two bytes more, and then eight
members are too many. Such members still form a federation, which has an output script but no
address. Every other federation has one, and it leads to the output script: the text tells the
payee, and this is the one script that pays it.

* `Script.scriptHash?_eq_some_iff`: which scripts pay to the hash of a script.
* `Address.LeadsTo`: what it means that an address is the one of an output script.
* `Federation.addressed_iff`: which members form a federation with an address.
-/

namespace TwoWayPeg

/-! ### Scripts that pay to the hash of a script -/

namespace Script

/-- **The scripts that pay to the hash of a script** are those that are written so. -/
theorem scriptHash?_eq_some_iff {s : Script} {h : KeyHash} :
    s.scriptHash? = some h ↔ s = payToScriptHash h := by
  constructor
  · intro hs
    unfold scriptHash? at hs
    split at hs
    · next rest =>
      split at hs
      · next hend =>
        obtain ⟨bytes, hbytes, rfl⟩ := Option.map_eq_some_iff.mp hs
        rw [payToScriptHash, FixedBytes.toList_of_ofList? hbytes, ← hend, List.take_append_drop]
      · cases hs
    · cases hs
  · rintro rfl
    simp only [payToScriptHash, scriptHash?, List.take_left' h.bytes.length_eq,
      List.drop_left' h.bytes.length_eq, if_true, FixedBytes.ofList?_toList, Option.map_some]

/-- Such a script does not pay to the hash of a key. -/
theorem keyHash?_payToScriptHash (h : KeyHash) : (payToScriptHash h).keyHash? = none := rfl

end Script

/-! ### Addresses of scripts -/

namespace Address

/-- Who is paid to the hash of a script, by which output script. -/
theorem payee?_eq_some_script_iff {s : Script} {h : KeyHash} :
    payee? s = some (.script h) ↔ s = Script.payToScriptHash h := by
  rw [← Script.scriptHash?_eq_some_iff]
  constructor
  · intro hs
    unfold payee? at hs
    split at hs
    · cases hs
    · split at hs
      · next h' hh' =>
        cases hs
        exact hh'
      · split at hs
        · split at hs <;> cases hs
        · cases hs
  · intro hs
    have hkey : s.keyHash? = none := by
      rw [Script.scriptHash?_eq_some_iff.mp hs, Script.keyHash?_payToScriptHash]
    simp only [payee?, hkey, hs]

/-- **A text is the address of an output script**: it spells a payee, who is read from it, and the
script is the one that pays this payee. -/
structure LeadsTo (network : Network) (spelled : String) (payee : Payee) (script : Script) :
    Prop where
  text : spelled = Address.text network payee
  read : (Base58.decodeChecked? spelled).bind (payeeOfPayload? network) = some payee
  script : ∀ s, payee? s = some payee ↔ s = script

/-- **The address of the hash of a script** leads to the script that pays to it. -/
theorem leadsTo_script (network : Network) (h : KeyHash) :
    LeadsTo network (text network (.script h)) (.script h) (Script.payToScriptHash h) where
  text := rfl
  read := by
    have hversion : scriptVersion network ≠ keyVersion network := by
      cases network <;> decide
    rw [text, Base58.decodeChecked?_encodeChecked, Option.bind_some]
    simp only [payeeOfPayload?, FixedBytes.ofList?_toList, if_neg hversion, if_true]
  script _ := payee?_eq_some_script_iff

end Address

/-! ### Federations -/

namespace Federation

/-- How long a script members have when they form a federation. -/
def scriptSize (ms : List Member) : Nat := 34 * ms.length + 32 * longForms (ms.map (·.btc)) + 3

variable {ms : List Member} {timeMs block : UInt64} {network : Network} {f : Federation}

/-- The script of the federation that members form is that long. -/
theorem length_redeemScript_of_form (h : form ms timeMs block network = .ok f) :
    f.redeemScript.length = scriptSize ms := by
  obtain ⟨-, -, hperm⟩ := members_of_form h
  have hformed : f.IsFormed := ⟨ms, timeMs, block, network, h⟩
  have hkeys : f.btcKeys.Perm (ms.map (·.btc)) := hperm.map _
  have hlong : longForms f.btcKeys = longForms (ms.map (·.btc)) := hkeys.countP_eq _
  rw [hformed.length_redeemScript_eq, hkeys.length_eq, hlong, List.length_map, scriptSize]

/-- A federation whose script is short enough has an address, which leads to its output script. -/
theorem exists_address (h : f.redeemScript.length ≤ maxRedeemScriptSize) :
    ∃ text, f.address = .ok text ∧
      Address.LeadsTo f.network text (.script f.redeemScript.hash) f.payScript := by
  refine ⟨_, ?_, Address.leadsTo_script f.network f.redeemScript.hash⟩
  simp only [address]
  exact if_neg (Nat.not_lt.mpr h)

/-- A federation whose script is too long has no address. -/
theorem address_eq_error (h : maxRedeemScriptSize < f.redeemScript.length) :
    f.address = .error .noAddress := by
  simp only [address]
  exact if_pos h

/-- Members whose keys are all short, or who are few, have a short script. -/
theorem scriptSize_le (hfew : ms.length ≤ maxFederationSize)
    (h : (∀ m ∈ ms, m.btc.isCompressed = true) ∨ ms.length ≤ 7) :
    scriptSize ms ≤ maxRedeemScriptSize := by
  rw [scriptSize, maxRedeemScriptSize]
  rw [maxFederationSize] at hfew
  rcases h with hshort | hseven
  · have hnone : longForms (ms.map (·.btc)) = 0 := by
      rw [longForms, List.countP_eq_zero]
      intro k hk
      obtain ⟨m, hm, rfl⟩ := List.mem_map.mp hk
      simp [hshort m hm]
    omega
  · have hall : longForms (ms.map (·.btc)) ≤ ms.length := by
      have hkeys : (ms.map (·.btc)).length = ms.length := List.length_map _
      rw [← hkeys]
      exact List.countP_le_length
    omega

/-- **Which members form a federation with an address.** The script of a federation has thirty-four
bytes for each member, thirty-two more for each bitcoin key that is given with both coordinates, and
three. The federation has an address if these are no more than 520, and the address then leads to
the output script of the federation; otherwise it has none. They are no more if all keys are given
with one coordinate, or if the members are at most seven. -/
theorem addressed_iff (h : form ms timeMs block network = .ok f) :
    f.redeemScript.length = 34 * ms.length + 32 * longForms (ms.map (·.btc)) + 3 ∧
      (f.redeemScript.length ≤ maxRedeemScriptSize ↔ ∃ text, f.address = .ok text ∧
        Address.LeadsTo network text (.script f.redeemScript.hash) f.payScript) ∧
      (maxRedeemScriptSize < f.redeemScript.length → f.address = .error .noAddress) ∧
      ((∀ m ∈ ms, m.btc.isCompressed = true) ∨ ms.length ≤ 7 →
        f.redeemScript.length ≤ maxRedeemScriptSize) := by
  obtain ⟨-, hfew, -⟩ := members_of_form h
  obtain ⟨-, -, -, hf⟩ := form_eq_ok_iff.mp h
  have hnetwork : f.network = network := by rw [hf]
  refine ⟨length_redeemScript_of_form h, ⟨fun hshort => ?_, ?_⟩, address_eq_error, ?_⟩
  · rw [← hnetwork]
    exact exists_address hshort
  · rintro ⟨text, htext, -⟩
    refine Nat.le_of_not_lt fun hlong => ?_
    rw [address_eq_error hlong] at htext
    cases htext
  · rw [length_redeemScript_of_form h]
    exact scriptSize_le hfew

/-- A multiple of the base point of the curve, as a key with both coordinates. -/
def longKey? (n : Nat) : Option PublicKey :=
  (Secp256k1.baseMultiple n).bind fun p => PublicKey.ofBytes? (PublicKey.longForm p)

/-- Eight members with such keys. -/
def eightMembers : List Member := ((List.range' 1 8).filterMap longKey?).map .ofKey

/-- The eight members form a federation, whose script takes eleven bytes too many. -/
theorem addressed_iff_eight_members :
    ∃ f, form eightMembers 0 0 .regtest = .ok f ∧ f.redeemScript.length = 531 ∧
      f.address = .error .noAddress := by
  have hmembers : eightMembers ≠ [] ∧ eightMembers.length = 8 ∧
      (eightMembers.map (·.btc)).Nodup ∧ longForms (eightMembers.map (·.btc)) = 8 := by
    decide +kernel
  obtain ⟨hne, hlength, hdistinct, hlong⟩ := hmembers
  have hfew : eightMembers.length ≤ maxFederationSize := by rw [hlength]; decide
  have hform : form eightMembers 0 0 .regtest = .ok ⟨ordered eightMembers, 0, 0, .regtest⟩ :=
    form_eq_ok_iff.mpr ⟨hne, hfew, hdistinct, rfl⟩
  obtain ⟨hsize, -, hnone, -⟩ := addressed_iff hform
  rw [hlength, hlong] at hsize
  exact ⟨_, hform, hsize, hnone (by rw [hsize]; decide)⟩

end Federation

end TwoWayPeg
