import TwoWayPeg.Federation.Pending
import TwoWayPeg.Proofs.Federation.Forming

/-!
# What the digest of a pending federation pins

Voters commit to a pending federation by a digest and thereby hand all funds over to its script. The
digest is taken of the staged bitcoin keys in their order, each behind its length. As there is one
order of keys, members that were staged in another order have the same digest and form the same
federation. In the other direction, the lengths tell where each key ends, so the bytes that are
digested tell the keys, and the script of a federation is made of these keys and of nothing else.

* `PendingFederation.eq_of_flatMap_prefixed`: keys behind their lengths can be told apart.
* `PendingFederation.sortedKeys_of_hashedBytes`: the digested bytes tell the keys.
* `PendingFederation.btcKeys_of_form`: a federation has the staged keys, in their order.
* `PendingFederation.hash_pins_custody`: the digest pins the script.
-/

namespace TwoWayPeg.PendingFederation

/-- A key behind its length, as it is digested. -/
def prefixed (k : PublicKey) : Bytes := UInt8.ofNat k.bytes.length :: k.bytes

/-- The length of a key fits a byte. -/
theorem toNat_length_bytes (k : PublicKey) :
    (UInt8.ofNat k.bytes.length).toNat = k.bytes.length := by
  have hlength := PublicKey.length_of_pointOf? k.valid
  rw [UInt8.toNat_ofNat']
  omega

/-- **Keys behind their lengths can be told apart**, whatever encodings they have. -/
theorem eq_of_flatMap_prefixed {keys keys' : List PublicKey}
    (h : keys.flatMap prefixed = keys'.flatMap prefixed) : keys = keys' := by
  induction keys generalizing keys' with
  | nil =>
    cases keys' with
    | nil => rfl
    | cons k' rest' => cases h
  | cons k rest ih =>
    cases keys' with
    | nil => cases h
    | cons k' rest' =>
      rw [List.flatMap_cons, List.flatMap_cons, prefixed, prefixed, List.cons_append,
        List.cons_append] at h
      obtain ⟨hcount, hbytes⟩ := List.cons.inj h
      have hlength : k.bytes.length = k'.bytes.length := by
        rw [← toNat_length_bytes k, ← toNat_length_bytes k', hcount]
      obtain ⟨hkey, hrest⟩ := List.append_inj hbytes hlength
      rw [PublicKey.ext hkey, ih hrest]

variable {p q : PendingFederation}

/-- The staged bitcoin keys in order. -/
def sortedKeys (p : PendingFederation) : List PublicKey := Federation.sortedKeys p.btcKeys

/-- What is digested: how many keys there are, and the keys in order. -/
theorem hashedBytes_eq (p : PendingFederation) :
    p.hashedBytes = Bytes.ofNatBE 4 p.sortedKeys.length ++ p.sortedKeys.flatMap prefixed := by
  rw [hashedBytes, ← Federation.bytes_sortedKeys, List.length_map, List.flatMap_map]
  rfl

/-- **The digested bytes tell the keys.** -/
theorem sortedKeys_of_hashedBytes (h : p.hashedBytes = q.hashedBytes) :
    p.sortedKeys = q.sortedKeys := by
  rw [hashedBytes_eq, hashedBytes_eq] at h
  obtain ⟨-, hkeys⟩ := List.append_inj h (by rw [Bytes.length_ofNatBE, Bytes.length_ofNatBE])
  exact eq_of_flatMap_prefixed hkeys

/-- The same bytes are digested of the same members, staged in any order. -/
theorem hashedBytes_eq_of_perm (hperm : p.members.Perm q.members) :
    p.hashedBytes = q.hashedBytes := by
  have hkeys : p.sortedKeys = q.sortedKeys := Federation.sortedKeys_eq_of_perm (hperm.map _)
  rw [hashedBytes_eq, hashedBytes_eq, hkeys]

/-- **A federation has the staged keys**, in their order. -/
theorem btcKeys_of_form {timeMs block : UInt64} {network : Network} {f : Federation}
    (h : p.form timeMs block network = .ok f) : f.btcKeys = p.sortedKeys := by
  obtain ⟨-, -, -, rfl⟩ := Federation.form_eq_ok_iff.mp h
  exact Federation.btc_ordered p.members

/-- The scripts of a federation are made of its bitcoin keys. -/
theorem scripts_eq_of_btcKeys {f g : Federation} (h : f.btcKeys = g.btcKeys) :
    f.threshold = g.threshold ∧ f.redeemScript = g.redeemScript ∧ f.payScript = g.payScript := by
  have hsize : f.size = g.size := by
    have hlength := congrArg List.length h
    rw [Federation.btcKeys, Federation.btcKeys, List.length_map, List.length_map] at hlength
    exact hlength
  have hthreshold : f.threshold = g.threshold := by rw [Federation.threshold, hsize]; rfl
  have hscript : f.redeemScript = g.redeemScript := by
    rw [Federation.redeemScript, hthreshold, h]
    rfl
  exact ⟨hthreshold, hscript, by rw [Federation.payScript, hscript]; rfl⟩

/-- **The digest of a commit pins the script.** Pending federations with the same members, in any
order of staging, have one digest, and they form the same federation or fail to form one for the
same reason; they form one exactly if the members are some, not too many, and have different bitcoin
keys. In the other direction, two pending federations with one digest have the same bitcoin keys in
the same encodings, if the digest does not collide on what is digested for the two. Then the
federations that they form, at whatever times, have the same threshold, the same script and the same
output script. -/
theorem hash_pins_custody (p q : PendingFederation) :
    (p.members.Perm q.members →
        p.hash = q.hash ∧ ∀ timeMs block network,
          p.form timeMs block network = q.form timeMs block network ∧
          ((∃ f, p.form timeMs block network = .ok f) ↔
            p.members ≠ [] ∧ p.size ≤ maxFederationSize ∧ p.btcKeys.Nodup)) ∧
      ((Keccak256.hash p.hashedBytes = Keccak256.hash q.hashedBytes →
          p.hashedBytes = q.hashedBytes) →
        p.hash = q.hash →
          p.sortedKeys = q.sortedKeys ∧
          ∀ timeMs block network f timeMs' block' network' g,
            p.form timeMs block network = .ok f → q.form timeMs' block' network' = .ok g →
              f.btcKeys = g.btcKeys ∧ f.threshold = g.threshold ∧
                f.redeemScript = g.redeemScript ∧ f.payScript = g.payScript) := by
  constructor
  · intro hperm
    refine ⟨congrArg Keccak256.hash (hashedBytes_eq_of_perm hperm), ?_⟩
    refine fun timeMs block network => ⟨?_, ?_⟩
    · exact Federation.form_eq_of_perm hperm timeMs block network
    · constructor
      · rintro ⟨f, hf⟩
        obtain ⟨hne, hsize, hdistinct, -⟩ := Federation.form_eq_ok_iff.mp hf
        exact ⟨hne, hsize, hdistinct⟩
      · rintro ⟨hne, hsize, hdistinct⟩
        exact ⟨_, Federation.form_eq_ok_iff.mpr ⟨hne, hsize, hdistinct, rfl⟩⟩
  · intro hfree hhash
    have hkeys := sortedKeys_of_hashedBytes (hfree hhash)
    refine ⟨hkeys, ?_⟩
    intro timeMs block network f timeMs' block' network' g hf hg
    have hsame : f.btcKeys = g.btcKeys := by rw [btcKeys_of_form hf, btcKeys_of_form hg, hkeys]
    exact ⟨hsame, scripts_eq_of_btcKeys hsame⟩

/-- The base point of the curve has a short encoding. -/
theorem shortForm_valid : (PublicKey.pointOf? (PublicKey.shortForm Secp256k1.base)).isSome := by
  decide +kernel

/-- The base point of the curve has a long encoding. -/
theorem longForm_valid : (PublicKey.pointOf? (PublicKey.longForm Secp256k1.base)).isSome := by
  decide +kernel

/-- The base point as a key in its short encoding. -/
def shortKey : PublicKey := ⟨PublicKey.shortForm Secp256k1.base, shortForm_valid⟩

/-- The base point as a key in its long encoding. -/
def longKey : PublicKey := ⟨PublicKey.longForm Secp256k1.base, longForm_valid⟩

/-- Two encodings of one point are staged in both orders: the digest is the same, and so is the
script, whenever and for whatever network the federations are formed. -/
theorem hash_pins_custody_two_encodings :
    let p : PendingFederation := ⟨[.ofKey shortKey, .ofKey longKey]⟩
    let q : PendingFederation := ⟨[.ofKey longKey, .ofKey shortKey]⟩
    (p.members.Perm q.members ∧
        (Keccak256.hash p.hashedBytes = Keccak256.hash q.hashedBytes →
          p.hashedBytes = q.hashedBytes)) ∧
      p.hash = q.hash ∧ p.sortedKeys = q.sortedKeys ∧
      ∃ f g, p.form 0 0 .regtest = .ok f ∧ q.form 1000 1 .bitcoin = .ok g ∧
        f.redeemScript = g.redeemScript ∧ f.payScript = g.payScript := by
  intro p q
  have hperm : p.members.Perm q.members := .swap _ _ _
  have hfree : Keccak256.hash p.hashedBytes = Keccak256.hash q.hashedBytes →
      p.hashedBytes = q.hashedBytes := fun _ => hashedBytes_eq_of_perm hperm
  have hforms (r : PendingFederation) (hr : r = p ∨ r = q) :
      r.members ≠ [] ∧ r.size ≤ maxFederationSize ∧ r.btcKeys.Nodup := by
    rcases hr with rfl | rfl
    · decide +kernel
    · decide +kernel
  obtain ⟨hforward, hback⟩ := hash_pins_custody p q
  obtain ⟨hhash, hboth⟩ := hforward hperm
  obtain ⟨hkeys, hscripts⟩ := hback hfree hhash
  obtain ⟨f, hf⟩ := (hboth 0 0 .regtest).2.mpr (hforms p (.inl rfl))
  obtain ⟨g, hg⟩ := ((hash_pins_custody q p).1 hperm.symm).2 1000 1 .bitcoin |>.2.mpr
    (hforms q (.inr rfl))
  obtain ⟨-, -, hredeem, hpay⟩ := hscripts _ _ _ f _ _ _ g hf hg
  exact ⟨⟨hperm, hfree⟩, hhash, hkeys, f, g, hf, hg, hredeem, hpay⟩

end TwoWayPeg.PendingFederation
