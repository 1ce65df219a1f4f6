import Mathlib.Data.List.Forall2
import Mathlib.Data.List.InsertIdx
import TwoWayPeg.Proofs.Curve.Encoding
import TwoWayPeg.Proofs.Release.Frame

/-!
# The slots of one input

While signatures are collected, an input pushes an empty string, the signatures that it has, empty
strings for those it lacks, and the script of its federation. The place of a new signature is not
kept anywhere: it is found again by checking each slot against each key. That it is found at all,
and that it is the right one, needs that what stands in the slots was signed by listed keys, in
their order.

* `Demand.Collects`: what an input is like, with the signatures it has.
* `Demand.collects_placeholder`: an input without signatures.
* `Demand.exists_slotPosition`, `Demand.Collects.exists_insert`: the place of a new signature is
  found, and the order is kept.
* `Demand.signInput_cases`: signing one input keeps it so, and it never fails.
* `Demand.Collects.satisfied`: an input all of whose slots are filled has so many signatures of
  different keys, and it passes the check of its script.
-/

namespace TwoWayPeg.PendingSignatures

/-! ### Signatures in slots -/

/-- What is known of a signature that has been read and checked. -/
theorem readSignature_eq_some {der : Bytes} {digest : FixedBytes 32} {key : PublicKey}
    {sig : Ecdsa.Signature} :
    readSignature der digest key = some sig ↔
      Ecdsa.Signature.decode? der = some sig ∧ sig.isLow = true ∧
        Ecdsa.verify digest sig key.point = true := by
  unfold readSignature
  rcases Ecdsa.Signature.decode? der with - | sig'
  · simp
  · simp only [Bool.and_eq_true, Option.some.injEq]
    constructor
    · intro h
      split at h
      · next hchecked =>
        cases h
        exact ⟨rfl, hchecked⟩
      · cases h
    · rintro ⟨rfl, hchecked⟩
      rw [if_pos hchecked]

/-- The slot that a signature fills. -/
def slotOf (sig : Ecdsa.Signature) : Bytes := sig.encode ++ [commitsToAll]

/-- A filled slot is not empty. -/
theorem slotOf_ne_nil (sig : Ecdsa.Signature) : slotOf sig ≠ [] := by
  simp [slotOf]

/-- A filled slot was signed by a key if its signature is one of the key. -/
theorem slotSignedBy_slotOf {sig : Ecdsa.Signature} (h : sig.Reduced) (digest : FixedBytes 32)
    (key : PublicKey) :
    slotSignedBy (slotOf sig) digest key = Ecdsa.verify digest sig key.point := by
  have hcommitment : commitments.contains commitsToAll = true := by decide
  simp only [slotSignedBy, slotOf, List.getLast?_concat, List.dropLast_concat, hcommitment,
    Bool.true_and, Ecdsa.Signature.decode?_encode h]

/-- A slot filled with a signature of a key was signed by the key. -/
theorem slotSignedBy_of_readSignature {sig : Ecdsa.Signature} {digest : FixedBytes 32}
    {key : PublicKey} (h : readSignature sig.encode digest key = some sig) :
    slotSignedBy (slotOf sig) digest key = true := by
  obtain ⟨hdecode, -, hverify⟩ := readSignature_eq_some.mp h
  rw [slotSignedBy_slotOf (Ecdsa.Signature.reduced_of_decode? hdecode)]
  exact hverify

/-- **A signature that has been read** fills a slot with no more bytes than are kept free for it. -/
theorem length_slotOf_le {der : Bytes} {digest : FixedBytes 32} {key : PublicKey}
    {sig : Ecdsa.Signature} (h : readSignature der digest key = some sig) :
    (slotOf sig).length ≤ Wallet.signatureSize := by
  obtain ⟨hdecode, hlow, -⟩ := readSignature_eq_some.mp h
  have hreduced := Ecdsa.Signature.reduced_of_decode? hdecode
  rw [slotOf, List.length_append, List.length_singleton]
  exact Nat.succ_le_succ (Ecdsa.Signature.length_encode_le_of_isLow hreduced hlow)

/-- Any signatures can fill slots, as long as none is longer than one byte can announce. -/
theorem exists_fill_of_short {signatures : List Bytes} {redeem : Script} (slots : Nat)
    (hredeem : redeem.length < UInt32.size) (hshort : ∀ s ∈ signatures, s.length < 76) :
    ∃ script, fill slots signatures redeem = some script := by
  have hfits : 76 < UInt32.size := by decide
  apply Script.exists_ofChunks?
  intro chunk hchunk
  simp only [List.mem_cons, List.mem_append, List.mem_replicate, List.not_mem_nil,
    or_false] at hchunk
  rcases hchunk with rfl | (hsignature | ⟨-, rfl⟩) | rfl
  · decide
  · exact Nat.lt_trans (hshort chunk hsignature) hfits
  · decide
  · exact hredeem

/-- A signature and the place of its key among the listed ones. -/
structure PlacedSignature where
  place : Nat
  signature : Ecdsa.Signature

/-- The slot that is filled. -/
def PlacedSignature.slot (e : PlacedSignature) : Bytes := slotOf e.signature

/-- What the signatures of an input have to satisfy: a script, with so many signatures of a
digest. -/
structure Demand where
  redeem : Script
  slots : Nat
  digest : FixedBytes 32
deriving DecidableEq

namespace Demand

variable {d : Demand}

/-- The listed keys. -/
def keys (d : Demand) : List PublicKey := ScriptSig.keysOf d.redeem

/-- A signature stands at the place of the first listed key that has signed it. -/
structure Signed (d : Demand) (e : PlacedSignature) : Prop where
  key : ∃ key, d.keys[e.place]? = some key ∧
    readSignature e.signature.encode d.digest key = some e.signature
  first : d.keys.findIdx? (slotSignedBy e.slot d.digest) = some e.place

/-- What an input pushes when it has some signatures. -/
def layout (d : Demand) (es : List PlacedSignature) : List Bytes :=
  [] :: (es.map PlacedSignature.slot ++ List.replicate (d.slots - es.length) [] ++ [d.redeem])

/-- **An input collects signatures**: it has these ones, in the order of their keys. -/
structure Collects (d : Demand) (es : List PlacedSignature) (script : Script) : Prop where
  chunks : script.chunks = some (d.layout es)
  room : es.length ≤ d.slots
  signed : ∀ e ∈ es, d.Signed e
  ordered : es.Pairwise fun a b => a.place < b.place

/-- A signature signs the digest with one of the listed keys at most. -/
def IsClear (d : Demand) (der : Bytes) : Prop :=
  ∀ k ∈ d.keys, ∀ k' ∈ d.keys, (readSignature der d.digest k).isSome →
    (readSignature der d.digest k').isSome → k = k'

/-- A signature that no listed key but one has made. -/
theorem isClear_of_others {der : Bytes} (key : PublicKey)
    (h : ∀ k ∈ d.keys, k ≠ key → readSignature der d.digest k = none) : d.IsClear der := by
  have honly : ∀ k ∈ d.keys, (readSignature der d.digest k).isSome → k = key := by
    intro k hk hread
    by_contra hne
    rw [h k hk hne] at hread
    cases hread
  intro k hk k' hk' hread hread'
  rw [honly k hk hread, honly k' hk' hread']

/-! ### What is read from an input -/

/-- An input pushes two strings beside its slots. -/
theorem length_layout {es : List PlacedSignature} (h : es.length ≤ d.slots) :
    (d.layout es).length = d.slots + 2 := by
  simp only [layout, List.length_cons, List.length_append, List.length_map, List.length_replicate,
    List.length_nil]
  omega

/-- The last push is the script. -/
theorem getLastD_layout (es : List PlacedSignature) : (d.layout es).getLastD [] = d.redeem := by
  rw [layout, ← List.cons_append, List.getLastD_concat]

/-- The slots are between the first push and the last one. -/
theorem slots_layout (es : List PlacedSignature) : ((d.layout es).drop 1).dropLast =
    es.map PlacedSignature.slot ++ List.replicate (d.slots - es.length) [] := by
  rw [layout, List.drop_succ_cons, List.drop_zero, List.dropLast_concat]

/-- The slots that are not empty are the filled ones. -/
theorem filled_layout (es : List PlacedSignature) :
    (((d.layout es).drop 1).dropLast.filter fun slot => !slot.isEmpty) =
      es.map PlacedSignature.slot := by
  have hfilled : (es.map PlacedSignature.slot).filter (fun slot => !slot.isEmpty) =
      es.map PlacedSignature.slot := by
    refine List.filter_eq_self.mpr fun slot hslot => ?_
    obtain ⟨e, -, rfl⟩ := List.mem_map.mp hslot
    simp [PlacedSignature.slot, slotOf_ne_nil]
  have hempty : (List.replicate (d.slots - es.length) ([] : Bytes)).filter
      (fun slot => !slot.isEmpty) = [] := by
    simp
  rw [slots_layout, List.filter_append, hfilled, hempty, List.append_nil]

/-- **An input without signatures** collects none. -/
theorem collects_placeholder (h : d.redeem.length < UInt32.size) :
    d.Collects [] (ScriptSig.placeholder d.redeem d.slots) := by
  refine ⟨?_, Nat.zero_le _, fun _ he => absurd he List.not_mem_nil, List.Pairwise.nil⟩
  rw [ScriptSig.chunks_placeholder h]
  rfl

/-! ### The place of a new signature -/

variable {es : List PlacedSignature}

/-- **The place of a new signature is found**, and the order of the keys is kept. -/
theorem exists_slotPosition (hsigned : ∀ e ∈ es, d.Signed e)
    (hordered : es.Pairwise fun a b => a.place < b.place) (new : PlacedSignature)
    (hnew : ∀ e ∈ es, e.place ≠ new.place) :
    ∃ position, slotPosition d.keys d.digest new.place (es.map PlacedSignature.slot) =
        some position ∧ position ≤ es.length ∧
      (es.insertIdx position new).Pairwise fun a b => a.place < b.place := by
  induction es with
  | nil => exact ⟨0, rfl, Nat.le_refl _, List.pairwise_singleton _ _⟩
  | cons e es ih =>
    obtain ⟨hhead, htail⟩ := List.pairwise_cons.mp hordered
    have hplace := (hsigned e List.mem_cons_self).first
    by_cases hlt : new.place < e.place
    · refine ⟨0, ?_, Nat.zero_le _, ?_⟩
      · simp only [List.map_cons, slotPosition, hplace, hlt, if_true]
      · rw [List.insertIdx_zero, List.pairwise_cons]
        refine ⟨fun other hother => ?_, hordered⟩
        rcases List.mem_cons.mp hother with rfl | hother
        · exact hlt
        · exact Nat.lt_trans hlt (hhead other hother)
    · obtain ⟨position, hposition, hle, hrest⟩ :=
        ih (fun e he => hsigned e (List.mem_cons_of_mem _ he)) htail
          fun e he => hnew e (List.mem_cons_of_mem _ he)
      refine ⟨position + 1, ?_, Nat.succ_le_succ hle, ?_⟩
      · simp only [List.map_cons, slotPosition, hplace, hlt, if_false, hposition, Option.map_some]
      · rw [List.insertIdx_succ_cons, List.pairwise_cons]
        refine ⟨fun other hother => ?_, hrest⟩
        rcases (List.mem_insertIdx hle).mp hother with rfl | hother
        · have hne := hnew e List.mem_cons_self
          omega
        · exact hhead other hother

/-! ### Signing one input -/

/-- A signature in a slot takes no more bytes than are kept free for it. -/
theorem Signed.length_slot_le {e : PlacedSignature} (h : d.Signed e) :
    e.slot.length ≤ Wallet.signatureSize := by
  obtain ⟨key, -, hread⟩ := h.key
  exact length_slotOf_le hread

/-- The slots can be filled with signatures. -/
theorem exists_fill (hsize : d.redeem.length < UInt32.size) (hsigned : ∀ e ∈ es, d.Signed e) :
    ∃ script, fill d.slots (es.map PlacedSignature.slot) d.redeem = some script ∧
      script.chunks = some (d.layout es) := by
  have hshort : ∀ s ∈ es.map PlacedSignature.slot, s.length < 76 := by
    intro s hs
    obtain ⟨e, he, rfl⟩ := List.mem_map.mp hs
    exact Nat.lt_of_le_of_lt (hsigned e he).length_slot_le (by decide)
  obtain ⟨script, hfill⟩ := exists_fill_of_short d.slots hsize hshort
  have hchunks := hfill
  rw [fill, List.length_map] at hchunks
  exact ⟨script, hfill, Script.chunks_of_ofChunks? hchunks⟩

/-- A signature by a listed key stands at the place of the key, if no other listed key has signed
it. -/
theorem signed_of_isClear {der : Bytes} {key : PublicKey} {sig : Ecdsa.Signature} {place : Nat}
    (hread : readSignature der d.digest key = some sig) (hclear : d.IsClear der)
    (hplace : d.keys.findIdx? (· == key) = some place) : d.Signed ⟨place, sig⟩ := by
  obtain ⟨hdecode, hlow, hverify⟩ := readSignature_eq_some.mp hread
  have hreduced := Ecdsa.Signature.reduced_of_decode? hdecode
  obtain ⟨hlt, hkey, hbefore⟩ := List.findIdx?_eq_some_iff_getElem.mp hplace
  have hkey : d.keys[place] = key := eq_of_beq hkey
  refine ⟨⟨key, ?_, ?_⟩, ?_⟩
  · rw [List.getElem?_eq_getElem hlt, hkey]
  · exact readSignature_eq_some.mpr ⟨Ecdsa.Signature.decode?_encode hreduced, hlow, hverify⟩
  · rw [List.findIdx?_eq_some_iff_getElem]
    refine ⟨hlt, ?_, fun j hj hsigned => ?_⟩
    · rw [hkey, PlacedSignature.slot, slotSignedBy_slotOf hreduced]
      exact hverify
    · -- a key further in front that has signed as well would be the key itself
      have hj : j < place := hj
      rw [PlacedSignature.slot, slotSignedBy_slotOf hreduced] at hsigned
      have hother : readSignature der d.digest d.keys[j] = some sig :=
        readSignature_eq_some.mpr ⟨hdecode, hlow, hsigned⟩
      refine hbefore j hj (beq_iff_eq.mpr (hclear _ (List.getElem_mem _) _ ?_ ?_ ?_))
      · rw [← hkey]
        exact List.getElem_mem hlt
      · rw [hother]
        rfl
      · rw [hread]
        rfl

/-- A key that has not signed a slot is not the one whose signature stands there. -/
theorem Signed.place_ne {e : PlacedSignature} (h : d.Signed e) {key : PublicKey} {place : Nat}
    (hplace : d.keys.findIdx? (· == key) = some place)
    (hunsigned : ¬ slotSignedBy e.slot d.digest key = true) : e.place ≠ place := by
  intro heq
  obtain ⟨hlt, hsigned, -⟩ := List.findIdx?_eq_some_iff_getElem.mp h.first
  obtain ⟨hlt', hkey, -⟩ := List.findIdx?_eq_some_iff_getElem.mp hplace
  simp only [heq] at hsigned
  rw [eq_of_beq hkey] at hsigned
  exact hunsigned hsigned

/-- **A new signature is put in its place**, and the input collects one more. -/
theorem Collects.exists_insert {script : Script} (h : d.Collects es script)
    (hsize : d.redeem.length < UInt32.size) {new : PlacedSignature} (hnew : d.Signed new)
    (hfresh : ∀ e ∈ es, e.place ≠ new.place) (hroom : es.length < d.slots) :
    ∃ position script', position ≤ es.length ∧
      slotPosition d.keys d.digest new.place (es.map PlacedSignature.slot) = some position ∧
      fill d.slots ((es.map PlacedSignature.slot).insertIdx position new.slot) d.redeem =
        some script' ∧
      d.Collects (es.insertIdx position new) script' := by
  obtain ⟨position, hposition, hle, hordered⟩ :=
    exists_slotPosition h.signed h.ordered new hfresh
  have hsigned : ∀ e ∈ es.insertIdx position new, d.Signed e := by
    intro e he
    rcases (List.mem_insertIdx hle).mp he with rfl | he
    · exact hnew
    · exact h.signed e he
  obtain ⟨script', hfill, hchunks⟩ := exists_fill hsize hsigned
  rw [List.map_insertIdx] at hfill
  refine ⟨position, script', hle, hposition, hfill, hchunks, ?_, hsigned, hordered⟩
  rw [List.length_insertIdx_of_le_length hle]
  exact hroom

/-- **Signing one input** does nothing if the key has signed it, is not listed or finds all slots
filled; otherwise the input collects one more signature. It never fails. -/
theorem signInput_cases {key : PublicKey} {c : CheckedInput} {der : Bytes}
    (hsize : d.redeem.length < UInt32.size) (h : d.Collects es c.input.scriptSig)
    (hdigest : c.digest = d.digest) (hread : readSignature der d.digest key = some c.signature)
    (hclear : d.IsClear der) :
    (signInput key c = .alreadySigned ∧ ∃ e ∈ es, slotSignedBy e.slot d.digest key = true) ∨
      (signInput key c = .foreign ∧ d.keys.findIdx? (· == key) = none) ∨
      (signInput key c = .signed c.input.scriptSig ∧ d.slots ≤ es.length) ∨
      ∃ place position script, signInput key c = .signed script ∧
        d.keys.findIdx? (· == key) = some place ∧ position ≤ es.length ∧
        fill d.slots ((es.insertIdx position ⟨place, c.signature⟩).map PlacedSignature.slot)
          d.redeem = some script ∧
        d.Collects (es.insertIdx position ⟨place, c.signature⟩) script := by
  have hlong : ¬ (d.layout es).length < 2 := by
    rw [length_layout h.room]
    omega
  have hslots : ((d.layout es).drop 1).dropLast.length = d.slots := by
    rw [List.length_dropLast, List.length_drop, length_layout h.room]
    omega
  have hkeys : ScriptSig.keysOf d.redeem = d.keys := rfl
  unfold signInput
  simp only [h.chunks, if_neg hlong, getLastD_layout, filled_layout, hslots, hdigest, hkeys,
    List.length_map]
  by_cases hany : ((es.map PlacedSignature.slot).any
      fun slot => slotSignedBy slot d.digest key) = true
  · obtain ⟨slot, hslot, hsigned⟩ := List.any_eq_true.mp hany
    obtain ⟨e, he, rfl⟩ := List.mem_map.mp hslot
    exact .inl ⟨if_pos hany, e, he, hsigned⟩
  rw [if_neg hany]
  rcases hplace : d.keys.findIdx? (· == key) with - | place
  · exact .inr (.inl ⟨rfl, rfl⟩)
  refine .inr (.inr ?_)
  by_cases hfull : d.slots ≤ es.length
  · exact .inl ⟨if_pos hfull, hfull⟩
  simp only [if_neg hfull]
  have hfresh : ∀ e ∈ es, e.place ≠ place := by
    intro e he
    refine (h.signed e he).place_ne hplace fun hsigned => hany ?_
    exact List.any_eq_true.mpr ⟨e.slot, List.mem_map_of_mem he, hsigned⟩
  obtain ⟨position, script, hle, hposition, hfill, hcollects⟩ :=
    h.exists_insert hsize (signed_of_isClear hread hclear hplace) hfresh (Nat.lt_of_not_le hfull)
  have hslot : c.signature.encode ++ [commitsToAll] =
      PlacedSignature.slot ⟨place, c.signature⟩ := rfl
  refine .inr ⟨place, position, script, ?_, rfl, hle, by rw [List.map_insertIdx, hfill], hcollects⟩
  simp only [hposition, hslot, hfill]

/-! ### An input with all signatures -/

/-- The place of a signature is one of a listed key. -/
theorem Signed.place_lt {e : PlacedSignature} (h : d.Signed e) : e.place < d.keys.length := by
  obtain ⟨hlt, -⟩ := List.findIdx?_eq_some_iff_getElem.mp h.first
  exact hlt

/-- The listed key that has signed. -/
def signer (d : Demand) (e : PlacedSignature) (h : d.Signed e) : PublicKey :=
  d.keys.get ⟨e.place, h.place_lt⟩

/-- The keys that have signed, in the order of the slots. -/
def signers (d : Demand) (es : List PlacedSignature) (h : ∀ e ∈ es, d.Signed e) :
    List PublicKey :=
  es.pmap d.signer h

/-- The signature is one of the key at its place. -/
theorem readSignature_signer {e : PlacedSignature} (h : d.Signed e) :
    readSignature e.signature.encode d.digest (d.signer e h) = some e.signature := by
  obtain ⟨key, hkey, hread⟩ := h.key
  obtain ⟨hlt, heq⟩ := List.getElem?_eq_some_iff.mp hkey
  rw [signer, List.get_eq_getElem, heq]
  exact hread

/-- The keys that have signed are listed, in the same order. -/
theorem signers_sublist (hsigned : ∀ e ∈ es, d.Signed e)
    (hordered : es.Pairwise fun a b => a.place < b.place) :
    (d.signers es hsigned).Sublist d.keys := by
  have hplaces : (es.pmap (fun e (h : d.Signed e) => (⟨e.place, h.place_lt⟩ : Fin d.keys.length))
      hsigned).Pairwise (· < ·) :=
    hordered.pmap hsigned fun _ _ _ _ hlt => hlt
  have hsublist := List.map_getElem_sublist hplaces
  rw [List.map_pmap] at hsublist
  exact hsublist

/-- The keys that have signed are different ones. -/
theorem signers_nodup (hsigned : ∀ e ∈ es, d.Signed e)
    (hordered : es.Pairwise fun a b => a.place < b.place) : (d.signers es hsigned).Nodup := by
  refine hordered.pmap hsigned fun a ha b hb hlt heq => ?_
  -- the key of the later signature would stand further in front as well
  obtain ⟨hplace, -, hbefore⟩ := List.findIdx?_eq_some_iff_getElem.mp hb.first
  refine hbefore a.place hlt ?_
  have hread := readSignature_signer hb
  rw [← heq] at hread
  exact slotSignedBy_of_readSignature hread

/-- Each signature is one of its key. -/
theorem forall₂_signers (hsigned : ∀ e ∈ es, d.Signed e) :
    List.Forall₂
      (fun e key => readSignature e.signature.encode d.digest key = some e.signature) es
      (d.signers es hsigned) := by
  induction es with
  | nil => exact .nil
  | cons e es ih =>
    exact .cons (readSignature_signer (hsigned e List.mem_cons_self))
      (ih fun e he => hsigned e (List.mem_cons_of_mem _ he))

end Demand

/-- The check that a script with several keys makes, of the last signature first: each signature
must be one of a key that comes before the keys that have been used. -/
def passes (digest : FixedBytes 32) : List Bytes → List PublicKey → Bool
  | [], _ => true
  | _ :: _, [] => false
  | slot :: slots, key :: keys =>
    if slotSignedBy slot digest key then passes digest slots keys
    else passes digest (slot :: slots) keys

/-- Signatures that some of the keys have made in their order pass the check. -/
theorem passes_of_sublist {digest : FixedBytes 32} {slots : List Bytes}
    {signers keys : List PublicKey}
    (hsigned : List.Forall₂ (fun slot key => slotSignedBy slot digest key = true) slots signers)
    (hsublist : signers.Sublist keys) : passes digest slots keys = true := by
  induction keys generalizing slots signers with
  | nil =>
    rw [List.sublist_nil.mp hsublist] at hsigned
    cases hsigned
    rfl
  | cons key keys ih =>
    cases hsigned with
    | nil => rfl
    | @cons slot signer slots signers hslot hrest =>
      by_cases hkey : slotSignedBy slot digest key = true
      · simp only [passes, hkey, if_true]
        exact ih hrest hsublist.of_cons_cons
      · simp only [passes, hkey]
        -- the key has not signed, so it is not the one that has
        refine ih (.cons hslot hrest) ?_
        cases hsublist with
        | cons _ hsublist => exact hsublist
        | cons_cons _ hsublist => exact absurd hslot hkey

namespace Demand

variable {d : Demand} {es : List PlacedSignature} {script : Script}

/-- **An input has all signatures**: so many different listed keys have signed, in the order in
which they are listed, and the input passes the check of its script. -/
structure Satisfied (d : Demand) (es : List PlacedSignature) (signers : List PublicKey)
    (script : Script) : Prop where
  collects : d.Collects es script
  full : es.length = d.slots
  listed : signers.Sublist d.keys
  distinct : signers.Nodup
  signed : List.Forall₂
    (fun e key => readSignature e.signature.encode d.digest key = some e.signature) es signers
  passes : passes d.digest (es.map PlacedSignature.slot).reverse d.keys.reverse = true

/-- All slots are filled if there are as many signatures as slots. -/
theorem Collects.isComplete_iff (h : d.Collects es script) :
    ScriptSig.isComplete script = true ↔ es.length = d.slots := by
  have hroom := h.room
  have hlong : 2 ≤ (d.layout es).length := by
    rw [length_layout hroom]
    omega
  have hfilled : (es.map PlacedSignature.slot).all (fun slot => !slot.isEmpty) = true := by
    refine List.all_eq_true.mpr fun slot hslot => ?_
    obtain ⟨e, -, rfl⟩ := List.mem_map.mp hslot
    simp [PlacedSignature.slot, slotOf_ne_nil]
  unfold ScriptSig.isComplete
  simp only [h.chunks, slots_layout, decide_eq_true hlong, List.all_append, hfilled,
    Bool.true_and]
  rcases hfree : d.slots - es.length with - | n
  · simp only [List.replicate_zero, List.all_nil, true_iff]
    omega
  · simp only [List.replicate_succ, List.all_cons, List.isEmpty_nil, Bool.not_true,
      Bool.false_and, Bool.false_eq_true, false_iff]
    omega

/-- An input all of whose slots are filled has all signatures. -/
theorem Collects.satisfied (h : d.Collects es script) (hcomplete : ScriptSig.isComplete script) :
    ∃ signers, d.Satisfied es signers script := by
  have hfull := h.isComplete_iff.mp hcomplete
  have hsublist := signers_sublist h.signed h.ordered
  have hread := forall₂_signers h.signed
  refine ⟨d.signers es h.signed, h, hfull, hsublist, signers_nodup h.signed h.ordered, hread, ?_⟩
  refine passes_of_sublist (List.forall₂_reverse_iff.mpr ?_) hsublist.reverse
  rw [List.forall₂_map_left_iff]
  exact hread.imp fun _ _ he => slotSignedBy_of_readSignature he

end Demand

end TwoWayPeg.PendingSignatures
