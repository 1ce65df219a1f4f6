import Mathlib.Data.List.TakeWhile
import TwoWayPeg.Proofs.Release.Fees
import TwoWayPeg.Proofs.Release.Growth

/-!
# Whether a submission has changed something

What is said of a submission is put together from what signing came to for each input, and not by
looking at the transaction before and after. An input whose slots are all filled counts as signed
although nothing is added to it. So a member of a federation whose inputs are complete is told that
its signatures were taken while inputs of another federation are open, and nothing has changed.

The other way round, signing ends at the first input that the key has signed, and it is said that
the key has signed before, whatever was filled in front of it. In a transaction that was built and
signed here nothing can be filled in front of it, as a key signs all inputs in order, unless a
signature of another key is one of this key as well.

* `Transaction.hasRoom`: whether a slot is left for a key where signing gets to.
* `PendingSignatures.changed_iff`: when a submission changes what is kept.
* `Transaction.SignedInOrder`, `PendingSignatures.Reached.signedInOrder`: a key signs in order.
* `PendingSignatures.applied_iff_changed`: when what is said of a submission is true.
-/

namespace TwoWayPeg

/-! ### Slots that are left for a key -/

namespace Transaction

/-- The digests that are signed for the inputs. -/
def digests (tx : Transaction) : List (Option (FixedBytes 32)) :=
  (List.range tx.inputs.length).map (ScriptSig.sighash? tx)

/-- The inputs with the digests that are signed for them. -/
def digested (tx : Transaction) : List (TxIn × Option (FixedBytes 32)) :=
  tx.inputs.zip tx.digests

/-- The digests stay the same while slots are filled. -/
theorem digests_eq {tx tx' : Transaction} (hframes : tx'.frames = tx.frames)
    (hbare : tx'.bare = tx.bare) : tx'.digests = tx.digests := by
  have hlength : tx'.inputs.length = tx.inputs.length := by
    simpa only [frames, List.length_map] using congrArg List.length hframes
  rw [digests, digests, hlength, funext (ScriptSig.sighash?_of_frames hframes hbare)]

end Transaction

namespace TxIn

/-- Whether a key has signed an input with its digest. -/
def isSigned (key : PublicKey) (e : TxIn × Option (FixedBytes 32)) : Bool :=
  e.2.any fun digest => e.1.isSignedBy digest key

/-- Whether an input lists a key and has an empty slot. -/
def isOpen (key : PublicKey) (e : TxIn × Option (FixedBytes 32)) : Bool :=
  decide (key ∈ e.1.keys) && !e.1.isComplete

end TxIn

/-- Whether a slot is left for a key: signing goes through the inputs in front of the first one that
the key has signed, and one of these lists the key and has an empty slot. -/
def Transaction.hasRoom (tx : Transaction) (key : PublicKey) : Bool :=
  (tx.digested.takeWhile fun e => !TxIn.isSigned key e).any (TxIn.isOpen key)

namespace PendingSignatures

variable {key : PublicKey}

/-- A checked input with its digest. -/
def CheckedInput.digested (c : CheckedInput) : TxIn × Option (FixedBytes 32) :=
  (c.input, some c.digest)

/-- The digests that have been checked are those of all inputs. -/
theorem digests_of_checkFrom {tx : Transaction} {signatures : List Bytes}
    {checked : List CheckedInput} (hlength : tx.inputs.length = signatures.length)
    (h : checkFrom tx key 0 tx.inputs signatures = .ok checked) :
    checked.map (fun c => some c.digest) = tx.digests := by
  have hnumbers : (tx.inputs.zip signatures).zipIdx.map Prod.snd =
      List.range tx.inputs.length := by
    rw [List.zipIdx_map_snd, List.length_zip, ← hlength, Nat.min_self, List.range_eq_range']
  rw [Transaction.digests, ← hnumbers, List.map_map, eq_comm, ← List.forall₂_eq_eq_eq,
    List.forall₂_map_left_iff, List.forall₂_map_right_iff]
  exact (forall₂_of_checkFrom h hlength).imp fun e c hchecks => hchecks.digest

/-- The inputs that have been checked are all inputs, with their digests. -/
theorem digested_of_checkFrom {tx : Transaction} {signatures : List Bytes}
    {checked : List CheckedInput} (hlength : tx.inputs.length = signatures.length)
    (h : checkFrom tx key 0 tx.inputs signatures = .ok checked) :
    checked.map CheckedInput.digested = tx.digested := by
  rw [Transaction.digested, ← digests_of_checkFrom hlength h, ← inputs_of_checkFrom h hlength,
    List.zip_map']
  rfl

/-- Signing changes an input if an open one is reached. -/
theorem SignsAll.inputs_ne_iff {checked : List CheckedInput} {s : SignedInputs}
    (h : SignsAll key checked s) :
    s.inputs ≠ checked.map (fun c => c.input) ↔
      ((checked.map CheckedInput.digested).takeWhile fun e => !TxIn.isSigned key e).any
        (TxIn.isOpen key) = true := by
  have hsigned (c : CheckedInput) : TxIn.isSigned key c.digested = c.isSignedBy key := rfl
  have hopen (c : CheckedInput) : TxIn.isOpen key c.digested =
      (decide (key ∈ c.input.keys) && !c.input.isComplete) := rfl
  induction h with
  | nil => simp
  | alreadySigned rest h => simp [hsigned, h]
  | foreign hunsigned hunlisted _ ih => simp [hsigned, hopen, hunsigned, hunlisted, ← ih]
  | full hunsigned _ hcomplete _ ih => simp [hsigned, hopen, hunsigned, hcomplete, ← ih]
  | grown hunsigned hlisted hroom hgrown _ _ =>
    simp [hsigned, hopen, hunsigned, hlisted, hroom, hgrown.ne]

/-- Signing ends early only at an input that the key has signed. -/
theorem SignsAll.exists_signed {checked : List CheckedInput} {s : SignedInputs}
    (h : SignsAll key checked s) (halready : s.already = true) :
    ∃ c ∈ checked, c.isSignedBy key = true := by
  induction h with
  | nil => cases halready
  | @alreadySigned c rest hsigned => exact ⟨c, List.mem_cons_self, hsigned⟩
  | @foreign c rest s _ _ _ ih =>
    obtain ⟨c', hc', hsigned⟩ := ih halready
    exact ⟨c', List.mem_cons_of_mem c hc', hsigned⟩
  | @full c rest s _ _ _ _ ih =>
    obtain ⟨c', hc', hsigned⟩ := ih halready
    exact ⟨c', List.mem_cons_of_mem c hc', hsigned⟩
  | @grown c i rest s _ _ _ _ _ ih =>
    obtain ⟨c', hc', hsigned⟩ := ih halready
    exact ⟨c', List.mem_cons_of_mem c hc', hsigned⟩

/-- Whether a slot is left for a key in what is kept under a host transaction. -/
def hasRoom (p : PendingSignatures) (hash : HostTxHash) (key : PublicKey) : Bool :=
  (p.get? hash).any fun tx => tx.hasRoom key

/-- **When a submission changes what is kept**: the transaction is fully signed, and it is no longer
kept, or the signatures are taken and a slot is left for the key. -/
theorem changed_iff (p : PendingSignatures) (hash : HostTxHash) (key : PublicKey)
    (signatures : List Bytes) :
    (submit p hash key signatures).2.get? hash ≠ p.get? hash ↔
      (submit p hash key signatures).1 = .fullySigned ∨
      ((submit p hash key signatures).1 = .partiallySigned ∨
        (submit p hash key signatures).1 = .alreadySigned) ∧ p.hasRoom hash key = true := by
  rcases hfound : p.get? hash with - | tx
  · simp [submit_of_none hfound, hfound]
  · have hsubmitted := submitted_signTransaction tx key signatures
    rw [submit_of_some hfound, hasRoom, hfound, Option.any_some]
    generalize signTransaction tx key signatures = result at hsubmitted
    cases hsubmitted with
    | refused outcome hrefusal =>
      have hopen : outcome ≠ .fullySigned := by
        rintro rfl
        cases hrefusal
      simp only [if_neg hopen, SortedMap.get?_insert_self]
      cases outcome <;> simp_all [SigningOutcome.isRefusal]
    | taken checked s hlength hchecked hsigned hlisted =>
      have hroom := hsigned.inputs_ne_iff
      rw [inputs_of_checkFrom hchecked hlength, digested_of_checkFrom hlength hchecked,
        ← Transaction.hasRoom] at hroom
      have hchanged : ({ tx with inputs := s.inputs } : Transaction) ≠ tx ↔
          tx.hasRoom key = true := by
        rw [← hroom, not_iff_not]
        exact ⟨fun h => congrArg Transaction.inputs h, fun h => by rw [h]⟩
      dsimp only
      split
      · next hfull =>
        simp [hfull, SortedMap.get?_erase_self]
      · next hopen =>
        rw [SortedMap.get?_insert_self, ne_eq, Option.some.injEq, ← ne_eq, hchanged]
        rcases verdict_cases { tx with inputs := s.inputs } s.already with h | h
        · exact absurd h hopen
        · rw [h]
          cases s.already <;> simp

end PendingSignatures

/-! ### Signing in order -/

/-- **A key has signed the inputs of a transaction in order**: none behind an input that lists it
and has an empty slot, unless it has signed that input as well. -/
def Transaction.SignedInOrder (tx : Transaction) (key : PublicKey) : Prop :=
  tx.digested.Pairwise fun a b =>
    TxIn.isSigned key b = true → TxIn.isOpen key a = true → TxIn.isSigned key a = true

/-- If a key has signed the inputs in order, and one of them at all, no slot is left for it. -/
theorem Transaction.SignedInOrder.hasRoom_eq_false {tx : Transaction} {key : PublicKey}
    (h : tx.SignedInOrder key)
    (hsigned : ∃ e ∈ tx.digested, TxIn.isSigned key e = true) : tx.hasRoom key = false := by
  rw [← Bool.not_eq_true, hasRoom, List.any_eq_true]
  rintro ⟨a, ha, hopen⟩
  have hunsigned : TxIn.isSigned key a = false := by
    simpa using List.mem_takeWhile_imp ha
  obtain ⟨b, hb, hsigned⟩ := hsigned
  unfold SignedInOrder at h
  rw [← List.takeWhile_append_dropWhile (p := fun e => !TxIn.isSigned key e)
    (l := tx.digested)] at h hb
  rcases List.mem_append.mp hb with hb | hb
  · have hfront := List.mem_takeWhile_imp hb
    simp [hsigned] at hfront
  · have hbehind := (List.pairwise_append.mp h).2.2 a ha b hb hsigned hopen
    rw [hunsigned] at hbehind
    cases hbehind

namespace PendingSignatures

variable {key signer : PublicKey}

/-- An input that is open after signing was open before. -/
theorem Follows.isOpen {c : CheckedInput} {i : TxIn} {d : Option (FixedBytes 32)}
    (h : Follows signer c i) (hopen : TxIn.isOpen key (i, d) = true) :
    TxIn.isOpen key c.digested = true := by
  rcases h with rfl | ⟨-, hroom, hgrown⟩
  · exact hopen
  · simp only [TxIn.isOpen, CheckedInput.digested, Bool.and_eq_true, decide_eq_true_eq,
      hroom] at hopen ⊢
    rw [TxIn.keys_eq, hgrown.frame, ← TxIn.keys_eq] at hopen
    exact ⟨decide_eq_true hopen.1, rfl⟩

/-- What a key has signed stays signed. -/
theorem Follows.isSigned {c : CheckedInput} {i : TxIn} (h : Follows signer c i)
    (hsigned : c.isSignedBy key = true) : i.isSignedBy c.digest key = true := by
  rcases h with rfl | ⟨-, -, hgrown⟩
  · exact hsigned
  · obtain ⟨position, hposition, hfilled⟩ := hgrown.filled
    obtain ⟨slot, hslot, hslotsigned⟩ := List.any_eq_true.mp hsigned
    rw [TxIn.isSignedBy, hfilled]
    exact List.any_eq_true.mpr ⟨slot, (List.mem_insertIdx hposition).mpr (.inr hslot), hslotsigned⟩

/-- What a key has signed after signing it had signed before, or the signature is new. -/
theorem Follows.of_isSigned {c : CheckedInput} {i : TxIn} (h : Follows signer c i)
    (hsigned : i.isSignedBy c.digest key = true) :
    c.isSignedBy key = true ∨
      i ≠ c.input ∧ slotSignedBy (slotOf c.signature) c.digest key = true := by
  rcases h with rfl | ⟨-, -, hgrown⟩
  · exact .inl hsigned
  · obtain ⟨position, hposition, hfilled⟩ := hgrown.filled
    obtain ⟨slot, hslot, hslotsigned⟩ := List.any_eq_true.mp hsigned
    rw [hfilled] at hslot
    rcases (List.mem_insertIdx hposition).mp hslot with rfl | hslot
    · exact .inr ⟨hgrown.ne, hslotsigned⟩
    · exact .inl (List.any_eq_true.mpr ⟨slot, hslot, hslotsigned⟩)

/-- **Signing goes through the inputs in order**: in front of an input that it changes, no input is
left with an empty slot for the key that the key has not signed. -/
theorem SignsAll.pairwise {checked : List CheckedInput} {s : SignedInputs}
    (h : SignsAll key checked s)
    (hchecked : ∀ c ∈ checked, slotSignedBy (slotOf c.signature) c.digest key = true) :
    (s.inputs.zip checked).Pairwise fun a b => b.1 ≠ b.2.input →
      TxIn.isOpen key (a.1, some a.2.digest) = true → a.1.isSignedBy a.2.digest key = true := by
  induction h with
  | nil => exact List.Pairwise.nil
  | @alreadySigned c rest hsigned =>
    have hpairs : (rest.map fun c => c.input).zip rest = rest.map fun c => (c.input, c) := by
      have hboth := List.zip_map' (l := rest) (f := fun c => c.input) (g := id)
      rwa [List.map_id] at hboth
    have hsame : ∀ e ∈ (rest.map fun c => c.input).zip rest, e.1 = e.2.input := by
      intro e he
      rw [hpairs] at he
      obtain ⟨c, -, rfl⟩ := List.mem_map.mp he
      rfl
    rw [List.zip_cons_cons, List.pairwise_cons]
    exact ⟨fun b hb hne => absurd (hsame b hb) hne,
      List.pairwise_of_forall_mem_list fun a _ b hb hne => absurd (hsame b hb) hne⟩
  | @foreign c rest s hunsigned hunlisted _ ih =>
    rw [List.zip_cons_cons, List.pairwise_cons]
    refine ⟨fun b _ _ hopen => ?_, ih fun c' hc' => hchecked c' (List.mem_cons_of_mem c hc')⟩
    simp [TxIn.isOpen, hunlisted] at hopen
  | @full c rest s hunsigned hlisted hcomplete _ ih =>
    rw [List.zip_cons_cons, List.pairwise_cons]
    refine ⟨fun b _ _ hopen => ?_, ih fun c' hc' => hchecked c' (List.mem_cons_of_mem c hc')⟩
    simp [TxIn.isOpen, hcomplete] at hopen
  | @grown c i rest s hunsigned hlisted hroom hgrown _ ih =>
    rw [List.zip_cons_cons, List.pairwise_cons]
    refine ⟨fun b _ _ _ => ?_, ih fun c' hc' => hchecked c' (List.mem_cons_of_mem c hc')⟩
    obtain ⟨position, hposition, hfilled⟩ := hgrown.filled
    rw [TxIn.isSignedBy, hfilled]
    exact List.any_eq_true.mpr ⟨_, (List.mem_insertIdx hposition).mpr (.inl rfl),
      hchecked c List.mem_cons_self⟩

/-- **No signature of another key is one of this key as well**, for what is signed of a
transaction. -/
def Submission.IsUnshared (s : Submission) (tx : Transaction) (key : PublicKey) : Prop :=
  s.key ≠ key → ∀ index der digest, s.signatures[index]? = some der →
    ScriptSig.sighash? tx index = some digest → (readSignature der digest s.key).isSome →
      readSignature der digest key = none

/-- What is not shared for a transaction is not shared for it at any stage of signing. -/
theorem Submission.IsUnshared.of_signedFrom {tx kept : Transaction} {s : Submission}
    (h : s.IsUnshared tx key) (hkept : tx.SignedFrom kept) : s.IsUnshared kept key := by
  intro hne index der digest hder hdigest
  rw [hkept.sighash?_eq] at hdigest
  exact h hne index der digest hder hdigest

/-- Signatures that a key would not have given for the digests are not shared with it. -/
theorem Submission.isUnshared_of_digests {tx : Transaction} {s : Submission}
    {digests : List (FixedBytes 32)} (hdigests : tx.digests = digests.map some)
    (hnone : ∀ e ∈ s.signatures.zip digests, readSignature e.1 e.2 key = none) :
    s.IsUnshared tx key := by
  intro _ index der digest hder hdigest _
  have hindex : index < tx.inputs.length := by
    by_contra hout
    rw [ScriptSig.sighash?, List.getElem?_eq_none (Nat.le_of_not_lt hout)] at hdigest
    cases hdigest
  have hlisted : tx.digests[index]? = some (some digest) := by
    rw [Transaction.digests, List.getElem?_map, List.getElem?_range hindex, ← hdigest]
    rfl
  rw [hdigests, List.getElem?_map, Option.map_eq_some_iff] at hlisted
  obtain ⟨_, hlisted, hsame⟩ := hlisted
  cases hsame
  exact hnone (der, digest) (List.mem_of_getElem? (List.getElem?_zip_eq_some.mpr ⟨hder, hlisted⟩))

/-- A key that has signed a slot with a submitted signature is the one that submitted it. -/
theorem Submission.IsUnshared.key_eq {tx : Transaction} {s : Submission} (h : s.IsUnshared tx key)
    {checked : List CheckedInput} (hlength : tx.inputs.length = s.signatures.length)
    (hchecked : checkFrom tx s.key 0 tx.inputs s.signatures = .ok checked) {c : CheckedInput}
    (hc : c ∈ checked) (hsigned : slotSignedBy (slotOf c.signature) c.digest key = true) :
    s.key = key := by
  obtain ⟨index, hindex⟩ := List.getElem?_of_mem hc
  obtain ⟨-, hdigest, der, hder, hread⟩ := getElem?_of_checkFrom hlength hchecked hindex
  by_contra hne
  obtain ⟨hdecode, hlow, -⟩ := readSignature_eq_some.mp hread
  rw [slotSignedBy_slotOf (Ecdsa.Signature.reduced_of_decode? hdecode)] at hsigned
  have hnone := h hne index der c.digest hder hdigest (Option.isSome_of_eq_some hread)
  rw [readSignature_eq_some.mpr ⟨hdecode, hlow, hsigned⟩] at hnone
  cases hnone

/-- A signature that has been checked is one of the key that submitted it. -/
theorem slotSignedBy_of_checkFrom {tx : Transaction} {signatures : List Bytes}
    {checked : List CheckedInput} (hlength : tx.inputs.length = signatures.length)
    (h : checkFrom tx key 0 tx.inputs signatures = .ok checked) {c : CheckedInput}
    (hc : c ∈ checked) : slotSignedBy (slotOf c.signature) c.digest key = true := by
  obtain ⟨index, hindex⟩ := List.getElem?_of_mem hc
  obtain ⟨-, -, der, hder, hread⟩ := getElem?_of_checkFrom hlength h hindex
  rw [← encode_of_readSignature hread] at hread
  exact slotSignedBy_of_readSignature hread

/-- **Signing keeps the order** in which a key has signed the inputs, whoever signs. -/
theorem signedInOrder_signTransaction {tx : Transaction} (h : tx.SignedInOrder key) {s : Submission}
    (hunshared : s.IsUnshared tx key) :
    (signTransaction tx s.key s.signatures).2.SignedInOrder key := by
  have hframes := frames_signTransaction tx s.key s.signatures
  have hbare := bare_signTransaction tx s.key s.signatures
  have hsubmitted := submitted_signTransaction tx s.key s.signatures
  generalize signTransaction tx s.key s.signatures = result at hframes hbare hsubmitted ⊢
  cases hsubmitted with
  | refused => exact h
  | taken checked signed hlength hchecked hsigned =>
    have hfollows := List.forall₂_iff_zip.mp hsigned.follows.flip
    have hdigested : ({ tx with inputs := signed.inputs } : Transaction).digested =
        (signed.inputs.zip checked).map fun e => (e.1, some e.2.digest) := by
      rw [Transaction.digested, Transaction.digests_eq hframes hbare,
        ← digests_of_checkFrom hlength hchecked, List.zip_map_right]
      rfl
    have hbefore : (signed.inputs.zip checked).Pairwise fun a b => b.2.isSignedBy key = true →
        TxIn.isOpen key a.2.digested = true → a.2.isSignedBy key = true := by
      have hpaired : (signed.inputs.zip checked).map Prod.snd = checked :=
        List.map_snd_zip (Nat.le_of_eq hfollows.1.symm)
      have hold := h
      rw [Transaction.SignedInOrder, ← digested_of_checkFrom hlength hchecked, List.pairwise_map,
        ← hpaired, List.pairwise_map] at hold
      exact hold
    have hafter := hsigned.pairwise fun c hc => slotSignedBy_of_checkFrom hlength hchecked hc
    rw [Transaction.SignedInOrder, hdigested, List.pairwise_map]
    refine (hbefore.and hafter).imp_of_mem ?_
    rintro ⟨i, c⟩ ⟨i', c'⟩ ha hb ⟨hold, hnew⟩ hsigned hopen
    have hfollow : Follows s.key c i := hfollows.2 ha
    have hfollow' : Follows s.key c' i' := hfollows.2 hb
    rcases hfollow'.of_isSigned hsigned with hsigned | ⟨hne, hslot⟩
    · exact hfollow.isSigned (hold hsigned (hfollow.isOpen hopen))
    · -- the signature is new, so it is one of the key that signs
      have hkey := hunshared.key_eq hlength hchecked (List.of_mem_zip hb).2 hslot
      rw [hkey] at hnew
      exact hnew hne hopen

/-- An unsigned input has no filled slot. -/
theorem filled_input (c : Coin) : c.input.filled = [] := by
  have hscript : c.input.scriptSig = (Script.ofChunks? ([] ::
      ([] ++ List.replicate c.owner.threshold [] ++ [c.owner.redeemScript]))).getD [] := rfl
  rcases h : Script.ofChunks? ([] :: ([] ++ List.replicate c.owner.threshold [] ++
    [c.owner.redeemScript])) with - | script
  · rw [h, Option.getD_none] at hscript
    have hchunks : Script.chunks [] = some [] := by simp [Script.chunks, Script.instructions]
    rw [TxIn.filled, TxIn.slots, hscript, hchunks]
    rfl
  · rw [h, Option.getD_some] at hscript
    have hchunks := Script.chunks_of_ofChunks? h
    rw [← hscript] at hchunks
    exact TxIn.filled_of_chunks hchunks fun _ hslot => absurd hslot List.not_mem_nil

/-- Nobody has signed a built transaction. -/
theorem signedInOrder_of_build {w : Wallet} {destination : Script} {purpose : Wallet.Purpose}
    {built : BuiltTransaction} (h : w.build destination purpose = .ok built) (key : PublicKey) :
    built.tx.SignedInOrder key := by
  refine List.pairwise_of_forall_mem_list fun a _ b hb hsigned => ?_
  have hinput := (List.of_mem_zip hb).1
  rw [(Wallet.priced_of_build h).inputs] at hinput
  obtain ⟨c, -, hc⟩ := List.mem_map.mp hinput
  unfold TxIn.isSigned TxIn.isSignedBy at hsigned
  rw [← hc, filled_input] at hsigned
  simp at hsigned

/-- **The maps that are reached** when built transactions are kept and signatures are submitted for
them, none of which is one of a certain key unless that key submits it. -/
inductive Reached (key : PublicKey) : PendingSignatures → Prop
  | empty : Reached key SortedMap.empty
  | kept {p : PendingSignatures} (h : Reached key p) (hash : HostTxHash) {w : Wallet}
    {destination : Script} {purpose : Wallet.Purpose} {built : BuiltTransaction}
    (hbuilt : w.build destination purpose = .ok built) : Reached key (p.insert hash built.tx)
  | submitted {p : PendingSignatures} (h : Reached key p) (s : Submission)
    (hunshared : ∀ tx, p.get? s.hash = some tx → s.IsUnshared tx key) :
    Reached key (submit p s.hash s.key s.signatures).2

/-- A map is reached by any number of submissions for a transaction, if none is shared. -/
theorem Reached.submitAll {p : PendingSignatures} {hash : HostTxHash} {tx : Transaction}
    {subs : List Submission} (h : Reached key p)
    (hkept : ∀ kept, p.get? hash = some kept → tx.SignedFrom kept)
    (hsubs : ∀ s ∈ subs, s.hash = hash ∧ s.IsUnshared tx key) : Reached key (submitAll p subs) := by
  induction subs generalizing p with
  | nil => exact h
  | cons s subs ih =>
    obtain ⟨rfl, hunshared⟩ := hsubs s List.mem_cons_self
    refine ih (h.submitted s fun kept hfound => hunshared.of_signedFrom (hkept kept hfound))
      (fun kept hfound => ?_) fun s' hs' => hsubs s' (List.mem_cons_of_mem s hs')
    obtain ⟨before, hbefore, rfl⟩ := exists_of_get?_submit hfound
    exact .signed (hkept before hbefore) s.key s.signatures

/-- **In a map that is reached the key has signed all transactions in order.** -/
theorem Reached.signedInOrder {p : PendingSignatures} (h : Reached key p) {hash : HostTxHash}
    {tx : Transaction} (hfound : p.get? hash = some tx) : tx.SignedInOrder key := by
  induction h generalizing hash tx with
  | empty => cases hfound
  | kept _ other hbuilt ih =>
    by_cases hhash : hash = other
    · rw [hhash, SortedMap.get?_insert_self] at hfound
      cases hfound
      exact signedInOrder_of_build hbuilt key
    · rw [SortedMap.get?_insert_ne _ _ hhash] at hfound
      exact ih hfound
  | @submitted p _ s hunshared ih =>
    by_cases hhash : hash = s.hash
    · subst hhash
      obtain ⟨before, hkept, rfl⟩ := exists_of_get?_submit hfound
      exact signedInOrder_signTransaction (ih hkept) (hunshared before hkept)
    · rw [get?_submit_ne hhash] at hfound
      exact ih hfound

/-- In a map that is reached no slot is left for a key that is said to have signed before. -/
theorem Reached.hasRoom_eq_false {p : PendingSignatures} (h : Reached key p) {hash : HostTxHash}
    {signatures : List Bytes} (hsigned : (submit p hash key signatures).1 = .alreadySigned) :
    p.hasRoom hash key = false := by
  unfold hasRoom
  rcases hfound : p.get? hash with - | tx
  · rfl
  · refine (h.signedInOrder hfound).hasRoom_eq_false ?_
    have hsubmitted := submitted_signTransaction tx key signatures
    rw [submit_of_some hfound] at hsigned
    generalize signTransaction tx key signatures = result at hsubmitted hsigned
    cases hsubmitted with
    | refused outcome hrefusal =>
      dsimp only at hsigned
      rw [hsigned] at hrefusal
      cases hrefusal
    | taken checked s hlength hchecked hs =>
      have halready : s.already = true := by
        rcases verdict_cases { tx with inputs := s.inputs } s.already with h | h
        · rw [h] at hsigned
          cases hsigned
        · rw [h] at hsigned
          cases hsome : s.already with
          | true => rfl
          | false =>
            rw [hsome] at hsigned
            cases hsigned
      obtain ⟨c, hc, hsigned⟩ := hs.exists_signed halready
      rw [← digested_of_checkFrom hlength hchecked]
      exact ⟨c.digested, List.mem_map_of_mem hc, hsigned⟩

/-- **When what is said of a submission is true.** It is said to be applied if and only if what is
kept has changed, with two exceptions: it is said to be applied and no slot was left for the key, or
the key is said to have signed before and a slot was left for it. The second one is not met in a map
that is reached. -/
theorem applied_iff_changed (p : PendingSignatures) (hash : HostTxHash) (key : PublicKey)
    (signatures : List Bytes) :
    (((submit p hash key signatures).1.applied = true ↔
        (submit p hash key signatures).2.get? hash ≠ p.get? hash) ↔
      ¬ ((submit p hash key signatures).1 = .partiallySigned ∧ p.hasRoom hash key = false) ∧
      ¬ ((submit p hash key signatures).1 = .alreadySigned ∧ p.hasRoom hash key = true)) ∧
    (Reached key p →
      (((submit p hash key signatures).1.applied = true ↔
          (submit p hash key signatures).2.get? hash ≠ p.get? hash) ↔
        ¬ ((submit p hash key signatures).1 = .partiallySigned ∧ p.hasRoom hash key = false))) := by
  have hexact : ((submit p hash key signatures).1.applied = true ↔
        (submit p hash key signatures).2.get? hash ≠ p.get? hash) ↔
      ¬ ((submit p hash key signatures).1 = .partiallySigned ∧ p.hasRoom hash key = false) ∧
      ¬ ((submit p hash key signatures).1 = .alreadySigned ∧ p.hasRoom hash key = true) := by
    rw [changed_iff]
    cases p.hasRoom hash key <;> cases (submit p hash key signatures).1 <;>
      simp [SigningOutcome.applied]
  refine ⟨hexact, fun h => hexact.trans (and_iff_left ?_)⟩
  rintro ⟨hsigned, hroom⟩
  rw [h.hasRoom_eq_false hsigned] at hroom
  cases hroom

namespace Example

open Wallet.Example (output walletWith payee constants)

/-- Four times the base point as a key. -/
def fourthKey : PublicKey :=
  ⟨0x02 :: Bytes.ofNatBE 32 0xe493dbf1c10d80f3581e4904930b1404cc6c13900ee0758474fa94abe8c4cd13,
    by decide +kernel⟩

/-- A federation with another member. -/
def otherFederation : Federation := ⟨[.ofKey fourthKey], 0, 0, .regtest⟩

/-- One output of each federation. -/
def coins : List Coin :=
  [⟨output 1 1000000, federation⟩,
    ⟨{ output 2 1000000 with script := otherFederation.payScript }, otherFederation⟩]

/-- The transaction that spends both. -/
def refund : Transaction := Wallet.unsigned coins [⟨.clamp 1995080, payee⟩]

/-- The transaction is built. -/
theorem build_refund : ∃ built : BuiltTransaction,
    Wallet.build { walletWith [] constants with coins } payee .refund = .ok built ∧
      built.tx = refund := by
  apply exists_of_toOption_map
  decide +kernel

/-- The digests that are signed for its inputs. -/
def refundDigests : List (FixedBytes 32) :=
  [.ofNat 32 0x5c54ff937badaf8d868d8e03262de74dc416c9da8577bec6f4c61bd4186ebe66,
    .ofNat 32 0xfc59299916d133f0d4da0fc23ca7c58215ad69be18cc748d99280940a5173e41]

/-- What the first member submits for it. -/
def refundFromFirst : Submission where
  hash := hostTx
  key := firstKey
  signatures :=
    [Ecdsa.Signature.encode
      ⟨0x1e4693f16cf770bac3b2db3c53657655ee040002e763173f578a9fda10bb45e4,
        0x1849e2673b84ba4d0fff4330aaf8e9f8af5f4b803a5b3c39fec522b741c0170d⟩,
      Ecdsa.Signature.encode
      ⟨0x79efb554514184f9bcb5fddd05a833d251f2759fd314ad2a9cd37e993c60182d,
        0x04dc8f05546a6c4ce68d03b15438e07c7beb46a295b6f5c226e7b2514de125ed⟩]

/-- What the third member submits for it. -/
def refundFromThird : Submission where
  hash := hostTx
  key := thirdKey
  signatures :=
    [Ecdsa.Signature.encode
      ⟨0x03deabd7124e52322eb0e1a16c05fe9a929712228bb886752ebe67113cf499a0,
        0x52386d6797c034292e2176e63bf8ac4d42a139cd5d1a685ea60cbff8fa6728ee⟩,
      Ecdsa.Signature.encode
      ⟨0xdcf41c7f108e30c0e18c7284578d3fb44710df04a0efefd7b9f9d14374053a62,
        0x2a4d1902d8e5c49c3306172bed4a6f356b52dc87585ed4822b5be81592a7b44d⟩]

/-- The signatures of the second member. -/
def secondSignatures : List Bytes :=
  [Ecdsa.Signature.encode
    ⟨0x6b9318dc471155ade53c57a299d610b42d1a25d21f4fbf3ea54c35ae2bb8daa7,
      0x65e66a3e8a0f468050feea286c8e53a30951a673f3ec1f4b39a86bffa6be1875⟩,
    Ecdsa.Signature.encode
    ⟨0xe48096d2d5e8b4d7f52ba77b76ba13598e5af94bd4c881799714e1118ad06836,
      0x6a83c76704f22d70f595e06062089b256a29af2f0f881e9e8ec57c0b322c7642⟩]

/-- The first and the third member have signed. -/
def signedByTwo : PendingSignatures :=
  submitAll (SortedMap.empty.insert hostTx refund) [refundFromFirst, refundFromThird]

/-- None of their signatures is one of the second member. -/
theorem isUnshared_refund :
    ∀ s ∈ [refundFromFirst, refundFromThird],
      s.hash = hostTx ∧ s.IsUnshared refund secondKey := by
  have hdigests : refund.digests = refundDigests.map some := by
    set_option maxRecDepth 100000 in
    decide +kernel
  have hnone : ∀ s ∈ [refundFromFirst, refundFromThird],
      s.hash = hostTx ∧ ∀ e ∈ s.signatures.zip refundDigests,
        readSignature e.1 e.2 secondKey = none := by
    set_option maxRecDepth 100000 in
    decide +kernel
  intro s hs
  obtain ⟨hhash, hread⟩ := hnone s hs
  exact ⟨hhash, Submission.isUnshared_of_digests hdigests hread⟩

/-- The second member has signed nothing that is kept. -/
theorem reached_signedByTwo : Reached secondKey signedByTwo := by
  obtain ⟨built, hbuilt, htx⟩ := build_refund
  have hkept : Reached secondKey (SortedMap.empty.insert hostTx built.tx) :=
    Reached.empty.kept hostTx hbuilt
  rw [htx] at hkept
  refine hkept.submitAll (fun kept hfound => ?_) isUnshared_refund
  rw [SortedMap.get?_insert_self] at hfound
  cases hfound
  exact .unsigned

end Example

/-- The second member signs when the two slots of its federation are filled and the other federation
has not signed. Its signatures are said to be applied, and what is kept has not changed. -/
theorem applied_without_change :
    Reached Example.secondKey Example.signedByTwo ∧
      (submit Example.signedByTwo Example.hostTx Example.secondKey
        Example.secondSignatures).1.applied = true ∧
      (submit Example.signedByTwo Example.hostTx Example.secondKey
        Example.secondSignatures).2.get? Example.hostTx =
          Example.signedByTwo.get? Example.hostTx := by
  have htaken : (submit Example.signedByTwo Example.hostTx Example.secondKey
        Example.secondSignatures).1 = .partiallySigned ∧
      Example.signedByTwo.hasRoom Example.hostTx Example.secondKey = false := by
    set_option maxRecDepth 100000 in
    decide +kernel
  have happlied : (submit Example.signedByTwo Example.hostTx Example.secondKey
      Example.secondSignatures).1.applied = true := by
    rw [htaken.1]
    rfl
  refine ⟨Example.reached_signedByTwo, happlied, ?_⟩
  by_contra hchanged
  exact ((applied_iff_changed Example.signedByTwo Example.hostTx Example.secondKey
    Example.secondSignatures).2 Example.reached_signedByTwo).mp
      (iff_of_true happlied hchanged) htaken

end PendingSignatures

end TwoWayPeg
