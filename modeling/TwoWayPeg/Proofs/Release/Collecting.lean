import TwoWayPeg.Proofs.Release.Slots

/-!
# Transactions that are being signed

Each input of a transaction collects signatures for the federation that owns what it spends, and a
member signs all inputs at once. What is signed for an input leaves the scripts of all inputs out,
so signatures that are in their slots stay valid while other slots are filled.

* `Collecting`: all inputs of a transaction collect signatures, of the digests that are signed for
  them.
* `signTransaction_cases`: submitted signatures keep it so, and no input is found malformed.
* `Collecting.satisfied`: when all slots are filled, all inputs have all signatures.
* `collects_in_order`: any number of submissions, by any keys.
-/

namespace TwoWayPeg

/-! ### What is signed -/

/-- What is signed leaves the scripts of all inputs out. -/
theorem Transaction.sighash?_bare (tx : Transaction) (index : Nat) (script : Script) :
    tx.bare.sighash? index script = tx.sighash? index script := by
  simp [sighash?, signingForm, bare, TxIn.bare, List.zipIdx_map, Function.comp_def]

/-- **What is signed stays the same while slots are filled.** -/
theorem ScriptSig.sighash?_of_frames {tx tx' : Transaction} (hframes : tx'.frames = tx.frames)
    (hbare : tx'.bare = tx.bare) (index : Nat) :
    ScriptSig.sighash? tx' index = ScriptSig.sighash? tx index := by
  have hredeem : (tx'.inputs[index]?).map (fun i => ScriptSig.redeemScript? i.scriptSig) =
      (tx.inputs[index]?).map fun i => ScriptSig.redeemScript? i.scriptSig := by
    have hindex := congrArg (fun frames => (frames[index]?).map (Option.map Prod.snd)) hframes
    simpa only [Transaction.frames, List.getElem?_map, Option.map_map, Function.comp_def,
      ← TxIn.redeemScript?_eq] using hindex
  have hdigest (redeem : Script) : tx'.sighash? index redeem = tx.sighash? index redeem := by
    rw [← Transaction.sighash?_bare, hbare, Transaction.sighash?_bare]
  unfold ScriptSig.sighash?
  rcases h' : tx'.inputs[index]? with - | i' <;> rcases h : tx.inputs[index]? with - | i
  · rfl
  · simp [h, h'] at hredeem
  · simp [h, h'] at hredeem
  · simp only [h, h', Option.map_some, Option.some.injEq] at hredeem
    simp only [hredeem, hdigest]

/-- **What is signed stays the same at any stage of signing.** -/
theorem Transaction.SignedFrom.sighash?_eq {tx kept : Transaction} (h : tx.SignedFrom kept)
    (index : Nat) : ScriptSig.sighash? kept index = ScriptSig.sighash? tx index :=
  ScriptSig.sighash?_of_frames h.frames_eq h.bare_eq index

/-- What stands at a place of one list has a counterpart at the same place of the other. -/
theorem exists_getElem?_of_forall₂ {α β : Type} {R : α → β → Prop} {l : List α} {l' : List β}
    (h : List.Forall₂ R l l') {index : Nat} {b : β} (hb : l'[index]? = some b) :
    ∃ a, l[index]? = some a ∧ R a b := by
  induction h generalizing index with
  | nil => cases hb
  | @cons a b' l l' hab _ ih =>
    cases index with
    | zero =>
      cases hb
      exact ⟨a, rfl, hab⟩
    | succ index => exact ih hb

namespace PendingSignatures

/-- What the signatures of the inputs of a transaction have to satisfy, input by input, for the
federations that own what is spent. -/
def demands (tx : Transaction) (owners : List Federation) : List Demand :=
  owners.zipIdx.map fun o =>
    ⟨o.1.redeemScript, o.1.threshold,
      (tx.sighash? o.2 o.1.redeemScript).getD (.replicate 32 0)⟩

/-- **A transaction collects signatures** for some demands: each input does for its own, and what is
demanded are signatures of what is signed for the input. -/
structure Collecting (ds : List Demand) (tx : Transaction) : Prop where
  inputs : List.Forall₂ (fun i d => ∃ es, d.Collects es i.scriptSig) tx.inputs ds
  digest : ∀ index d, ds[index]? = some d → tx.sighash? index d.redeem = some d.digest

namespace Collecting

variable {ds : List Demand} {tx : Transaction}

/-- The demands stay the same while only scripts change. -/
theorem of_bare {tx' : Transaction} (h : Collecting ds tx) (hbare : tx'.bare = tx.bare)
    (hinputs : List.Forall₂ (fun i d => ∃ es, d.Collects es i.scriptSig) tx'.inputs ds) :
    Collecting ds tx' where
  inputs := hinputs
  digest := by
    intro index d hd
    rw [← Transaction.sighash?_bare, hbare, Transaction.sighash?_bare]
    exact h.digest index d hd

/-- The digest of an input is found by the script that it carries. -/
theorem sighash?_eq (h : Collecting ds tx) {index : Nat} {d : Demand} (hd : ds[index]? = some d) :
    ScriptSig.sighash? tx index = some d.digest := by
  obtain ⟨input, hinput, es, hcollects⟩ := exists_getElem?_of_forall₂ h.inputs hd
  have hredeem : ScriptSig.redeemScript? input.scriptSig = some d.redeem := by
    rw [ScriptSig.redeemScript?, hcollects.chunks, Option.bind_some, Demand.layout,
      ← List.cons_append, List.getLast?_concat]
  simp only [ScriptSig.sighash?, hinput, hredeem]
  exact h.digest index d hd

/-- A transaction all of whose inputs carry empty slots collects signatures for their owners. -/
theorem of_placeholder {owners : List Federation}
    (hscripts : tx.inputs.map TxIn.scriptSig =
      owners.map fun f => ScriptSig.placeholder f.redeemScript f.threshold)
    (hsize : ∀ f ∈ owners, f.redeemScript.length < UInt32.size) :
    Collecting (demands tx owners) tx where
  inputs := by
    have hnumbered : owners = owners.zipIdx.map Prod.fst := (List.zipIdx_map_fst 0 owners).symm
    have hpairs : List.Forall₂
        (fun (o : Federation × Nat) (i : TxIn) => o.1.redeemScript.length < UInt32.size ∧
          i.scriptSig = ScriptSig.placeholder o.1.redeemScript o.1.threshold)
        owners.zipIdx tx.inputs := by
      refine (List.forall₂_and_left _ _).mpr ⟨fun o ho => hsize o.1 ?_, ?_⟩
      · rw [hnumbered]
        exact List.mem_map_of_mem ho
      · rw [hnumbered, List.map_map, ← List.forall₂_eq_eq_eq, List.forall₂_map_left_iff,
          List.forall₂_map_right_iff] at hscripts
        exact hscripts.flip
    rw [demands, List.forall₂_map_right_iff]
    refine List.Forall₂.flip (hpairs.imp fun o i ⟨hfits, hscript⟩ => ?_)
    exact ⟨[], hscript ▸ Demand.collects_placeholder hfits⟩
  digest := by
    intro index d hd
    have hlength : tx.inputs.length = owners.length := by
      rw [← List.length_map TxIn.scriptSig, hscripts, List.length_map]
    rw [demands, List.getElem?_map, List.getElem?_zipIdx] at hd
    obtain ⟨o, ho, rfl⟩ := Option.map_eq_some_iff.mp hd
    obtain ⟨f, hf, rfl⟩ := Option.map_eq_some_iff.mp ho
    obtain ⟨hlt, -⟩ := List.getElem?_eq_some_iff.mp hf
    simp [Transaction.sighash?, hlength, hlt]

end Collecting

/-! ### Submitted signatures -/

/-- What is known of an input before it is signed: it collects signatures, and a new one has been
read that the demanded keys do not share. -/
structure Ready (key : PublicKey) (c : CheckedInput) (d : Demand) : Prop where
  collects : ∃ es, d.Collects es c.input.scriptSig
  digest : c.digest = d.digest
  read : ∃ der, readSignature der d.digest key = some c.signature ∧ d.IsClear der

/-- Checking submitted signatures finds one that does not sign its input, or all inputs are ready to
be signed. -/
theorem checkFrom_cases {tx : Transaction} (key : PublicKey) {index : Nat} {inputs : List TxIn}
    {ders : List Bytes} {ds : List Demand}
    (hinputs : List.Forall₂ (fun i d => ∃ es, d.Collects es i.scriptSig) inputs ds)
    (hdigest : ∀ e ∈ ds.zipIdx index, ScriptSig.sighash? tx e.2 = some e.1.digest)
    (hclear : ∀ e ∈ ds.zip ders, e.1.IsClear e.2) (hlength : inputs.length = ders.length) :
    (∃ n, checkFrom tx key index inputs ders = .error (.invalidSignature n)) ∨
      ∃ checked, checkFrom tx key index inputs ders = .ok checked ∧
        List.Forall₂ (Ready key) checked ds := by
  induction hinputs generalizing index ders with
  | nil =>
    refine .inr ⟨[], ?_, .nil⟩
    unfold checkFrom
    rfl
  | @cons input d inputs ds hcollects hrest ih =>
    cases ders with
    | nil => cases hlength
    | cons der ders =>
      have hfirst := hdigest (d, index) (by simp)
      unfold checkFrom
      simp only [hfirst]
      rcases hread : readSignature der d.digest key with - | sig
      · exact .inl ⟨index, rfl⟩
      · have hdigests : ∀ e ∈ ds.zipIdx (index + 1),
            ScriptSig.sighash? tx e.2 = some e.1.digest := by
          intro e he
          refine hdigest e ?_
          rw [List.zipIdx_cons]
          exact List.mem_cons_of_mem _ he
        have hclears : ∀ e ∈ ds.zip ders, e.1.IsClear e.2 := by
          intro e he
          refine hclear e ?_
          rw [List.zip_cons_cons]
          exact List.mem_cons_of_mem _ he
        rcases ih hdigests hclears (Nat.succ.inj hlength) with ⟨n, herror⟩ | ⟨checked, hok, hready⟩
        · refine .inl ⟨n, ?_⟩
          simp only [herror]
        · refine .inr ⟨⟨input, d.digest, sig⟩ :: checked, ?_, .cons ?_ hready⟩
          · simp only [hok]
          · exact ⟨hcollects, rfl, der, hread, hclear (d, der) (by simp)⟩

/-- **Signing inputs that are ready never fails**, and they collect signatures as before. -/
theorem exists_signFrom {key : PublicKey} {checked : List CheckedInput} {ds : List Demand}
    (h : List.Forall₂ (Ready key) checked ds)
    (hsize : ∀ d ∈ ds, d.redeem.length < UInt32.size) (index : Nat) :
    ∃ s, signFrom key index checked = .ok s ∧
      List.Forall₂ (fun i d => ∃ es, d.Collects es i.scriptSig) s.inputs ds := by
  induction h generalizing index with
  | nil => exact ⟨⟨[], 0, false⟩, rfl, .nil⟩
  | @cons c d checked ds hready hrest ih =>
    obtain ⟨es, hcollects⟩ := hready.collects
    obtain ⟨der, hread, hclear⟩ := hready.read
    obtain ⟨s, hs, hinputs⟩ := ih (fun d hd => hsize d (List.mem_cons_of_mem _ hd)) (index + 1)
    unfold signFrom
    rcases Demand.signInput_cases (hsize d List.mem_cons_self) hcollects hready.digest hread
      hclear with ⟨hsigning, -⟩ | ⟨hsigning, -⟩ | ⟨hsigning, -⟩ |
      ⟨place, position, script, hsigning, -, -, -, hcollects'⟩
    · simp only [hsigning]
      refine ⟨_, rfl, .cons ⟨es, hcollects⟩ ?_⟩
      rw [List.forall₂_map_left_iff]
      exact hrest.imp fun _ _ h => h.collects
    · simp only [hsigning, hs]
      exact ⟨_, rfl, .cons ⟨es, hcollects⟩ hinputs⟩
    · simp only [hsigning, hs]
      exact ⟨_, rfl, .cons ⟨es, hcollects⟩ hinputs⟩
    · simp only [hsigning, hs]
      exact ⟨_, rfl, .cons ⟨_, hcollects'⟩ hinputs⟩

/-- **Submitted signatures keep a transaction collecting**, and none of its inputs is found
malformed. All slots are filled when it is said to be fully signed. -/
theorem signTransaction_cases {tx : Transaction} (key : PublicKey) {signatures : List Bytes}
    {ds : List Demand} (h : Collecting ds tx) (hsize : ∀ d ∈ ds, d.redeem.length < UInt32.size)
    (hclear : ∀ e ∈ ds.zip signatures, e.1.IsClear e.2) :
    Collecting ds (signTransaction tx key signatures).2 ∧
      (∀ n, (signTransaction tx key signatures).1 ≠ .malformedTransaction n) ∧
      ((signTransaction tx key signatures).1 = .fullySigned →
        ScriptSig.isFullySigned (signTransaction tx key signatures).2) := by
  unfold signTransaction
  by_cases hlength : tx.inputs.length = signatures.length
  case neg =>
    rw [if_pos hlength]
    exact ⟨h, fun n => nofun, nofun⟩
  rw [if_neg (not_not_intro hlength)]
  have hdigest : ∀ e ∈ ds.zipIdx, ScriptSig.sighash? tx e.2 = some e.1.digest := fun e he =>
    h.sighash?_eq (List.mem_zipIdx_iff_getElem?.mp he)
  rcases checkFrom_cases key h.inputs hdigest hclear hlength with
    ⟨n, herror⟩ | ⟨checked, hchecked, hready⟩
  · simp only [herror]
    exact ⟨h, fun n => nofun, nofun⟩
  obtain ⟨s, hsigned, hinputs⟩ := exists_signFrom hready hsize 0
  have hcollecting := h.of_bare (bare_of_signed hlength hchecked hsigned) hinputs
  simp only [hchecked, hsigned]
  by_cases hforeign : (!s.already && s.foreign == tx.inputs.length) = true
  · rw [if_pos hforeign]
    exact ⟨h, fun n => nofun, nofun⟩
  rw [if_neg hforeign]
  by_cases hfull : ScriptSig.isFullySigned { tx with inputs := s.inputs } = true
  · rw [if_pos hfull]
    exact ⟨hcollecting, fun n => nofun, fun _ => hfull⟩
  rw [if_neg hfull]
  cases s.already
  · exact ⟨hcollecting, fun n => nofun, nofun⟩
  · exact ⟨hcollecting, fun n => nofun, nofun⟩

/-- **When all slots are filled, all inputs have all signatures.** -/
theorem Collecting.satisfied {ds : List Demand} {tx : Transaction} (h : Collecting ds tx)
    (hfull : ScriptSig.isFullySigned tx) :
    List.Forall₂ (fun i d => ∃ es signers, d.Satisfied es signers i.scriptSig) tx.inputs ds := by
  have hcomplete : ∀ i ∈ tx.inputs, ScriptSig.isComplete i.scriptSig := List.all_eq_true.mp hfull
  refine ((List.forall₂_and_left _ _).mpr ⟨hcomplete, h.inputs⟩).imp ?_
  rintro i d ⟨hi, es, hcollects⟩
  exact ⟨es, hcollects.satisfied hi⟩

/-! ### Any number of submissions -/

/-- Signatures that a member submits for the transaction kept under a host transaction. -/
structure Submission where
  hash : HostTxHash
  key : PublicKey
  signatures : List Bytes

/-- Takes submissions one after another. -/
def submitAll (p : PendingSignatures) (subs : List Submission) : PendingSignatures :=
  subs.foldl (fun p s => (submit p s.hash s.key s.signatures).2) p

section Submissions

variable {p : PendingSignatures} {hash : HostTxHash} {ds : List Demand}

/-- **One submission** keeps the transaction collecting, as long as it is kept. -/
theorem collecting_submit (hsize : ∀ d ∈ ds, d.redeem.length < UInt32.size) (s : Submission)
    (hclear : s.hash = hash → ∀ e ∈ ds.zip s.signatures, e.1.IsClear e.2)
    (h : ∀ tx, p.get? hash = some tx → Collecting ds tx) (tx : Transaction)
    (htx : (submit p s.hash s.key s.signatures).2.get? hash = some tx) : Collecting ds tx := by
  unfold submit at htx
  rcases hfound : p.get? s.hash with - | kept
  · simp only [hfound] at htx
    exact h tx htx
  simp only [hfound] at htx
  by_cases hhash : hash = s.hash
  · subst hhash
    obtain ⟨hcollecting, -, -⟩ := signTransaction_cases s.key (h kept hfound) hsize (hclear rfl)
    split at htx
    · rw [SortedMap.get?_erase_self] at htx
      cases htx
    · next signed _ hsigned =>
      rw [SortedMap.get?_insert_self] at htx
      cases htx
      rw [hsigned] at hcollecting
      exact hcollecting
  · -- another transaction is signed
    refine h tx ?_
    split at htx
    · rw [SortedMap.get?_erase_ne _ hhash] at htx
      exact htx
    · rw [SortedMap.get?_insert_ne _ _ hhash] at htx
      exact htx

/-- **Any number of submissions** keep the transaction collecting, as long as it is kept. -/
theorem collecting_submitAll (hsize : ∀ d ∈ ds, d.redeem.length < UInt32.size)
    {subs : List Submission}
    (hclear : ∀ s ∈ subs, s.hash = hash → ∀ e ∈ ds.zip s.signatures, e.1.IsClear e.2)
    (h : ∀ tx, p.get? hash = some tx → Collecting ds tx) (tx : Transaction)
    (htx : (submitAll p subs).get? hash = some tx) : Collecting ds tx := by
  induction subs generalizing p with
  | nil => exact h tx htx
  | cons s subs ih =>
    exact ih (fun s hs => hclear s (List.mem_cons_of_mem _ hs))
      (collecting_submit hsize s (hclear s List.mem_cons_self) h) htx

/-- What is said of a submission is what becomes of the transaction that is kept. -/
theorem submit_fst {tx : Transaction} (hfound : p.get? hash = some tx) (key : PublicKey)
    (signatures : List Bytes) :
    (submit p hash key signatures).1 = (signTransaction tx key signatures).1 := by
  unfold submit
  simp only [hfound]
  split
  · next hsigned => rw [hsigned]
  · next hsigned => rw [hsigned]

end Submissions

/-- No signature that is submitted is one of two keys that its input lists. -/
def Submission.IsClear (s : Submission) (ds : List Demand) : Prop :=
  ∀ e ∈ ds.zip s.signatures, e.1.IsClear e.2

/-- **A transaction collects signatures in the order of their keys**, whoever submits what. It
starts with empty slots for the owners of what it spends; as long as it is kept, all inputs collect
signatures of what is signed for them; no input is ever found malformed; and when it is said to be
fully signed, all inputs have all signatures. Signatures are assumed not to be shared by keys of one
input. -/
theorem collects_in_order (tx : Transaction) (owners : List Federation)
    (hscripts : tx.inputs.map TxIn.scriptSig =
      owners.map fun f => ScriptSig.placeholder f.redeemScript f.threshold)
    (hsize : ∀ f ∈ owners, f.redeemScript.length < UInt32.size)
    (p : PendingSignatures) (hash : HostTxHash) (subs : List Submission)
    (hclear : ∀ s ∈ subs, s.hash = hash → s.IsClear (demands tx owners)) :
    (∀ kept, (submitAll (p.insert hash tx) subs).get? hash = some kept →
      Collecting (demands tx owners) kept) ∧
    ∀ before s after, subs = before ++ s :: after → s.hash = hash →
      (∀ n, (submit (submitAll (p.insert hash tx) before) hash s.key s.signatures).1 ≠
        .malformedTransaction n) ∧
      ((submit (submitAll (p.insert hash tx) before) hash s.key s.signatures).1 = .fullySigned →
        ∃ kept, (submitAll (p.insert hash tx) before).get? hash = some kept ∧
          Collecting (demands tx owners) (signTransaction kept s.key s.signatures).2 ∧
          List.Forall₂ (fun i d => ∃ es signers, d.Satisfied es signers i.scriptSig)
            (signTransaction kept s.key s.signatures).2.inputs (demands tx owners)) := by
  have hsizes : ∀ d ∈ demands tx owners, d.redeem.length < UInt32.size := by
    intro d hd
    obtain ⟨o, ho, rfl⟩ := List.mem_map.mp hd
    exact hsize o.1 (List.fst_mem_of_mem_zipIdx ho)
  have hstart : ∀ kept, (p.insert hash tx).get? hash = some kept →
      Collecting (demands tx owners) kept := by
    intro kept hkept
    rw [SortedMap.get?_insert_self] at hkept
    cases hkept
    exact Collecting.of_placeholder hscripts hsize
  refine ⟨collecting_submitAll hsizes hclear hstart, ?_⟩
  rintro before s after rfl rfl
  have hbefore := collecting_submitAll hsizes
    (fun other hother => hclear other (List.mem_append_left _ hother)) hstart
  have hnext := hclear s (List.mem_append_right _ List.mem_cons_self) rfl
  rcases hfound : (submitAll (p.insert s.hash tx) before).get? s.hash with - | kept
  · have hnone : (submit (submitAll (p.insert s.hash tx) before) s.hash s.key s.signatures).1 =
        .noPendingTransaction := by
      unfold submit
      simp only [hfound]
    rw [hnone]
    exact ⟨fun n => nofun, nofun⟩
  · obtain ⟨hcollecting, hmalformed, hfull⟩ :=
      signTransaction_cases s.key (hbefore kept hfound) hsizes hnext
    rw [submit_fst hfound]
    refine ⟨hmalformed, fun hsigned => ⟨kept, rfl, hcollecting, ?_⟩⟩
    exact hcollecting.satisfied (hfull hsigned)

namespace Example

/-- The base point of the curve as a key. -/
def firstKey : PublicKey :=
  ⟨0x02 :: Bytes.ofNatBE 32 0x79be667ef9dcbbac55a06295ce870b07029bfcdb2dce28d959f2815b16f81798,
    by decide +kernel⟩

/-- The double of the base point as a key. -/
def secondKey : PublicKey :=
  ⟨0x02 :: Bytes.ofNatBE 32 0xc6047f9441ed7d6d3045406e95c07cd85c778e4b8cef3ca7abac09b95c709ee5,
    by decide +kernel⟩

/-- The triple of the base point as a key. -/
def thirdKey : PublicKey :=
  ⟨0x02 :: Bytes.ofNatBE 32 0xf9308a019258c31049344f85f89d5229b531c845836f99b08601f113bce036f9,
    by decide +kernel⟩

/-- A federation with three members, two of whom spend. -/
def federation : Federation :=
  ⟨[.ofKey firstKey, .ofKey secondKey, .ofKey thirdKey], 0, 0, .regtest⟩

/-- The federation is formed by its members. -/
theorem federation_isFormed : federation.IsFormed := by
  refine ⟨federation.members, 0, 0, .regtest, ?_⟩
  have hordered : Federation.ordered federation.members = federation.members :=
    List.mergeSort_of_pairwise (by decide +kernel)
  have hrepeated : Federation.repeatedKey? federation.members = none := by decide +kernel
  have hmembers : ¬ federation.members.isEmpty = true := by decide
  have hsize : ¬ maxFederationSize < federation.members.length := by decide
  rw [Federation.form, if_neg hmembers, if_neg hsize]
  simp only [hordered, hrepeated]
  rfl

/-- A release of the federation that nobody has signed. -/
def release : Transaction where
  version := 1
  inputs :=
    [⟨⟨⟨.replicate 32 2⟩, 0⟩, ScriptSig.placeholder federation.redeemScript federation.threshold,
      0xFFFFFFFF, []⟩]
  outputs := [⟨.clamp 100000, federation.payScript⟩]
  lockTime := 0

/-- What the signatures of the release have to satisfy. -/
def demand : Demand where
  redeem := federation.redeemScript
  slots := 2
  digest := .ofNat 32 0xd7ecb942bed667a61d3e783280ac8bcf5aee0724152d06f18db743bff0aed640

/-- The signature of the first member. -/
def firstSignature : Ecdsa.Signature where
  r := 0x250ce1da0272e36ffae0b99003250aeae0f8e6dbbaf14b48c93c1cfe3590cbb5
  s := 0x1d52e738399ce479a06b3fc09b718551e991a8fa2cc9cedef05cf6bd7541837f

/-- The signature of the third member. -/
def thirdSignature : Ecdsa.Signature where
  r := 0x6a6d4d6a81c238f6cf14bf88fe73802ce2ed67838efd8f9cb3a31319f98fa260
  s := 0x421a449434315d513cd50b53a1f0fb3befd7eb1de544c7af10cb3a439ef02a90

/-- The host transaction that the release is kept under. -/
def hostTx : HostTxHash := ⟨.replicate 32 9⟩

/-- What the third member submits. -/
def fromThird : Submission := ⟨hostTx, thirdKey, [thirdSignature.encode]⟩

/-- What the first member submits. -/
def fromFirst : Submission := ⟨hostTx, firstKey, [firstSignature.encode]⟩

/-- The release has one input, with one demand. -/
theorem demands_release : demands release [federation] = [demand] := by
  set_option maxRecDepth 100000 in
  decide +kernel

/-- The keys of the demand are those of the members. -/
theorem keys_demand : demand.keys = federation.btcKeys :=
  federation_isFormed.keysOf_redeemScript

/-- No two members share a signature. -/
theorem isClear_submissions :
    ∀ s ∈ [fromThird, fromFirst], s.IsClear (demands release [federation]) := by
  have hthird : demand.IsClear thirdSignature.encode := by
    refine Demand.isClear_of_others thirdKey ?_
    rw [keys_demand]
    set_option maxRecDepth 100000 in
    decide +kernel
  have hfirst : demand.IsClear firstSignature.encode := by
    refine Demand.isClear_of_others firstKey ?_
    rw [keys_demand]
    set_option maxRecDepth 100000 in
    decide +kernel
  rw [demands_release]
  simp only [List.forall_mem_cons, Submission.IsClear, fromThird, fromFirst, List.zip_cons_cons,
    List.zip_nil_right]
  exact ⟨⟨hthird, nofun⟩, ⟨hfirst, nofun⟩, nofun⟩

end Example

/-- The third of three members signs before the first one does, and the signatures end up in the
order of the keys. -/
theorem collects_in_order_two_of_three :
    (Example.release.inputs.map TxIn.scriptSig = [Example.federation].map fun f =>
        ScriptSig.placeholder f.redeemScript f.threshold) ∧
      (∀ f ∈ [Example.federation], f.redeemScript.length < UInt32.size) ∧
      (∀ s ∈ [Example.fromThird, Example.fromFirst], s.hash = Example.hostTx →
        s.IsClear (demands Example.release [Example.federation])) ∧
      ∃ kept, (submitAll (SortedMap.empty.insert Example.hostTx Example.release)
          [Example.fromThird]).get? Example.hostTx = some kept ∧
        Collecting (demands Example.release [Example.federation])
          (signTransaction kept Example.firstKey [Example.firstSignature.encode]).2 ∧
        List.Forall₂ (fun i d => ∃ es signers, d.Satisfied es signers i.scriptSig)
          (signTransaction kept Example.firstKey [Example.firstSignature.encode]).2.inputs
          (demands Example.release [Example.federation]) := by
  have hsize : ∀ f ∈ [Example.federation], f.redeemScript.length < UInt32.size :=
    List.forall_mem_singleton.mpr Example.federation_isFormed.redeemScript_lt
  have hfull : (submit (submitAll (SortedMap.empty.insert Example.hostTx Example.release)
      [Example.fromThird]) Example.hostTx Example.firstKey
      [Example.firstSignature.encode]).1 = .fullySigned := by
    set_option maxRecDepth 100000 in
    decide +kernel
  refine ⟨rfl, hsize, fun s hs _ => Example.isClear_submissions s hs, ?_⟩
  exact ((collects_in_order Example.release [Example.federation] rfl hsize SortedMap.empty
    Example.hostTx [Example.fromThird, Example.fromFirst]
    fun s hs _ => Example.isClear_submissions s hs).2 [Example.fromThird] Example.fromFirst []
    rfl rfl).2 hfull

end PendingSignatures

end TwoWayPeg
