import TwoWayPeg.Peg.Payout
import TwoWayPeg.Proofs.Release.Collecting
import TwoWayPeg.Proofs.SortedMap

/-!
# What a submission does to a transaction

Signing an input reads all strings that it pushes and writes them again, the filled slots moved
together. The inputs are signed one after the other on a copy, which is kept even if the walk stops
in the middle. Whatever the stored transaction is, no signature gets lost that way: a submission
that is refused changes nothing, and one that is taken adds at most the submitted signature to each
input.

That the slot is filled with the bytes that were submitted needs that a valid signature has one
spelling, as it is its encoding that is put into the slot.

* `PendingSignatures.Signs`, `PendingSignatures.signs_signInput`: what signing one input comes to.
* `PendingSignatures.SignsAll`, `PendingSignatures.signsAll_of_signFrom`: what signing the inputs in
  order comes to.
* `PendingSignatures.Submitted`: what becomes of a transaction, whatever is submitted.
* `Transaction.Extends`: a transaction with at most one more slot filled in each input.
* `PendingSignatures.submit_extends`: signing touches nothing but slots, and takes nothing out of
  them.
-/

namespace TwoWayPeg

/-- Whether the signatures were refused, so that nothing was done with them. -/
def SigningOutcome.isRefusal : SigningOutcome → Bool
  | unknownFederator => true
  | noPendingTransaction => true
  | countMismatch _ _ => true
  | invalidSignature _ => true
  | notAFederationKey _ => true
  | malformedTransaction _ => true
  | alreadySigned => false
  | partiallySigned => false
  | fullySigned => false

/-! ### What an input holds -/

namespace TxIn

/-- The slots of an input: what it pushes between the first string and the last. -/
def slots (i : TxIn) : List Bytes := ((i.scriptSig.chunks.getD []).drop 1).dropLast

/-- The slots that are filled, in their order. -/
def filled (i : TxIn) : List Bytes := i.slots.filter fun slot => !slot.isEmpty

/-- The keys that the script of an input lists. -/
def keys (i : TxIn) : List PublicKey :=
  ScriptSig.keysOf ((i.scriptSig.chunks.getD []).getLastD [])

/-- The keys that the script of an input lists are kept in its frame. -/
theorem keys_eq (i : TxIn) : i.keys = ScriptSig.keysOf ((i.frame.map Prod.snd).getD []) := by
  rw [← redeemScript?_eq, ScriptSig.redeemScript?, keys]
  rcases i.scriptSig.chunks with - | cs
  · rfl
  · rw [Option.getD_some, Option.bind_some, List.getLastD_eq_getLast?]

/-- Whether all slots are filled. -/
def isComplete (i : TxIn) : Bool := ScriptSig.isComplete i.scriptSig

/-- Whether one of the slots holds a signature of a digest with a key. -/
def isSignedBy (i : TxIn) (digest : FixedBytes 32) (key : PublicKey) : Bool :=
  i.filled.any fun slot => PendingSignatures.slotSignedBy slot digest key

variable {i : TxIn} {cs : List Bytes}

/-- All slots are filled if as many are filled as there are. -/
theorem isComplete_iff (h : i.scriptSig.chunks = some cs) (hlength : 2 ≤ cs.length) :
    i.isComplete = true ↔ i.slots.length ≤ i.filled.length := by
  have hslots : i.slots = (cs.drop 1).dropLast := by
    rw [slots, h, Option.getD_some]
  rw [isComplete, ScriptSig.isComplete, h]
  simp only [decide_eq_true hlength, Bool.true_and, ← hslots, List.all_eq_true]
  rw [← List.length_filter_eq_length_iff, ← filled]
  have hle : i.filled.length ≤ i.slots.length := List.length_filter_le _ _
  omega

/-- The slots that are filled among given ones and empty ones behind them. -/
theorem filled_of_chunks {first redeem : Bytes} {filled : List Bytes} {n : Nat}
    (h : i.scriptSig.chunks = some (first :: (filled ++ List.replicate n [] ++ [redeem])))
    (hfilled : ∀ slot ∈ filled, slot ≠ []) : i.filled = filled := by
  have hslots : i.slots = filled ++ List.replicate n [] := by
    rw [slots, h, Option.getD_some, List.drop_succ_cons, List.drop_zero, List.dropLast_concat]
  have hkept : filled.filter (fun slot => !slot.isEmpty) = filled :=
    List.filter_eq_self.mpr fun slot hslot => by simpa using hfilled slot hslot
  rw [TxIn.filled, hslots, List.filter_append, hkept]
  simp

/-- A filled slot is not empty. -/
theorem ne_nil_of_mem_filled {slot : Bytes} (h : slot ∈ i.filled) : slot ≠ [] := by
  simpa using (List.mem_filter.mp h).2

/-- **An input has one more slot filled**: it spends what it spent, pushes as many strings and the
same last one, and to the filled slots one has been added. -/
structure Grown (i : TxIn) (slot : Bytes) (i' : TxIn) : Prop where
  rest : i' = { i with scriptSig := i'.scriptSig }
  frame : i'.frame = i.frame
  filled : ∃ position ≤ i.filled.length, i'.filled = i.filled.insertIdx position slot

/-- An input with one more slot filled is another one. -/
theorem Grown.ne {i i' : TxIn} {slot : Bytes} (h : i.Grown slot i') : i' ≠ i := by
  obtain ⟨position, hposition, hfilled⟩ := h.filled
  rintro rfl
  have hlength := congrArg List.length hfilled
  rw [List.length_insertIdx_of_le_length hposition] at hlength
  omega

end TxIn

namespace PendingSignatures

/-- Whether a key has signed an input. -/
def CheckedInput.isSignedBy (c : CheckedInput) (key : PublicKey) : Bool :=
  c.input.isSignedBy c.digest key

/-- **What signing one input comes to**, by what the input holds. -/
inductive Signs (key : PublicKey) (c : CheckedInput) : InputSigning → Prop
  | malformed : Signs key c .malformed
  | alreadySigned (hsigned : c.isSignedBy key = true) : Signs key c .alreadySigned
  | foreign (hunsigned : c.isSignedBy key = false) (hunlisted : key ∉ c.input.keys) :
    Signs key c .foreign
  /-- The key is listed, and all slots are filled. -/
  | full (hunsigned : c.isSignedBy key = false) (hlisted : key ∈ c.input.keys)
    (hcomplete : c.input.isComplete = true) : Signs key c (.signed c.input.scriptSig)
  /-- The key is listed, and one more slot is filled. -/
  | grown (script : Script) (hunsigned : c.isSignedBy key = false) (hlisted : key ∈ c.input.keys)
    (hroom : c.input.isComplete = false)
    (hgrown : c.input.Grown (slotOf c.signature) { c.input with scriptSig := script }) :
    Signs key c (.signed script)

/-- Filling a slot of an input adds the signature to the filled ones. -/
theorem grown_of_fill {i : TxIn} {pushed : List Bytes} {position : Nat} {script : Script}
    {sig : Ecdsa.Signature} (hpushed : i.scriptSig.chunks = some pushed)
    (hlength : 2 ≤ pushed.length) (hroom : i.filled.length < i.slots.length)
    (hposition : position ≤ i.filled.length)
    (hfill : fill i.slots.length (i.filled.insertIdx position (slotOf sig))
      (pushed.getLastD []) = some script) :
    i.Grown (slotOf sig) { i with scriptSig := script } := by
  have hchunks := Script.chunks_of_ofChunks? hfill
  have hsize : (i.filled.insertIdx position (slotOf sig)).length = i.filled.length + 1 :=
    List.length_insertIdx_of_le_length hposition _
  have hfilled : ∀ slot ∈ i.filled.insertIdx position (slotOf sig), slot ≠ [] := by
    intro slot hslot
    rcases (List.mem_insertIdx hposition).mp hslot with rfl | hslot
    · exact slotOf_ne_nil sig
    · exact TxIn.ne_nil_of_mem_filled hslot
  constructor
  case rest => rfl
  case frame =>
    obtain ⟨front, redeem, rfl⟩ : ∃ front redeem, pushed = front ++ [redeem] := by
      rcases List.eq_nil_or_concat pushed with rfl | ⟨front, redeem, rfl⟩
      · cases hlength
      · exact ⟨front, redeem, List.concat_eq_append⟩
    have hslots : i.slots.length = front.length - 1 := by
      rw [TxIn.slots, hpushed, Option.getD_some, List.length_dropLast, List.length_drop,
        List.length_append, List.length_singleton]
      omega
    rw [List.getLastD_concat, ← List.cons_append] at hchunks
    rw [TxIn.frame_of_chunks hpushed,
      TxIn.frame_of_chunks (i := { i with scriptSig := script }) hchunks]
    rw [List.length_append, List.length_singleton] at hlength
    congr 2
    simp only [List.length_cons, List.length_append, List.length_replicate, hsize]
    omega
  case filled =>
    exact ⟨position, hposition, TxIn.filled_of_chunks hchunks hfilled⟩

/-- **Signing one input** comes to this, whatever it holds. -/
theorem signs_signInput (key : PublicKey) (c : CheckedInput) : Signs key c (signInput key c) := by
  unfold signInput
  split
  · exact .malformed
  · next pushed hpushed =>
    have hslots : c.input.slots = (pushed.drop 1).dropLast := by
      rw [TxIn.slots, hpushed, Option.getD_some]
    have hkeys : c.input.keys = ScriptSig.keysOf (pushed.getLastD []) := by
      rw [TxIn.keys, hpushed, Option.getD_some]
    split
    · exact .malformed
    · next hshort =>
      have hlength := Nat.not_lt.mp hshort
      simp only [← hslots, ← hkeys, ← TxIn.filled.eq_1]
      split
      · next hsigned => exact .alreadySigned hsigned
      · next hunsigned =>
        rw [← TxIn.isSignedBy, ← CheckedInput.isSignedBy, Bool.not_eq_true] at hunsigned
        split
        · next hplace =>
          refine .foreign hunsigned fun hmem => ?_
          simpa using List.findIdx?_eq_none_iff.mp hplace key hmem
        · next place hplace =>
          have hlisted : key ∈ c.input.keys := by
            obtain ⟨hlt, hkey, -⟩ := List.findIdx?_eq_some_iff_getElem.mp hplace
            rw [← eq_of_beq hkey]
            exact List.getElem_mem hlt
          split
          · next hfull =>
            exact .full hunsigned hlisted ((TxIn.isComplete_iff hpushed hlength).mpr hfull)
          · next hroom =>
            split
            · exact .malformed
            · next position hposition =>
              split
              · exact .malformed
              · next script hfill =>
                refine .grown script hunsigned hlisted ?_ ?_
                · rw [← Bool.not_eq_true, TxIn.isComplete_iff hpushed hlength]
                  exact hroom
                · exact grown_of_fill hpushed hlength (Nat.lt_of_not_le hroom)
                    (slotPosition_le hposition) hfill

/-! ### All inputs of a transaction -/

/-- What stands in relation to the same is related, place by place. -/
theorem forall₂_comp {α β γ : Type} {R : α → β → Prop} {S : β → γ → Prop} {as : List α}
    {bs : List β} {cs : List γ} (h : List.Forall₂ R as bs) (h' : List.Forall₂ S bs cs) :
    List.Forall₂ (fun a c => ∃ b, R a b ∧ S b c) as cs := by
  induction h generalizing cs with
  | nil =>
    cases h'
    exact .nil
  | cons hab _ ih =>
    cases h' with
    | cons hbc hrest => exact .cons ⟨_, hab, hbc⟩ (ih hrest)

/-- What has been checked of an input with its number and the signature submitted for it. -/
structure Checks (tx : Transaction) (key : PublicKey) (e : (TxIn × Bytes) × Nat)
    (c : CheckedInput) : Prop where
  input : c.input = e.1.1
  digest : ScriptSig.sighash? tx e.2 = some c.digest
  read : readSignature e.1.2 c.digest key = some c.signature

/-- What has been checked of the inputs when no fault was found. -/
theorem forall₂_of_checkFrom {tx : Transaction} {key : PublicKey} {index : Nat}
    {inputs : List TxIn} {ders : List Bytes} {checked : List CheckedInput}
    (h : checkFrom tx key index inputs ders = .ok checked) (hlength : inputs.length = ders.length) :
    List.Forall₂ (Checks tx key) ((inputs.zip ders).zipIdx index) checked := by
  induction inputs generalizing index ders checked with
  | nil =>
    cases h
    exact .nil
  | cons input inputs ih =>
    cases ders with
    | nil => cases hlength
    | cons der ders =>
      unfold checkFrom at h
      split at h
      · cases h
      · next digest hdigest =>
        split at h
        · cases h
        · next sig hread =>
          split at h
          · cases h
          · next rest hrest =>
            cases h
            rw [List.zip_cons_cons, List.zipIdx_cons]
            exact .cons ⟨rfl, hdigest, hread⟩ (ih hrest (Nat.succ.inj hlength))

/-- What has been checked of one input. -/
theorem getElem?_of_checkFrom {tx : Transaction} {key : PublicKey} {signatures : List Bytes}
    {checked : List CheckedInput} (hlength : tx.inputs.length = signatures.length)
    (h : checkFrom tx key 0 tx.inputs signatures = .ok checked) {index : Nat} {c : CheckedInput}
    (hc : checked[index]? = some c) :
    tx.inputs[index]? = some c.input ∧ ScriptSig.sighash? tx index = some c.digest ∧
      ∃ der, signatures[index]? = some der ∧ readSignature der c.digest key = some c.signature := by
  obtain ⟨⟨⟨input, der⟩, number⟩, he, hchecks⟩ :=
    exists_getElem?_of_forall₂ (forall₂_of_checkFrom h hlength) hc
  rw [List.getElem?_zipIdx, Nat.zero_add] at he
  obtain ⟨pair, hpair, hnumber⟩ := Option.map_eq_some_iff.mp he
  cases hnumber
  obtain ⟨hinput, hder⟩ := List.getElem?_zip_eq_some.mp hpair
  exact ⟨by rw [hinput, hchecks.input], hchecks.digest, der, hder, hchecks.read⟩

/-- A fault that is found is a refusal. -/
theorem isRefusal_of_checkFrom {tx : Transaction} {key : PublicKey} {index : Nat}
    {inputs : List TxIn} {ders : List Bytes} {outcome : SigningOutcome}
    (h : checkFrom tx key index inputs ders = .error outcome) : outcome.isRefusal = true := by
  induction inputs generalizing index ders with
  | nil => cases h
  | cons input inputs ih =>
    cases ders with
    | nil => cases h
    | cons der ders =>
      unfold checkFrom at h
      split at h
      · cases h
        rfl
      · split at h
        · cases h
          rfl
        · split at h
          · next hrest =>
            cases h
            exact ih hrest
          · cases h

/-- **What signing the inputs in order comes to**, input by input. -/
inductive SignsAll (key : PublicKey) : List CheckedInput → SignedInputs → Prop
  | nil : SignsAll key [] ⟨[], 0, false⟩
  /-- The key has signed the input before, and signing ends there. -/
  | alreadySigned {c : CheckedInput} (rest : List CheckedInput)
    (hsigned : c.isSignedBy key = true) :
    SignsAll key (c :: rest) ⟨c.input :: rest.map (·.input), 0, true⟩
  | foreign {c : CheckedInput} {rest : List CheckedInput} {s : SignedInputs}
    (hunsigned : c.isSignedBy key = false) (hunlisted : key ∉ c.input.keys)
    (hrest : SignsAll key rest s) :
    SignsAll key (c :: rest) { s with inputs := c.input :: s.inputs, foreign := s.foreign + 1 }
  | full {c : CheckedInput} {rest : List CheckedInput} {s : SignedInputs}
    (hunsigned : c.isSignedBy key = false) (hlisted : key ∈ c.input.keys)
    (hcomplete : c.input.isComplete = true) (hrest : SignsAll key rest s) :
    SignsAll key (c :: rest) { s with inputs := c.input :: s.inputs }
  | grown {c : CheckedInput} {i : TxIn} {rest : List CheckedInput} {s : SignedInputs}
    (hunsigned : c.isSignedBy key = false) (hlisted : key ∈ c.input.keys)
    (hroom : c.input.isComplete = false) (hgrown : c.input.Grown (slotOf c.signature) i)
    (hrest : SignsAll key rest s) : SignsAll key (c :: rest) { s with inputs := i :: s.inputs }

/-- **Signing the inputs in order**, when none is malformed, comes to this. -/
theorem signsAll_of_signFrom {key : PublicKey} {index : Nat} {checked : List CheckedInput}
    {s : SignedInputs} (h : signFrom key index checked = .ok s) : SignsAll key checked s := by
  induction checked generalizing index s with
  | nil =>
    cases h
    exact .nil
  | cons c rest ih =>
    have hsigns := signs_signInput key c
    unfold signFrom at h
    split at h
    · cases h
    · next hsigning =>
      rw [hsigning] at hsigns
      cases h
      cases hsigns with
      | alreadySigned hsigned => exact .alreadySigned rest hsigned
    · next hsigning =>
      rw [hsigning] at hsigns
      split at h
      · cases h
      · next hrest =>
        cases h
        cases hsigns with
        | foreign hunsigned hunlisted => exact .foreign hunsigned hunlisted (ih hrest)
    · next script hsigning =>
      rw [hsigning] at hsigns
      split at h
      · cases h
      · next hrest =>
        cases h
        cases hsigns with
        | full hunsigned hlisted hcomplete =>
          exact .full hunsigned hlisted hcomplete (ih hrest)
        | grown _ hunsigned hlisted hroom hgrown =>
          exact .grown hunsigned hlisted hroom hgrown (ih hrest)

/-- What an input may be after signing: what it was, or with one more slot filled. -/
def Follows (key : PublicKey) (c : CheckedInput) (i : TxIn) : Prop :=
  i = c.input ∨ key ∈ c.input.keys ∧ c.input.isComplete = false ∧
    c.input.Grown (slotOf c.signature) i

/-- Signing inputs leaves each as it was, or fills one of its slots. -/
theorem SignsAll.follows {key : PublicKey} {checked : List CheckedInput} {s : SignedInputs}
    (h : SignsAll key checked s) : List.Forall₂ (Follows key) checked s.inputs := by
  induction h with
  | nil => exact .nil
  | alreadySigned rest _ =>
    refine .cons (.inl rfl) ?_
    rw [List.forall₂_map_right_iff, List.forall₂_same]
    exact fun c _ => .inl rfl
  | foreign _ _ _ ih => exact .cons (.inl rfl) ih
  | full _ _ _ _ ih => exact .cons (.inl rfl) ih
  | grown _ hlisted hroom hgrown _ ih => exact .cons (.inr ⟨hlisted, hroom, hgrown⟩) ih

/-- What is said of signatures that have been taken. -/
def verdict (tx : Transaction) (already : Bool) : SigningOutcome :=
  if ScriptSig.isFullySigned tx then .fullySigned
  else if already then .alreadySigned else .partiallySigned

/-- What is said of signatures that have been taken. -/
theorem verdict_cases (tx : Transaction) (already : Bool) :
    verdict tx already = .fullySigned ∨
      verdict tx already = (if already then .alreadySigned else .partiallySigned) := by
  unfold verdict
  split
  · exact .inl rfl
  · exact .inr rfl

/-- Signatures that have been taken are not refused. -/
theorem isRefusal_verdict (tx : Transaction) (already : Bool) :
    (verdict tx already).isRefusal = false := by
  unfold verdict
  split
  · rfl
  · split
    · rfl
    · rfl

/-- **What becomes of a transaction** when signatures are submitted for it. -/
inductive Submitted (tx : Transaction) (key : PublicKey) (signatures : List Bytes) :
    SigningOutcome × Transaction → Prop
  /-- The signatures are refused, and the transaction stays as it is. -/
  | refused (outcome : SigningOutcome) (hrefusal : outcome.isRefusal = true) :
    Submitted tx key signatures (outcome, tx)
  /-- All signatures have been checked, and the inputs have been signed. -/
  | taken (checked : List CheckedInput) (s : SignedInputs)
    (hlength : tx.inputs.length = signatures.length)
    (hchecked : checkFrom tx key 0 tx.inputs signatures = .ok checked)
    (hsigned : SignsAll key checked s)
    (hlisted : s.already = true ∨ s.foreign ≠ tx.inputs.length) :
    Submitted tx key signatures
      (verdict { tx with inputs := s.inputs } s.already, { tx with inputs := s.inputs })

/-- Signatures that are submitted are refused or taken. -/
theorem submitted_signTransaction (tx : Transaction) (key : PublicKey) (signatures : List Bytes) :
    Submitted tx key signatures (signTransaction tx key signatures) := by
  unfold signTransaction
  split
  · exact .refused _ rfl
  · next hlength =>
    rw [ne_eq, Decidable.not_not] at hlength
    split
    · next outcome hfault => exact .refused _ (isRefusal_of_checkFrom hfault)
    · next checked hchecked =>
      split
      · exact .refused _ rfl
      · next s hsigned =>
        split
        · exact .refused _ rfl
        · next hforeign =>
          have hlisted : s.already = true ∨ s.foreign ≠ tx.inputs.length := by
            cases hs : s.already with
            | true => exact .inl rfl
            | false => exact .inr (by simpa [hs] using hforeign)
          have htaken := Submitted.taken checked s hlength hchecked (signsAll_of_signFrom hsigned)
            hlisted
          unfold verdict at htaken
          simp only at htaken ⊢
          split
          · next hfull =>
            rw [if_pos hfull] at htaken
            exact htaken
          · next hfull =>
            rw [if_neg hfull] at htaken
            exact htaken

/-! ### What is kept under host transactions -/

section Map

variable {p : PendingSignatures} {hash : HostTxHash} {key : PublicKey} {signatures : List Bytes}

/-- Nothing is done where nothing is kept. -/
theorem submit_of_none (h : p.get? hash = none) :
    submit p hash key signatures = (.noPendingTransaction, p) := by
  simp only [submit, h]

/-- What is kept is left out when it is fully signed, and replaced otherwise. -/
theorem submit_of_some {tx : Transaction} (h : p.get? hash = some tx) :
    submit p hash key signatures =
      ((signTransaction tx key signatures).1,
        if (signTransaction tx key signatures).1 = .fullySigned then p.erase hash
        else p.insert hash (signTransaction tx key signatures).2) := by
  unfold submit
  simp only [h]
  split
  · next hsigned => rw [hsigned, if_pos rfl]
  · next hother hsigned =>
    have hopen : (signTransaction tx key signatures).1 ≠ .fullySigned := by
      rw [hsigned]
      exact hother
    rw [hsigned] at hopen ⊢
    rw [if_neg hopen]

/-- Other entries are not touched. -/
theorem get?_submit_ne {other : HostTxHash} (h : other ≠ hash) :
    (submit p hash key signatures).2.get? other = p.get? other := by
  rcases hfound : p.get? hash with - | tx
  · rw [submit_of_none hfound]
  · rw [submit_of_some hfound]
    dsimp only
    split
    · exact SortedMap.get?_erase_ne p h
    · exact SortedMap.get?_insert_ne p _ h

/-- What is kept after a submission was kept before and has been signed. -/
theorem exists_of_get?_submit {kept : Transaction}
    (h : (submit p hash key signatures).2.get? hash = some kept) :
    ∃ tx, p.get? hash = some tx ∧ kept = (signTransaction tx key signatures).2 := by
  rcases hfound : p.get? hash with - | tx
  · rw [submit_of_none hfound, hfound] at h
    cases h
  · rw [submit_of_some hfound] at h
    dsimp only at h
    split at h
    · rw [SortedMap.get?_erase_self] at h
      cases h
    · rw [SortedMap.get?_insert_self] at h
      exact ⟨tx, rfl, (Option.some.inj h).symm⟩

end Map

end PendingSignatures

/-! ### Nothing else changes -/

namespace TxIn

/-- **An input after a submission**: nothing but its script may be another one. The script pushes as
many strings as before and ends with the same one, and the slots that were filled are filled as
before, in the same order, with at most one more among them: the submitted signature and the byte
that commits to all inputs and outputs. -/
structure Extends (i : TxIn) (der : Bytes) (i' : TxIn) : Prop where
  rest : i' = { i with scriptSig := i'.scriptSig }
  framed : i.frame.isSome
  frame : i'.frame = i.frame
  filled : i'.filled = i.filled ∨ ∃ position ≤ i.filled.length,
    i'.filled = i.filled.insertIdx position (der ++ [PendingSignatures.commitsToAll])

/-- An input that satisfies some script pushes it last. -/
theorem isSome_frame {i : TxIn} {redeem : Script}
    (h : ScriptSig.redeemScript? i.scriptSig = some redeem) : i.frame.isSome := by
  obtain ⟨cs, hchunks, hlast⟩ := Option.bind_eq_some_iff.mp h
  rw [frame, hchunks, Option.bind_some, hlast, Option.map_some]
  rfl

end TxIn

/-- **A transaction after a submission**: it has the same version, outputs and lock time, and its
inputs, one submitted signature for each, are what they were but for their slots. -/
structure Transaction.Extends (tx : Transaction) (signatures : List Bytes) (tx' : Transaction) :
    Prop where
  rest : tx' = { tx with inputs := tx'.inputs }
  count : tx.inputs.length = signatures.length
  inputs : List.Forall₂ (fun e i => e.1.Extends e.2 i) (tx.inputs.zip signatures) tx'.inputs

namespace PendingSignatures

/-- **A signature that has been read** is spelled by the bytes that were submitted. -/
theorem encode_of_readSignature {der : Bytes} {digest : FixedBytes 32} {key : PublicKey}
    {sig : Ecdsa.Signature} (h : readSignature der digest key = some sig) : sig.encode = der := by
  obtain ⟨hdecode, -, hverify⟩ := readSignature_eq_some.mp h
  obtain ⟨hr, hs⟩ := Ecdsa.ne_zero_of_verify hverify
  exact Ecdsa.Signature.encode_of_decode? hdecode hr hs

/-- An input whose slots have been filled as far as they could be. -/
theorem Checks.extends {tx : Transaction} {key : PublicKey} {e : (TxIn × Bytes) × Nat}
    {c : CheckedInput} {i : TxIn} (h : Checks tx key e c) (hi : tx.inputs[e.2]? = some e.1.1)
    (hfollows : Follows key c i) : e.1.1.Extends e.1.2 i := by
  have hframed : e.1.1.frame.isSome := by
    have hdigest := h.digest
    simp only [ScriptSig.sighash?, hi] at hdigest
    split at hdigest
    · cases hdigest
    · next hredeem => exact TxIn.isSome_frame hredeem
  have hslot : slotOf c.signature = e.1.2 ++ [commitsToAll] := by
    rw [slotOf, encode_of_readSignature h.read]
  rcases hfollows with rfl | ⟨-, -, hgrown⟩
  · rw [← h.input] at hframed ⊢
    exact ⟨rfl, hframed, rfl, .inl rfl⟩
  · rw [hslot, h.input] at hgrown
    exact ⟨hgrown.rest, hframed, hgrown.frame, .inr hgrown.filled⟩

/-- **Signing a transaction** fills slots and does nothing else. -/
theorem extends_of_signed {tx : Transaction} {key : PublicKey} {signatures : List Bytes}
    {checked : List CheckedInput} {s : SignedInputs}
    (hlength : tx.inputs.length = signatures.length)
    (hchecked : checkFrom tx key 0 tx.inputs signatures = .ok checked)
    (hsigned : SignsAll key checked s) :
    tx.Extends signatures { tx with inputs := s.inputs } := by
  have hinputs : ∀ e ∈ (tx.inputs.zip signatures).zipIdx, tx.inputs[e.2]? = some e.1.1 :=
    fun e he => (List.getElem?_zip_eq_some.mp (List.mem_zipIdx_iff_getElem?.mp he)).1
  have hpairs := forall₂_comp (forall₂_of_checkFrom hchecked hlength) hsigned.follows
  refine ⟨rfl, hlength, ?_⟩
  rw [← List.zipIdx_map_fst 0 (tx.inputs.zip signatures), List.forall₂_map_left_iff]
  refine ((List.forall₂_and_left _ _).mpr ⟨hinputs, hpairs⟩).imp ?_
  rintro e i ⟨hi, c, hchecks, hfollows⟩
  exact hchecks.extends hi hfollows

/-- **Signing touches nothing but slots, and takes nothing out of them.** -/
theorem submit_extends (p : PendingSignatures) (hash : HostTxHash) (key : PublicKey)
    (signatures : List Bytes) :
    ((submit p hash key signatures).1.isRefusal = true →
      (submit p hash key signatures).2 = p) ∧
    ((submit p hash key signatures).1.isRefusal = false →
      (∀ other, other ≠ hash → (submit p hash key signatures).2.get? other = p.get? other) ∧
      ∀ kept, (submit p hash key signatures).2.get? hash = some kept →
        ∃ tx, p.get? hash = some tx ∧ tx.Extends signatures kept) ∧
    ∀ i s, s.pending = p →
      (Payout.addSignatures i key signatures hash s = (.unknownFederator, s) ∨
        Payout.addSignatures i key signatures hash s =
          ((submit p hash key signatures).1,
            { s with pending := (submit p hash key signatures).2 })) := by
  refine ⟨fun hrefusal => ?_, fun htaken => ⟨fun other hother => get?_submit_ne hother, ?_⟩, ?_⟩
  · rcases hfound : p.get? hash with - | tx
    · rw [submit_of_none hfound]
    · have hsubmitted := submitted_signTransaction tx key signatures
      rw [submit_of_some hfound] at hrefusal ⊢
      generalize signTransaction tx key signatures = result at hsubmitted hrefusal ⊢
      cases hsubmitted with
      | refused outcome _ =>
        have hopen : outcome ≠ .fullySigned := by
          rintro rfl
          cases hrefusal
        simp only [if_neg hopen]
        exact SortedMap.insert_eq_self hfound
      | taken =>
        rw [isRefusal_verdict] at hrefusal
        cases hrefusal
  · intro kept hkept
    obtain ⟨tx, hfound, rfl⟩ := exists_of_get?_submit hkept
    refine ⟨tx, hfound, ?_⟩
    have hsubmitted := submitted_signTransaction tx key signatures
    rw [submit_of_some hfound] at htaken
    generalize signTransaction tx key signatures = result at hsubmitted htaken ⊢
    cases hsubmitted with
    | refused outcome hrefusal =>
      rw [hrefusal] at htaken
      cases htaken
    | taken checked s hlength hchecked hsigned => exact extends_of_signed hlength hchecked hsigned
  · rintro i s rfl
    unfold Payout.addSignatures
    split
    · exact .inr rfl
    · exact .inl rfl

end PendingSignatures

end TwoWayPeg
