import TwoWayPeg.Proofs.Release.Growth

/-!
# The order of signing

The members of a federation sign a transaction one after another, and each new signature is put
between those that are there. The members do not agree on an order. It does not matter: the slots
are in the order of the keys whatever the order of the submissions is, so a transaction that has
gathered the same submissions is the same. The slot that is the last one to be filled is filled by
the last submission in every order.

A transaction without inputs has no slots at all. It asks for no signatures, and whoever submits
none of them is told that the key belongs to no input.

* `Demand.Gathers`, `Demand.Gathers.eq_of_perm`: an input whose script is found again from the
  signatures that it has.
* `Gathered.signTransaction_eq`: one submission.
* `Gathered.leavesOpen`, `Gathered.completes`: any number of submissions.
* `order_of_signing`: two orders.
-/

namespace TwoWayPeg

/-- A transaction is found again from what it is without scripts and the scripts. -/
theorem Transaction.eq_of_bare {tx tx' : Transaction} (hbare : tx.bare = tx'.bare)
    (hscripts : tx.inputs.map TxIn.scriptSig = tx'.inputs.map TxIn.scriptSig) : tx = tx' := by
  have hinputs (is : List TxIn) : is = List.zipWith
      (fun (bare : TxIn) script => { bare with scriptSig := script })
      (is.map TxIn.bare) (is.map TxIn.scriptSig) := by
    rw [List.zipWith_map, List.zipWith_self]
    exact (List.map_id is).symm
  have hbares : tx.inputs.map TxIn.bare = tx'.inputs.map TxIn.bare :=
    congrArg Transaction.inputs hbare
  have hsame : tx.inputs = tx'.inputs := by
    rw [hinputs tx.inputs, hbares, hscripts, ← hinputs]
  obtain ⟨version, inputs, outputs, lockTime⟩ := tx
  obtain ⟨version', inputs', outputs', lockTime'⟩ := tx'
  simp only [bare, Transaction.mk.injEq] at hbare hsame ⊢
  exact ⟨hbare.1, hsame, hbare.2.2⟩

namespace PendingSignatures

/-! ### One input -/

namespace Demand

variable {d : Demand} {es es' : List PlacedSignature} {script script' : Script}

/-- **An input gathers signatures**: it collects them, each is one of one listed key at most, and
its script is the one that is written for them. -/
structure Gathers (d : Demand) (es : List PlacedSignature) (script : Script) : Prop
    extends d.Collects es script where
  sole : ∀ e ∈ es, d.IsClear e.signature.encode
  written : fill d.slots (es.map PlacedSignature.slot) d.redeem = some script

/-- An input without signatures gathers none. -/
theorem gathers_placeholder (h : d.redeem.length < UInt32.size) :
    d.Gathers [] (ScriptSig.placeholder d.redeem d.slots) := by
  have hsigned : ∀ e ∈ ([] : List PlacedSignature), d.Signed e :=
    fun _ he => absurd he List.not_mem_nil
  obtain ⟨script, hfill, -⟩ := exists_fill (d := d) h hsigned
  have hscript : ScriptSig.placeholder d.redeem d.slots = script := by
    have hchunks : ScriptSig.placeholder d.redeem d.slots =
        (fill d.slots ([].map PlacedSignature.slot) d.redeem).getD [] := rfl
    rw [hchunks, hfill, Option.getD_some]
  refine ⟨collects_placeholder h, fun _ he => absurd he List.not_mem_nil, ?_⟩
  rw [hscript]
  exact hfill

/-- **The script does not depend on the order in which the signatures have come in**: they stand in
the order of their keys. -/
theorem Gathers.eq_of_perm (h : d.Gathers es script) (h' : d.Gathers es' script')
    (hperm : es.Perm es') : script = script' := by
  have hsame : es = es' := by
    refine hperm.eq_of_pairwise ?_ h.ordered h'.ordered
    intro a b _ _ hab hba
    omega
  subst hsame
  exact Option.some.inj (h.written.symm.trans h'.written)

/-- A listed key has signed none of the gathered signatures but the one at its place. -/
theorem Gathers.place_eq (h : d.Gathers es script) {e : PlacedSignature} (he : e ∈ es)
    {key : PublicKey} {place : Nat} (hplace : d.keys.findIdx? (· == key) = some place)
    (hsigned : slotSignedBy e.slot d.digest key = true) : e.place = place := by
  obtain ⟨_, -, hread⟩ := (h.signed e he).key
  obtain ⟨hdecode, hlow, -⟩ := readSignature_eq_some.mp hread
  rw [PlacedSignature.slot, slotSignedBy_slotOf (Ecdsa.Signature.reduced_of_decode? hdecode)]
    at hsigned
  have hread' := readSignature_eq_some.mpr ⟨hdecode, hlow, hsigned⟩
  have hfirst := (signed_of_isClear hread' (h.sole e he) hplace).first
  have hown := (h.signed e he).first
  exact Option.some.inj (hown.symm.trans hfirst)

/-- **An input gathers one more signature**, of a listed key that has not signed it yet. -/
theorem Gathers.exists_signInput {key : PublicKey} {c : CheckedInput} {der : Bytes} {place : Nat}
    (hsize : d.redeem.length < UInt32.size) (h : d.Gathers es c.input.scriptSig)
    (hdigest : c.digest = d.digest) (hread : readSignature der d.digest key = some c.signature)
    (hclear : d.IsClear der) (hplace : d.keys.findIdx? (· == key) = some place)
    (hfresh : ∀ e ∈ es, e.place ≠ place) (hroom : es.length < d.slots) :
    ∃ es' script, signInput key c = .signed script ∧ d.Gathers es' script ∧
      es'.Perm (⟨place, c.signature⟩ :: es) := by
  rcases signInput_cases hsize h.toCollects hdigest hread hclear with
    ⟨-, e, he, hsigned⟩ | ⟨-, hnone⟩ | ⟨-, hfull⟩ |
    ⟨place', position, script, hsigning, hplace', hle, hfill, hcollects⟩
  · exact absurd (h.place_eq he hplace hsigned) (hfresh e he)
  · rw [hplace] at hnone
    cases hnone
  · omega
  · rw [hplace] at hplace'
    cases hplace'
    refine ⟨_, script, hsigning, ⟨hcollects, fun e he => ?_, hfill⟩, List.perm_insertIdx _ _ hle⟩
    rcases (List.mem_insertIdx hle).mp he with rfl | he
    · rw [encode_of_readSignature hread]
      exact hclear
    · exact h.sole e he

/-- What a submission puts into the slots of the input with an index. -/
def placed (d : Demand) (index : Nat) (s : Submission) : Option PlacedSignature :=
  s.signatures[index]?.bind fun der =>
    (readSignature der d.digest s.key).bind fun sig =>
      (d.keys.findIdx? (· == s.key)).map fun place => ⟨place, sig⟩

/-- The place is the one of the key. -/
theorem place_of_placed {index : Nat} {s : Submission} {e : PlacedSignature}
    (h : d.placed index s = some e) : d.keys[e.place]? = some s.key := by
  obtain ⟨der, -, h⟩ := Option.bind_eq_some_iff.mp h
  obtain ⟨sig, -, h⟩ := Option.bind_eq_some_iff.mp h
  obtain ⟨place, hplace, rfl⟩ := Option.map_eq_some_iff.mp h
  obtain ⟨hlt, hkey, -⟩ := List.findIdx?_eq_some_iff_getElem.mp hplace
  rw [List.getElem?_eq_getElem hlt, eq_of_beq hkey]

end Demand

/-! ### One submission -/

/-- What is submitted fits some demands: the key is listed for all of them, and for each there is a
signature that is one of the key, and of no other listed one. -/
structure Submission.Fits (s : Submission) (ds : List Demand) : Prop where
  count : s.signatures.length = ds.length
  listed : ∀ d ∈ ds, s.key ∈ d.keys
  read : ∀ (index : Nat) (d : Demand) (der : Bytes), ds[index]? = some d →
    s.signatures[index]? = some der → (readSignature der d.digest s.key).isSome ∧ d.IsClear der

/-- **A transaction has gathered submissions**: each input has gathered one signature of each. -/
structure Gathered (ds : List Demand) (tx : Transaction) (subs : List Submission)
    (kept : Transaction) : Prop where
  collecting : Collecting ds kept
  bare : kept.bare = tx.bare
  inputs : ∀ (index : Nat) (i : TxIn) (d : Demand), kept.inputs[index]? = some i →
    ds[index]? = some d → ∃ es, d.Gathers es i.scriptSig ∧
      es.Perm (subs.filterMap (d.placed index)) ∧ es.length = subs.length

variable {ds : List Demand} {tx kept kept' : Transaction} {subs subs' : List Submission}

/-- There is one input for each demand. -/
theorem Gathered.length_eq (h : Gathered ds tx subs kept) : kept.inputs.length = ds.length :=
  h.collecting.inputs.length_eq

/-- **What has been gathered does not depend on the order of the submissions.** -/
theorem Gathered.eq_of_perm (h : Gathered ds tx subs kept) (h' : Gathered ds tx subs' kept')
    (hperm : subs.Perm subs') : kept = kept' := by
  refine Transaction.eq_of_bare (h.bare.trans h'.bare.symm) (List.ext_getElem? fun index => ?_)
  rw [List.getElem?_map, List.getElem?_map]
  by_cases hindex : index < ds.length
  · have hi := List.getElem?_eq_getElem (h.length_eq ▸ hindex)
    have hi' := List.getElem?_eq_getElem (h'.length_eq ▸ hindex)
    have hd := List.getElem?_eq_getElem hindex
    obtain ⟨es, hgathers, hes, -⟩ := h.inputs index _ _ hi hd
    obtain ⟨es', hgathers', hes', -⟩ := h'.inputs index _ _ hi' hd
    rw [hi, hi', Option.map_some, Option.map_some]
    exact congrArg some
      (hgathers.eq_of_perm hgathers' (hes.trans ((hperm.filterMap _).trans hes'.symm)))
  · rw [List.getElem?_eq_none (by rw [h.length_eq]; omega),
      List.getElem?_eq_none (by rw [h'.length_eq]; omega)]

/-- Signatures that are valid for all inputs pass the check. -/
theorem exists_checkFrom {key : PublicKey} {index : Nat} {inputs : List TxIn} {ders : List Bytes}
    (h : ∀ e ∈ (inputs.zip ders).zipIdx index, ∃ digest, ScriptSig.sighash? tx e.2 = some digest ∧
      (readSignature e.1.2 digest key).isSome) :
    ∃ checked, checkFrom tx key index inputs ders = .ok checked := by
  induction inputs generalizing index ders with
  | nil => exact ⟨[], by unfold checkFrom; rfl⟩
  | cons input inputs ih =>
    cases ders with
    | nil => exact ⟨[], by unfold checkFrom; rfl⟩
    | cons der ders =>
      rw [List.zip_cons_cons, List.zipIdx_cons] at h
      obtain ⟨digest, hdigest, hread⟩ := h _ List.mem_cons_self
      obtain ⟨sig, hread⟩ := Option.isSome_iff_exists.mp hread
      obtain ⟨rest, hrest⟩ := ih fun e he => h e (List.mem_cons_of_mem _ he)
      refine ⟨⟨input, digest, sig⟩ :: rest, ?_⟩
      simp only at hdigest hread
      unfold checkFrom
      simp only [hdigest, hread, hrest]

/-- Inputs all of which take a signature are signed. -/
theorem exists_signFrom_of_signed {key : PublicKey} {checked : List CheckedInput}
    (h : ∀ c ∈ checked, ∃ script, signInput key c = .signed script) (index : Nat) :
    ∃ inputs, signFrom key index checked = .ok ⟨inputs, 0, false⟩ ∧
      List.Forall₂ (fun c i => ∃ script, signInput key c = .signed script ∧
        i = { c.input with scriptSig := script }) checked inputs := by
  induction checked generalizing index with
  | nil => exact ⟨[], rfl, .nil⟩
  | cons c rest ih =>
    obtain ⟨script, hscript⟩ := h c List.mem_cons_self
    obtain ⟨inputs, hinputs, hrest⟩ :=
      ih (fun c hc => h c (List.mem_cons_of_mem _ hc)) (index + 1)
    refine ⟨_, ?_, .cons ⟨script, hscript, rfl⟩ hrest⟩
    unfold signFrom
    simp only [hscript, hinputs]

/-- Each input gathers one more signature. -/
theorem Gathered.exists_signInput (h : Gathered ds tx subs kept) {s : Submission}
    (hfits : s.Fits ds) (hsize : ∀ d ∈ ds, d.redeem.length < UInt32.size)
    (hothers : ∀ s' ∈ subs, s'.key ≠ s.key)
    (hroom : ∀ d ∈ ds, subs.length < d.slots) {checked : List CheckedInput}
    (hchecked : checkFrom kept s.key 0 kept.inputs s.signatures = .ok checked) {index : Nat}
    {c : CheckedInput} {d : Demand} (hc : checked[index]? = some c) (hd : ds[index]? = some d) :
    ∃ es script, signInput s.key c = .signed script ∧ d.Gathers es script ∧
      es.Perm ((s :: subs).filterMap (d.placed index)) ∧ es.length = (s :: subs).length := by
  have hmem := List.mem_of_getElem? hd
  obtain ⟨hinput, hdigest, der, hder, hread⟩ :=
    getElem?_of_checkFrom (h.length_eq.trans hfits.count.symm) hchecked hc
  obtain ⟨es, hgathers, hes, hlength⟩ := h.inputs index c.input d hinput hd
  have hown : c.digest = d.digest :=
    Option.some.inj (hdigest.symm.trans (h.collecting.sighash?_eq hd))
  rw [hown] at hread
  obtain ⟨-, hclear⟩ := hfits.read index d der hd hder
  obtain ⟨place, hplace⟩ : ∃ place, d.keys.findIdx? (· == s.key) = some place := by
    rw [← Option.isSome_iff_exists, List.findIdx?_isSome, List.any_eq_true]
    exact ⟨s.key, hfits.listed d hmem, beq_self_eq_true _⟩
  have hkey : d.keys[place]? = some s.key := by
    obtain ⟨hlt, hkey, -⟩ := List.findIdx?_eq_some_iff_getElem.mp hplace
    rw [List.getElem?_eq_getElem hlt, eq_of_beq hkey]
  have hfresh : ∀ e ∈ es, e.place ≠ place := by
    rintro e he rfl
    obtain ⟨s', hs', hplaced⟩ := List.mem_filterMap.mp (hes.mem_iff.mp he)
    have hother := Demand.place_of_placed hplaced
    rw [hkey] at hother
    exact hothers s' hs' (Option.some.inj hother).symm
  have hless : es.length < d.slots := by
    rw [hlength]
    exact hroom d hmem
  obtain ⟨es', script, hsigning, hgathers', hperm⟩ := hgathers.exists_signInput
    (hsize d hmem) hown hread hclear hplace hfresh hless
  have hplaced : d.placed index s = some ⟨place, c.signature⟩ := by
    simp only [Demand.placed, hder, hread, hplace, Option.bind_some, Option.map_some]
  refine ⟨es', script, hsigning, hgathers', ?_, ?_⟩
  · rw [List.filterMap_cons_some hplaced]
    exact hperm.trans (hes.cons _)
  · rw [hperm.length_eq, List.length_cons, List.length_cons, hlength]

/-- All slots are filled if as many submissions have been gathered as there are slots. -/
theorem Gathered.isFullySigned_iff (h : Gathered ds tx subs kept) {slots : Nat}
    (hslots : ∀ d ∈ ds, d.slots = slots) (hsome : ds ≠ []) :
    ScriptSig.isFullySigned kept = true ↔ subs.length = slots := by
  have hinput : ∀ (index : Nat) (i : TxIn), kept.inputs[index]? = some i →
      (ScriptSig.isComplete i.scriptSig = true ↔ subs.length = slots) := by
    intro index i hi
    obtain ⟨hlt, -⟩ := List.getElem?_eq_some_iff.mp hi
    have hd := List.getElem?_eq_getElem (h.length_eq ▸ hlt)
    obtain ⟨es, hgathers, -, hlength⟩ := h.inputs index i _ hi hd
    rw [hgathers.isComplete_iff, hlength, hslots _ (List.mem_of_getElem? hd)]
  rw [ScriptSig.isFullySigned, List.all_eq_true]
  constructor
  · intro hall
    have hpos : 0 < kept.inputs.length := h.length_eq ▸ List.length_pos_iff.mpr hsome
    exact (hinput 0 _ (List.getElem?_eq_getElem hpos)).mp (hall _ (List.getElem_mem hpos))
  · intro hslot i hi
    obtain ⟨index, hindex⟩ := List.getElem?_of_mem hi
    exact (hinput index i hindex).mpr hslot

/-- All inputs sign, and each of them gathers one signature. -/
theorem Gathered.exists_signFrom (h : Gathered ds tx subs kept) {s : Submission}
    (hfits : s.Fits ds) (hsize : ∀ d ∈ ds, d.redeem.length < UInt32.size)
    (hothers : ∀ s' ∈ subs, s'.key ≠ s.key) (hroom : ∀ d ∈ ds, subs.length < d.slots) :
    ∃ checked inputs, checkFrom kept s.key 0 kept.inputs s.signatures = .ok checked ∧
      signFrom s.key 0 checked = .ok ⟨inputs, 0, false⟩ ∧
      Gathered ds tx (s :: subs) { kept with inputs } := by
  have hlength : kept.inputs.length = s.signatures.length := h.length_eq.trans hfits.count.symm
  obtain ⟨checked, hchecked⟩ : ∃ checked,
      checkFrom kept s.key 0 kept.inputs s.signatures = .ok checked := by
    refine exists_checkFrom fun e he => ?_
    obtain ⟨hinput, hder⟩ := List.getElem?_zip_eq_some.mp (List.mem_zipIdx_iff_getElem?.mp he)
    obtain ⟨hlt, -⟩ := List.getElem?_eq_some_iff.mp hinput
    have hd := List.getElem?_eq_getElem (h.length_eq ▸ hlt)
    exact ⟨_, h.collecting.sighash?_eq hd, (hfits.read e.2 _ e.1.2 hd hder).1⟩
  have hcount : checked.length = ds.length := by
    rw [← h.length_eq, ← inputs_of_checkFrom hchecked hlength, List.length_map]
  have hsigned : ∀ c ∈ checked, ∃ script, signInput s.key c = .signed script := by
    intro c hc
    obtain ⟨index, hindex⟩ := List.getElem?_of_mem hc
    obtain ⟨hlt, -⟩ := List.getElem?_eq_some_iff.mp hindex
    obtain ⟨es, script, hsigning, -⟩ := h.exists_signInput hfits hsize hothers hroom hchecked
      hindex (List.getElem?_eq_getElem (hcount ▸ hlt))
    exact ⟨script, hsigning⟩
  obtain ⟨inputs, hinputs, hpairs⟩ := exists_signFrom_of_signed hsigned 0
  have hrows : ∀ (index : Nat) (i : TxIn) (d : Demand), inputs[index]? = some i →
      ds[index]? = some d → ∃ es, d.Gathers es i.scriptSig ∧
        es.Perm ((s :: subs).filterMap (d.placed index)) ∧ es.length = (s :: subs).length := by
    intro index i d hi hd
    obtain ⟨c, hc, script, hsigning, rfl⟩ := exists_getElem?_of_forall₂ hpairs hi
    obtain ⟨es, script', hsigning', hgathers⟩ :=
      h.exists_signInput hfits hsize hothers hroom hchecked hc hd
    rw [hsigning] at hsigning'
    cases hsigning'
    exact ⟨es, hgathers⟩
  have hbare := bare_of_signed hlength hchecked hinputs
  have hcollects : List.Forall₂ (fun i d => ∃ es, d.Collects es i.scriptSig) inputs ds := by
    refine List.forall₂_iff_get.mpr
      ⟨hpairs.length_eq.symm.trans hcount, fun index hi hd => ?_⟩
    obtain ⟨es, hgathers, -⟩ := hrows index _ _ (List.getElem?_eq_getElem hi)
      (List.getElem?_eq_getElem hd)
    exact ⟨es, hgathers.toCollects⟩
  exact ⟨checked, inputs, hchecked, hinputs,
    ⟨h.collecting.of_bare hbare hcollects, hbare.trans h.bare, hrows⟩⟩

/-- **One more submission is gathered**, and the transaction is fully signed if there is one for
each slot. -/
theorem Gathered.signTransaction_eq (h : Gathered ds tx subs kept) {s : Submission}
    (hfits : s.Fits ds) (hsize : ∀ d ∈ ds, d.redeem.length < UInt32.size)
    (hothers : ∀ s' ∈ subs, s'.key ≠ s.key) {slots : Nat} (hslots : ∀ d ∈ ds, d.slots = slots)
    (hroom : subs.length < slots) (hsome : ds ≠ []) :
    ∃ kept', Gathered ds tx (s :: subs) kept' ∧ signTransaction kept s.key s.signatures =
      (if subs.length + 1 = slots then .fullySigned else .partiallySigned, kept') := by
  obtain ⟨checked, inputs, hchecked, hinputs, hgathered⟩ := h.exists_signFrom hfits hsize hothers
    fun d hd => (hslots d hd).symm ▸ hroom
  refine ⟨_, hgathered, ?_⟩
  have hlength : kept.inputs.length = s.signatures.length := h.length_eq.trans hfits.count.symm
  have hlisted : ¬ (!false && (0 : Nat) == kept.inputs.length) = true := by
    have hpos := List.length_pos_iff.mpr hsome
    simp only [h.length_eq, Bool.not_false, Bool.true_and, beq_iff_eq]
    omega
  have hfull : ScriptSig.isFullySigned { kept with inputs } = true ↔ subs.length + 1 = slots :=
    hgathered.isFullySigned_iff hslots hsome
  unfold signTransaction
  simp only [if_neg (not_not_intro hlength), hchecked, hinputs, if_neg hlisted]
  by_cases hlast : subs.length + 1 = slots
  · rw [if_pos (hfull.mpr hlast), if_pos hlast]
  · rw [if_neg fun hsigned => hlast (hfull.mp hsigned), if_neg hlast]
    rfl

/-! ### Any number of submissions -/

/-- What is said of submissions that are taken one after another. -/
def answers (p : PendingSignatures) : List Submission → List SigningOutcome
  | [] => []
  | s :: rest =>
    (submit p s.hash s.key s.signatures).1 :: answers (submit p s.hash s.key s.signatures).2 rest

/-- Later submissions are taken with the map that the earlier ones leave. -/
theorem submitAll_append (p : PendingSignatures) (front back : List Submission) :
    submitAll p (front ++ back) = submitAll (submitAll p front) back :=
  List.foldl_append

/-- What is said of later submissions is said of them with the map that the earlier ones leave. -/
theorem answers_append (p : PendingSignatures) (front back : List Submission) :
    answers p (front ++ back) = answers p front ++ answers (submitAll p front) back := by
  induction front generalizing p with
  | nil => rfl
  | cons s front ih => exact congrArg _ (ih _)

/-- **Submissions leave a transaction open**: all are taken, and it is kept with their
signatures. -/
structure LeavesOpen (p : PendingSignatures) (hash : HostTxHash) (subs : List Submission)
    (kept : Transaction) : Prop where
  answers : answers p subs = List.replicate subs.length .partiallySigned
  result : submitAll p subs = p.insert hash kept

/-- **The last of some submissions completes a transaction**: all are taken, the last one fills the
last slots, and the transaction is no longer kept. -/
structure Completes (p : PendingSignatures) (hash : HostTxHash) (subs : List Submission)
    (assembled : Transaction) : Prop where
  answers : answers p subs =
    List.replicate (subs.length - 1) .partiallySigned ++ [.fullySigned]
  assembled : ∃ front last kept, subs = front ++ [last] ∧
    (submitAll p front).get? hash = some kept ∧
    signTransaction kept last.key last.signatures = (.fullySigned, assembled)
  result : submitAll p subs = p.erase hash

section Runs

variable {p : PendingSignatures} {hash : HostTxHash} {slots : Nat}

/-- Fewer submissions than slots leave the transaction open. -/
theorem Gathered.leavesOpen (hsize : ∀ d ∈ ds, d.redeem.length < UInt32.size)
    (hslots : ∀ d ∈ ds, d.slots = slots) (hsome : ds ≠ []) (hkept : p.get? hash = some kept)
    (h : Gathered ds tx subs kept) {rest : List Submission}
    (hfits : ∀ s ∈ rest, s.hash = hash ∧ s.Fits ds)
    (hkeys : ((subs ++ rest).map Submission.key).Nodup)
    (hroom : subs.length + rest.length < slots) :
    ∃ kept', LeavesOpen p hash rest kept' ∧ Gathered ds tx (rest.reverse ++ subs) kept' := by
  induction rest generalizing p subs kept with
  | nil => exact ⟨kept, ⟨rfl, (SortedMap.insert_eq_self hkept).symm⟩, h⟩
  | cons s rest ih =>
    rw [List.length_cons] at hroom
    obtain ⟨rfl, hfit⟩ := hfits s List.mem_cons_self
    have hmiddle : ((s :: subs ++ rest).map Submission.key).Nodup :=
      (List.perm_middle.map Submission.key).nodup_iff.mp hkeys
    have hothers : ∀ s' ∈ subs, s'.key ≠ s.key := by
      intro s' hs' heq
      refine (List.nodup_cons.mp hmiddle).1 ?_
      rw [← heq]
      exact List.mem_map_of_mem (List.mem_append_left rest hs')
    obtain ⟨kept₁, hgathered, hsign⟩ :=
      h.signTransaction_eq hfit hsize hothers hslots (by omega) hsome
    rw [if_neg (by omega)] at hsign
    have hsubmit : submit p s.hash s.key s.signatures =
        (.partiallySigned, p.insert s.hash kept₁) := by
      rw [submit_of_some hkept, hsign, if_neg nofun]
    obtain ⟨kept', hopen, hall⟩ := ih (SortedMap.get?_insert_self p s.hash kept₁) hgathered
      (fun s' hs' => hfits s' (List.mem_cons_of_mem s hs')) hmiddle
      (by rw [List.length_cons]; omega)
    refine ⟨kept', ⟨?_, ?_⟩, ?_⟩
    · rw [PendingSignatures.answers, hsubmit, hopen.answers]
      rfl
    · rw [submitAll, List.foldl_cons, hsubmit, ← submitAll, hopen.result,
        SortedMap.insert_insert]
    · rw [List.reverse_cons, List.append_assoc]
      exact hall

/-- As many submissions as slots complete the transaction. -/
theorem Gathered.completes (hsize : ∀ d ∈ ds, d.redeem.length < UInt32.size)
    (hslots : ∀ d ∈ ds, d.slots = slots) (hsome : ds ≠ []) (hkept : p.get? hash = some tx)
    (h : Gathered ds tx [] tx) (hfits : ∀ s ∈ subs, s.hash = hash ∧ s.Fits ds)
    (hkeys : (subs.map Submission.key).Nodup) (hpos : 0 < slots) (hfull : subs.length = slots) :
    ∃ assembled, Completes p hash subs assembled ∧ Gathered ds tx subs.reverse assembled := by
  obtain ⟨front, last, rfl⟩ : ∃ front last, subs = front ++ [last] := by
    rcases List.eq_nil_or_concat subs with rfl | ⟨front, last, rfl⟩
    · rw [List.length_nil] at hfull
      omega
    · exact ⟨front, last, List.concat_eq_append⟩
  rw [List.length_append, List.length_singleton] at hfull
  obtain ⟨rfl, hfit⟩ := hfits last (List.mem_append_right front List.mem_cons_self)
  have hfront : (front.map Submission.key).Nodup ∧ ∀ s ∈ front, s.key ≠ last.key := by
    rw [List.map_append, List.map_singleton, List.nodup_append] at hkeys
    exact ⟨hkeys.1, fun s hs => hkeys.2.2 s.key (List.mem_map_of_mem hs) last.key
      List.mem_cons_self⟩
  obtain ⟨kept, hopen, hgathered⟩ := h.leavesOpen hsize hslots hsome hkept
    (fun s hs => hfits s (List.mem_append_left _ hs)) hfront.1
    (by rw [List.length_nil]; omega)
  rw [List.append_nil] at hgathered
  have hstored : (submitAll p front).get? last.hash = some kept := by
    rw [hopen.result, SortedMap.get?_insert_self]
  obtain ⟨assembled, hassembled, hsign⟩ := hgathered.signTransaction_eq hfit hsize
    (fun s hs => hfront.2 s (List.mem_reverse.mp hs)) hslots
    (by rw [List.length_reverse]; omega) hsome
  rw [List.length_reverse, if_pos hfull] at hsign
  have hsubmit : submit (submitAll p front) last.hash last.key last.signatures =
      (.fullySigned, p.erase last.hash) := by
    rw [submit_of_some hstored, hsign, if_pos rfl, hopen.result, SortedMap.erase_insert]
  refine ⟨assembled, ⟨?_, ⟨front, last, kept, rfl, hstored, hsign⟩, ?_⟩, ?_⟩
  · rw [answers_append, hopen.answers, List.length_append, List.length_singleton,
      Nat.add_sub_cancel, PendingSignatures.answers, hsubmit]
    rfl
  · rw [submitAll_append, submitAll, List.foldl_cons, List.foldl_nil, hsubmit]
  · rw [List.reverse_append, List.reverse_singleton, List.singleton_append]
    exact hassembled

end Runs

/-! ### Members of one federation -/

/-- **A member of a federation serves a transaction**: there is one signature for each input, valid
for what is signed for the input as it was found at some stage of signing, and none is a signature
of two members. -/
structure Submission.Serves (s : Submission) (f : Federation) (tx : Transaction) : Prop where
  member : s.key ∈ f.btcKeys
  count : s.signatures.length = tx.inputs.length
  valid : ∀ index der, s.signatures[index]? = some der → ∃ stage digest, tx.SignedFrom stage ∧
    ScriptSig.sighash? stage index = some digest ∧ (readSignature der digest s.key).isSome
  sole : ∀ index der digest, s.signatures[index]? = some der →
    ScriptSig.sighash? tx index = some digest → ∀ k ∈ f.btcKeys, ∀ k' ∈ f.btcKeys,
      (readSignature der digest k).isSome → (readSignature der digest k').isSome → k = k'

section Members

variable {f : Federation}

/-- What is demanded for inputs of one federation. -/
theorem script_of_mem_demands {n : Nat} {d : Demand} (h : d ∈ demands tx (List.replicate n f)) :
    d.redeem = f.redeemScript ∧ d.slots = f.threshold := by
  obtain ⟨⟨g, index⟩, hg, rfl⟩ := List.mem_map.mp h
  have hsame := List.eq_of_mem_replicate (List.fst_mem_of_mem_zipIdx hg)
  dsimp only at hsame ⊢
  rw [hsame]
  exact ⟨rfl, rfl⟩

/-- An unsigned transaction of one federation has gathered nothing yet. -/
theorem gathered_of_placeholder (hf : f.IsFormed)
    (hscripts : ∀ i ∈ tx.inputs, i.scriptSig = ScriptSig.placeholder f.redeemScript f.threshold) :
    Gathered (demands tx (List.replicate tx.inputs.length f)) tx [] tx := by
  have hall : tx.inputs.map TxIn.scriptSig = (List.replicate tx.inputs.length f).map fun f =>
      ScriptSig.placeholder f.redeemScript f.threshold := by
    rw [List.map_replicate, List.eq_replicate_iff]
    refine ⟨List.length_map _, fun script hscript => ?_⟩
    obtain ⟨i, hi, rfl⟩ := List.mem_map.mp hscript
    exact hscripts i hi
  have hsize : ∀ g ∈ List.replicate tx.inputs.length f, g.redeemScript.length < UInt32.size := by
    intro g hg
    rw [List.eq_of_mem_replicate hg]
    exact hf.redeemScript_lt
  refine ⟨Collecting.of_placeholder hall hsize, rfl, fun index i d hi hd => ?_⟩
  refine ⟨[], ?_, List.Perm.refl _, rfl⟩
  obtain ⟨hredeem, hslots⟩ := script_of_mem_demands (List.mem_of_getElem? hd)
  rw [hscripts i (List.mem_of_getElem? hi), ← hredeem, ← hslots]
  exact Demand.gathers_placeholder (hredeem ▸ hf.redeemScript_lt)

/-- Members who serve a transaction submit what its inputs demand. -/
theorem Submission.Serves.fits (hf : f.IsFormed)
    (hscripts : ∀ i ∈ tx.inputs, i.scriptSig = ScriptSig.placeholder f.redeemScript f.threshold)
    {s : Submission} (h : s.Serves f tx) :
    s.Fits (demands tx (List.replicate tx.inputs.length f)) := by
  have hkeys : ∀ d ∈ demands tx (List.replicate tx.inputs.length f), d.keys = f.btcKeys := by
    intro d hd
    rw [Demand.keys, (script_of_mem_demands hd).1]
    exact hf.keysOf_redeemScript
  constructor
  case count => rw [h.count, demands, List.length_map, List.length_zipIdx, List.length_replicate]
  case listed =>
    intro d hd
    rw [hkeys d hd]
    exact h.member
  case read =>
    intro index d der hd hder
    have hdigest := (gathered_of_placeholder hf hscripts).collecting.sighash?_eq hd
    obtain ⟨stage, digest, hstage, hsigned, hread⟩ := h.valid index der hder
    rw [hstage.sighash?_eq, hdigest] at hsigned
    cases hsigned
    refine ⟨hread, fun k hk k' hk' => ?_⟩
    rw [hkeys d (List.mem_of_getElem? hd)] at hk hk'
    exact h.sole index der d.digest hder hdigest k hk k' hk'

/-- A transaction without inputs is never signed. -/
theorem answers_of_inputs_eq_nil {p : PendingSignatures} {hash : HostTxHash}
    (hstored : p.get? hash = some tx) (hnone : tx.inputs = [])
    (h : ∀ s ∈ subs, s.hash = hash ∧ s.signatures.length = 0) :
    answers p subs = List.replicate subs.length (.notAFederationKey 0) ∧ submitAll p subs = p := by
  induction subs with
  | nil => exact ⟨rfl, rfl⟩
  | cons s subs ih =>
    obtain ⟨rfl, hcount⟩ := h s List.mem_cons_self
    have hsign : signTransaction tx s.key s.signatures = (.notAFederationKey 0, tx) := by
      rw [List.length_eq_zero_iff.mp hcount]
      simp [signTransaction, hnone, checkFrom, signFrom]
    have hsubmit : submit p s.hash s.key s.signatures = (.notAFederationKey 0, p) := by
      rw [submit_of_some hstored, hsign, if_neg nofun, SortedMap.insert_eq_self hstored]
    obtain ⟨hanswers, hresult⟩ := ih fun s' hs' => h s' (List.mem_cons_of_mem s hs')
    refine ⟨?_, ?_⟩
    · rw [answers, hsubmit, hanswers]
      rfl
    · rw [submitAll, List.foldl_cons, hsubmit]
      exact hresult

/-- **The order in which members sign does not matter.** Different members submit at most as many
signatures for an unsigned transaction of their federation as are needed. If it has an input, then
fewer leave it open with the same signatures in both orders, and if there are enough then the last
one completes the same transaction. Without inputs it is never signed. -/
theorem order_of_signing (hf : f.IsFormed)
    (hscripts : ∀ i ∈ tx.inputs, i.scriptSig = ScriptSig.placeholder f.redeemScript f.threshold)
    {p : PendingSignatures} {hash : HostTxHash} (hstored : p.get? hash = some tx)
    (hkeys : (subs.map Submission.key).Nodup) (hperm : subs.Perm subs')
    (hserves : ∀ s ∈ subs, s.hash = hash ∧ s.Serves f tx) :
    (tx.inputs ≠ [] → subs.length < f.threshold →
      ∃ kept, LeavesOpen p hash subs kept ∧ LeavesOpen p hash subs' kept) ∧
    (tx.inputs ≠ [] → subs.length = f.threshold →
      ∃ assembled, Completes p hash subs assembled ∧ Completes p hash subs' assembled) ∧
    (tx.inputs = [] →
      answers p subs = List.replicate subs.length (.notAFederationKey 0) ∧
        submitAll p subs = p) := by
  have hkeys' : (subs'.map Submission.key).Nodup :=
    (hperm.map Submission.key).nodup_iff.mp hkeys
  have hgathered := gathered_of_placeholder hf hscripts
  have hsize : ∀ d ∈ demands tx (List.replicate tx.inputs.length f),
      d.redeem.length < UInt32.size := by
    intro d hd
    rw [(script_of_mem_demands hd).1]
    exact hf.redeemScript_lt
  have hslots : ∀ d ∈ demands tx (List.replicate tx.inputs.length f), d.slots = f.threshold :=
    fun d hd => (script_of_mem_demands hd).2
  have hsome (h : tx.inputs ≠ []) : demands tx (List.replicate tx.inputs.length f) ≠ [] := by
    have hpos := List.length_pos_iff.mpr h
    rw [← List.length_pos_iff, demands, List.length_map, List.length_zipIdx,
      List.length_replicate]
    exact hpos
  have hfits : ∀ s ∈ subs, s.hash = hash ∧
      s.Fits (demands tx (List.replicate tx.inputs.length f)) := fun s hs =>
    ⟨(hserves s hs).1, (hserves s hs).2.fits hf hscripts⟩
  have hfits' : ∀ s ∈ subs', s.hash = hash ∧
      s.Fits (demands tx (List.replicate tx.inputs.length f)) := fun s hs =>
    hfits s (hperm.mem_iff.mpr hs)
  have hreverse : subs.reverse.Perm subs'.reverse :=
    (List.reverse_perm subs).trans (hperm.trans (List.reverse_perm subs').symm)
  refine ⟨fun hinputs hless => ?_, fun hinputs hfull => ?_, fun hnone => ?_⟩
  · obtain ⟨kept, hopen, hall⟩ := hgathered.leavesOpen hsize hslots (hsome hinputs) hstored hfits
      hkeys (by rw [List.length_nil]; omega)
    obtain ⟨kept', hopen', hall'⟩ := hgathered.leavesOpen hsize hslots (hsome hinputs) hstored
      hfits' hkeys' (by rw [List.length_nil, ← hperm.length_eq]; omega)
    rw [List.append_nil] at hall hall'
    rw [hall.eq_of_perm hall' hreverse] at hopen
    exact ⟨kept', hopen, hopen'⟩
  · obtain ⟨-, -, hpos, -⟩ := hf.numbers
    obtain ⟨assembled, hcompletes, hall⟩ := hgathered.completes hsize hslots (hsome hinputs)
      hstored hfits hkeys hpos hfull
    obtain ⟨assembled', hcompletes', hall'⟩ := hgathered.completes hsize hslots (hsome hinputs)
      hstored hfits' hkeys' hpos (hperm.length_eq.symm.trans hfull)
    rw [hall.eq_of_perm hall' hreverse] at hcompletes
    exact ⟨assembled', hcompletes, hcompletes'⟩
  · refine answers_of_inputs_eq_nil hstored hnone fun s hs => ⟨(hserves s hs).1, ?_⟩
    rw [(hserves s hs).2.count, hnone, List.length_nil]

end Members

namespace Example

/-- The key of the base point is one of a member, and so is the one of its triple. -/
theorem mem_btcKeys : firstKey ∈ federation.btcKeys ∧ thirdKey ∈ federation.btcKeys := by
  decide +kernel

/-- The digest that is signed for the input of the release. -/
theorem sighash?_release : ScriptSig.sighash? release 0 = some demand.digest := by
  have hscripts : release.inputs.map TxIn.scriptSig =
      [federation].map fun f => ScriptSig.placeholder f.redeemScript f.threshold := rfl
  have hcollecting := Collecting.of_placeholder hscripts
    (List.forall_mem_singleton.mpr federation_isFormed.redeemScript_lt)
  rw [demands_release] at hcollecting
  exact hcollecting.sighash?_eq rfl

/-- A member with a valid signature of the release serves it. -/
theorem serves_release {key : PublicKey} {der : Bytes} (hmember : key ∈ federation.btcKeys)
    (hread : (readSignature der demand.digest key).isSome) (hclear : demand.IsClear der) :
    (⟨hostTx, key, [der]⟩ : Submission).Serves federation release := by
  have hfirst : ∀ {index : Nat} {der' : Bytes}, [der][index]? = some der' →
      index = 0 ∧ der' = der := by
    intro index der' hder
    cases index with
    | zero => exact ⟨rfl, (Option.some.inj hder).symm⟩
    | succ index => cases hder
  constructor
  case member => exact hmember
  case count => rfl
  case valid =>
    intro index der' hder
    obtain ⟨rfl, rfl⟩ := hfirst hder
    exact ⟨release, demand.digest, .unsigned, sighash?_release, hread⟩
  case sole =>
    intro index der' digest hder hdigest
    obtain ⟨rfl, rfl⟩ := hfirst hder
    rw [sighash?_release] at hdigest
    cases hdigest
    rw [← keys_demand]
    exact hclear

/-- A transaction that spends nothing. -/
def inputless : Transaction := { release with inputs := [] }

/-- A member who submits no signatures serves a transaction that spends nothing. -/
theorem serves_inputless :
    (⟨hostTx, thirdKey, []⟩ : Submission).Serves federation inputless where
  member := mem_btcKeys.2
  count := rfl
  valid := nofun
  sole := nofun

/-- The first and the third member serve the release. -/
theorem serves_submissions :
    ∀ s ∈ [fromThird, fromFirst], s.hash = hostTx ∧ s.Serves federation release := by
  have hclear := isClear_submissions
  rw [demands_release] at hclear
  have hthird : demand.IsClear thirdSignature.encode :=
    hclear fromThird List.mem_cons_self _ List.mem_cons_self
  have hfirst : demand.IsClear firstSignature.encode :=
    hclear fromFirst (List.mem_cons_of_mem _ List.mem_cons_self) _ List.mem_cons_self
  refine List.forall_mem_cons.mpr ⟨⟨rfl, serves_release mem_btcKeys.2 ?_ hthird⟩,
    List.forall_mem_singleton.mpr ⟨rfl, serves_release mem_btcKeys.1 ?_ hfirst⟩⟩
  · set_option maxRecDepth 100000 in
    decide +kernel
  · set_option maxRecDepth 100000 in
    decide +kernel

end Example

/-- Two of three members complete the same transaction in both orders. -/
theorem order_of_signing_two_of_three :
    Example.federation.IsFormed ∧
      (∀ i ∈ Example.release.inputs, i.scriptSig =
        ScriptSig.placeholder Example.federation.redeemScript Example.federation.threshold) ∧
      (∀ s ∈ [Example.fromThird, Example.fromFirst],
        s.hash = Example.hostTx ∧ s.Serves Example.federation Example.release) ∧
      ∃ assembled,
        Completes (SortedMap.empty.insert Example.hostTx Example.release) Example.hostTx
          [Example.fromThird, Example.fromFirst] assembled ∧
        Completes (SortedMap.empty.insert Example.hostTx Example.release) Example.hostTx
          [Example.fromFirst, Example.fromThird] assembled := by
  have hscripts : ∀ i ∈ Example.release.inputs, i.scriptSig =
      ScriptSig.placeholder Example.federation.redeemScript Example.federation.threshold :=
    List.forall_mem_singleton.mpr rfl
  have hkeys : ([Example.fromThird, Example.fromFirst].map Submission.key).Nodup := by
    decide +kernel
  refine ⟨Example.federation_isFormed, hscripts, Example.serves_submissions, ?_⟩
  exact (order_of_signing Example.federation_isFormed hscripts
    (SortedMap.get?_insert_self SortedMap.empty Example.hostTx Example.release) hkeys
    (List.Perm.swap _ _ _) Example.serves_submissions).2.1 (List.cons_ne_nil _ _) rfl

/-- A member who submits what a transaction without inputs asks for is not told that the
transaction is signed in part, though more members are needed. -/
theorem not_partiallySigned_without_inputs :
    Example.federation.IsFormed ∧
      (∀ i ∈ Example.inputless.inputs, i.scriptSig =
        ScriptSig.placeholder Example.federation.redeemScript Example.federation.threshold) ∧
      (⟨Example.hostTx, Example.thirdKey, []⟩ : Submission).Serves Example.federation
        Example.inputless ∧
      1 < Example.federation.threshold ∧
      ¬ ∀ o ∈ answers (SortedMap.empty.insert Example.hostTx Example.inputless)
          [⟨Example.hostTx, Example.thirdKey, []⟩], o = .partiallySigned := by
  refine ⟨Example.federation_isFormed, nofun, Example.serves_inputless, by decide,
    fun hall => ?_⟩
  have hnone : ∀ s ∈ [(⟨Example.hostTx, Example.thirdKey, []⟩ : Submission)],
      s.hash = Example.hostTx ∧ s.signatures.length = 0 :=
    List.forall_mem_singleton.mpr ⟨rfl, rfl⟩
  have hanswers := (answers_of_inputs_eq_nil
    (SortedMap.get?_insert_self SortedMap.empty Example.hostTx Example.inputless) rfl hnone).1
  rw [hanswers] at hall
  exact nomatch hall (.notAFederationKey 0) List.mem_cons_self

end PendingSignatures

end TwoWayPeg
