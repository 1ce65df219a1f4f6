import TwoWayPeg.Proofs.Peg.Pipeline
import TwoWayPeg.Proofs.Peg.Tenure
import TwoWayPeg.Proofs.Release.Frame

/-!
# Who can sign what waits to be signed

A transaction spends what the live federations hold when it is built, and signatures are taken from
members of the federations that are live when they arrive. In between blocks pass. A live federation
stays live until an update ends its window, so its members can sign what it spends until then. What
is still on its way when the window ends waits for signatures that are refused from then on, unless
the keys belong to a later federation as well.

* `State.OwnedBy`: every input on its way carries the script of one of some federations.
* `Operation.Moves.ownedBy`, `Run.ownedBy`: what is known of these federations after a call and
  after a run.
* `Payout.unknownFederator_iff`: whose signatures are refused.
* `Run.signable`: the members of a federation can sign its inputs unless its window has ended.
* `Example.handover`: one federation hands over to another, and its funds are moved.
-/

namespace TwoWayPeg

/-! ### Owners of inputs -/

/-- The frame of the inputs that spend from a federation. -/
def Federation.frame (f : Federation) : Nat × Script := (f.threshold + 2, f.redeemScript)

/-- The live federations are formed where all that are met are. -/
theorem Invocation.MeetsFormed.of_mem_live {i : Invocation} {s : State} (h : i.MeetsFormed s)
    {f : Federation} (hf : f ∈ i.live s) : f.IsFormed := by
  rcases List.mem_cons.mp hf with rfl | hretiring
  · exact h.active
  · exact h.retiring (Option.mem_toList.mp hretiring)

namespace State

variable {s t : State} {P Q : Federation → Prop}

/-- Every input of what is on its way carries the script of a formed federation with a property. -/
def OwnedBy (s : State) (P : Federation → Prop) : Prop :=
  ∀ tx ∈ s.inFlight, ∀ frame ∈ tx.frames, ∃ f, P f ∧ f.IsFormed ∧ frame = some f.frame

/-- A weaker property does as well. -/
theorem OwnedBy.mono (h : s.OwnedBy P) (hpq : ∀ f, P f → Q f) : s.OwnedBy Q := by
  intro tx htx frame hframe
  obtain ⟨f, hf, hformed⟩ := h tx htx frame hframe
  exact ⟨f, hpq f hf, hformed⟩

end State

section Moves

variable {i : Invocation} {op : Operation} {s t : State} {P : Federation → Prop}

/-- **One move** brings in no owners but the live federations. -/
theorem Operation.Move.ownedBy (h : op.Move i s t) (hformed : i.MeetsFormed s)
    (hs : s.OwnedBy P) : t.OwnedBy fun f => P f ∨ f ∈ i.live s := by
  intro tx htx frame hframe
  rcases h.inFlight_cases htx with ⟨kept, hkept, hsigned⟩ | ⟨coins, outputs, -, hlive, rfl⟩
  · rw [hsigned.frames_eq] at hframe
    obtain ⟨f, hf, howner⟩ := hs kept hkept frame hframe
    exact ⟨f, .inl hf, howner⟩
  · rw [Transaction.frames, Wallet.unsigned, List.map_map] at hframe
    obtain ⟨c, hc, rfl⟩ := List.mem_map.mp hframe
    have howner := hformed.of_mem_live (hlive c hc)
    exact ⟨c.owner, .inr (hlive c hc), howner, Coin.frame_input howner⟩

/-- **All through a call**, the owners are those from before, the live federations, and the one
whose window the call ends. -/
theorem Operation.Moves.ownedBy (h : op.Moves i s t) (horderly : s.Orderly)
    (hformed : i.MeetsFormed s) (hs : s.OwnedBy P) :
    t.OwnedBy fun f => P f ∨ f ∈ i.live t ∨ (∃ hash, op = .update hash) ∧ i.EndsWindow s f := by
  induction h using Relation.ReflTransGen.head_induction_on generalizing P with
  | refl => exact hs.mono fun f hf => .inl hf
  | @head s u hmove hrest ih =>
    have hlater := ih (horderly.move hmove) (hformed.move horderly hmove)
      (hmove.ownedBy hformed hs)
    refine hlater.mono fun f hf => ?_
    rcases hf with (hf | hlive) | hlive | ⟨hop, hends⟩
    · exact .inl hf
    · exact .inr (Operation.Moves.live_or (.head hmove hrest) horderly hlive)
    · exact .inr (.inl hlive)
    · exact .inr (.inr ⟨hop, hmove.endsWindow_of horderly hop hends⟩)

end Moves

/-- After a call the owners are those from before, the live federations, and the one whose window
the call has ended. -/
theorem Call.Leaves.ownedBy {c : Call} {t : State} {P : Federation → Prop} (h : c.Leaves t)
    (horderly : c.before.state.Orderly) (hformed : c.invocation.MeetsFormed c.before.state)
    (hs : c.before.state.OwnedBy P) :
    t.OwnedBy fun f => P f ∨ f ∈ c.invocation.live t ∨ c.EndsWindow f := by
  cases h with
  | discarded e hfailed => exact hs.mono fun f hf => .inl hf
  | kept => exact c.moves.ownedBy horderly hformed hs

/-- **After a run** the owners of what is on its way are those from before, the live federations,
and those whose window a call has ended. -/
theorem Run.ownedBy {start finish : State} {calls : List Call} {i : Invocation}
    {P : Federation → Prop} (h : Run start calls finish) (horderly : start.Orderly)
    (hformed : i.MeetsFormed start)
    (hcalls : calls.Pairwise fun c d => c.invocation.Precedes d.invocation)
    (hlast : ∀ c ∈ calls, c.invocation.Precedes i) (hs : start.OwnedBy P) :
    finish.OwnedBy fun f => P f ∨ f ∈ i.live finish ∨ ∃ c ∈ calls, c.EndsWindow f := by
  induction h generalizing P with
  | nil s => exact hs.mono fun f hf => .inl hf
  | @cons s t finish c calls hbefore hleaves hrest ih =>
    subst hbefore
    have hc := hlast c List.mem_cons_self
    have hrun : Run c.before.state [c] t := .cons rfl hleaves (.nil _)
    have horderly' := hrun.orderly_of horderly
    have hformed' : i.MeetsFormed t :=
      hrun.meetsFormed horderly hformed fun d hd => by
        rw [List.mem_singleton.mp hd]
        exact hc.constants.symm
    rw [List.pairwise_cons] at hcalls
    have hlater := ih horderly' hformed' hcalls.2
      (fun d hd => hlast d (List.mem_cons_of_mem _ hd))
      (hleaves.ownedBy horderly (hformed.congr hc.constants.symm) hs)
    refine hlater.mono fun f hf => ?_
    rcases hf with (hf | hlive | hends) | hlive | ⟨d, hd, hends⟩
    · exact .inl hf
    · rcases hrest.live_or horderly' hcalls.1 hcalls.2
        (fun d hd => hlast d (List.mem_cons_of_mem _ hd)) hc hlive with hlive | ⟨d, hd, hends⟩
      · exact .inr (.inl hlive)
      · exact .inr (.inr ⟨d, List.mem_cons_of_mem _ hd, hends⟩)
    · exact .inr (.inr ⟨c, List.mem_cons_self, hends⟩)
    · exact .inr (.inl hlive)
    · exact .inr (.inr ⟨d, List.mem_cons_of_mem _ hd, hends⟩)

/-! ### Whose signatures are refused -/

namespace PendingSignatures

/-- Checking signatures does not ask whose they are. -/
theorem checkFrom_ne_unknownFederator {tx : Transaction} {key : PublicKey} {index : Nat}
    {inputs : List TxIn} {ders : List Bytes} {outcome : SigningOutcome}
    (h : checkFrom tx key index inputs ders = .error outcome) : outcome ≠ .unknownFederator := by
  induction inputs generalizing index ders with
  | nil => cases h
  | cons input inputs ih =>
    cases ders with
    | nil => cases h
    | cons der ders =>
      unfold checkFrom at h
      split at h
      · cases h
        intro heq
        cases heq
      · split at h
        · cases h
          intro heq
          cases heq
        · split at h
          · next e hrest =>
            cases h
            exact ih hrest
          · cases h

/-- Signing does not ask whose the key is. -/
theorem signTransaction_ne_unknownFederator (tx : Transaction) (key : PublicKey)
    (signatures : List Bytes) : (signTransaction tx key signatures).1 ≠ .unknownFederator := by
  unfold signTransaction
  split
  · exact nofun
  · split
    · next outcome hchecked => exact checkFrom_ne_unknownFederator hchecked
    · split
      · exact nofun
      · split
        · exact nofun
        · simp only
          split
          · exact nofun
          · split
            · exact nofun
            · exact nofun

/-- Nor does submitting. -/
theorem submit_ne_unknownFederator (p : PendingSignatures) (hash : HostTxHash) (key : PublicKey)
    (signatures : List Bytes) : (submit p hash key signatures).1 ≠ .unknownFederator := by
  unfold submit
  split
  · exact nofun
  · next tx hfound =>
    have hknown := signTransaction_ne_unknownFederator tx key signatures
    split
    · exact nofun
    · next outcome signed hfully hsigned =>
      rw [hsigned] at hknown
      exact hknown

end PendingSignatures

/-- **Signatures are refused as a stranger's** exactly if no live federation has the key. -/
theorem Payout.unknownFederator_iff {i : Invocation} {key : PublicKey} {signatures : List Bytes}
    {hash : HostTxHash} {s : State} :
    (addSignatures i key signatures hash s).1 = .unknownFederator ↔
      ∀ g ∈ i.live s, ¬ g.hasKey key := by
  rw [← List.any_eq_false]
  rcases addSignatures_cases i key signatures hash s with ⟨hlive, hsubmit⟩ | ⟨hlive, hrefused⟩
  · rw [hsubmit, hlive]
    refine iff_of_false ?_ nofun
    exact PendingSignatures.submit_ne_unknownFederator _ _ _ _
  · rw [hrefused, hlive]
    exact iff_of_true rfl rfl

/-! ### Runs of a new peg -/

namespace Run

/-- **Whoever has to sign a transaction can sign it, until an update ends the window of the
federation.** After every run of a new peg in blocks that are in order, each input of each
transaction that is being signed carries the script of a federation, and the keys of the script are
those of its members. The federation is live, or a call has ended its window. Only in the second case
can the signatures of a member be refused as a stranger's, and only if no live federation has the
key. -/
theorem signable {finish : State} {calls : List Call} {i : Invocation}
    (h : Run .initial calls finish) (hgenesis : i.constants.genesis.IsFormed)
    (hcalls : calls.Pairwise fun c d => c.invocation.Precedes d.invocation)
    (hlast : ∀ c ∈ calls, c.invocation.Precedes i) {hash : HostTxHash} {tx : Transaction}
    (hpending : finish.pending.get? hash = some tx) {input : TxIn} (hinput : input ∈ tx.inputs) :
    ∃ f : Federation, f.IsFormed ∧
      ScriptSig.redeemScript? input.scriptSig = some f.redeemScript ∧
      ScriptSig.keysOf f.redeemScript = f.btcKeys ∧
      (f ∈ i.live finish ∨ ∃ c ∈ calls, c.EndsWindow f) ∧
      ∀ key ∈ f.btcKeys, ∀ signatures,
        (Payout.addSignatures i key signatures hash finish).1 = .unknownFederator →
          (∃ c ∈ calls, c.EndsWindow f) ∧ ∀ g ∈ i.live finish, ¬ g.hasKey key := by
  have howned := h.ownedBy (P := fun _ => False) State.orderly_initial
    (Invocation.meetsFormed_initial hgenesis) hcalls hlast (fun tx htx => absurd htx List.not_mem_nil)
  have htx : tx ∈ finish.inFlight := List.mem_append_right _
    ((SortedMap.values_perm_of_get? hpending).mem_iff.mpr List.mem_cons_self)
  obtain ⟨f, hf, hformed, hframe⟩ := howned tx htx input.frame (List.mem_map_of_mem hinput)
  have htenure : f ∈ i.live finish ∨ ∃ c ∈ calls, c.EndsWindow f :=
    hf.resolve_left not_false
  refine ⟨f, hformed, TxIn.redeemScript?_of_frame hframe, hformed.keysOf_redeemScript, htenure, ?_⟩
  intro key hkey signatures hrefused
  have hnone := Payout.unknownFederator_iff.mp hrefused
  refine ⟨htenure.resolve_left fun hlive => ?_, hnone⟩
  exact hnone f hlive (List.contains_iff_mem.mpr hkey)

end Run

/-! ### Handing over to a federation of another key -/

namespace Example

/-- The double of the base point has a short form. -/
theorem heir_valid : (PublicKey.pointOf? (0x02 :: Bytes.ofNatBE 32
    0xc6047f9441ed7d6d3045406e95c07cd85c778e4b8cef3ca7abac09b95c709ee5)).isSome := by
  decide +kernel

/-- The double of the base point as a key. -/
def heirKey : PublicKey :=
  ⟨0x02 :: Bytes.ofNatBE 32 0xc6047f9441ed7d6d3045406e95c07cd85c778e4b8cef3ca7abac09b95c709ee5,
    heir_valid⟩

/-- The federation of the other key. -/
def heir : Federation := ⟨[.ofKey heirKey], 0, 1, .regtest⟩

/-- The holder of the other key joins the pending federation. -/
def heirAdded : Call := vote "add" [heirKey.bytes] created.after.state

/-- The pending federation is committed. -/
def heirCommitted : Call :=
  vote "commit" [(PendingFederation.hash ⟨[.ofKey heirKey]⟩).toList] heirAdded.after.state

/-- An update within the window, which moves what the first federation holds. -/
def migrated : Call := call 50 (.update ⟨.replicate 32 0⟩) heirCommitted.after.state .empty

/-- The input that spends the only output of the first federation. -/
def migrationInput : TxIn :=
  ⟨⟨⟨changeDigest⟩, 0⟩, ScriptSig.placeholder federation.redeemScript 1, 0xFFFFFFFF, []⟩

/-- The transaction that the update builds. -/
def migration : Transaction := ⟨1, [migrationInput], [⟨.clamp 98050, heir.payScript⟩], 0⟩

/-- The update that passes the transaction on to be signed. -/
def passedOn : Call := call 53 (.update ⟨.replicate 32 9⟩) migrated.after.state .empty

/-- The update that ends the window. -/
def windowEnded : Call := call 111 (.update ⟨.replicate 32 8⟩) passedOn.after.state .empty

/-- The calls before the update. -/
def commitment : List Call := [registered, created, heirAdded, heirCommitted]

/-- The calls before the window ends. -/
def handover : List Call := commitment ++ [migrated, passedOn]

/-- The calls before the update make a run. -/
theorem run_commitment : Run .initial commitment heirCommitted.after.state :=
  .cons (state_before_call _ _ _ _) .kept
    (.cons (state_before_call _ _ _ _) .kept
      (.cons (state_before_call _ _ _ _) .kept
        (.cons (state_before_call _ _ _ _) .kept (.nil _))))

/-- So do the calls before the window ends. -/
theorem run_handover : Run .initial handover passedOn.after.state :=
  run_commitment.append
    (.cons (state_before_call _ _ _ _) .kept (.cons (state_before_call _ _ _ _) .kept (.nil _)))

/-- So do the calls until the window has ended. -/
theorem run_windowEnded : Run .initial (handover ++ [windowEnded]) windowEnded.after.state :=
  run_handover.append (.cons (state_before_call _ _ _ _) .kept (.nil _))

/-- All calls are made under the same constants. -/
theorem constants_handover :
    ∀ c ∈ handover ++ [windowEnded], c.invocation.constants = constants := by
  simp only [handover, commitment, List.cons_append, List.nil_append, List.forall_mem_cons, List.not_mem_nil,
    false_implies, implies_true, and_true]
  exact ⟨rfl, rfl, rfl, rfl, rfl, rfl, rfl⟩

/-- They are made in blocks in order. -/
theorem pairwise_handover :
    (handover ++ [windowEnded]).Pairwise fun c d => c.invocation.Precedes d.invocation := by
  have hnumbers : ((handover ++ [windowEnded]).map fun c => c.invocation.number).Pairwise (· ≤ ·) :=
    show [1, 1, 1, 1, 50, 53, 111].Pairwise (· ≤ ·) by decide
  refine (List.pairwise_map.mp hnumbers).imp_of_mem fun hc hd hle => ⟨?_, hle⟩
  rw [constants_handover _ hd, constants_handover _ hc]

/-- No call is made after the last block. -/
theorem precedes_windowEnded :
    ∀ c ∈ handover ++ [windowEnded], c.invocation.Precedes windowEnded.invocation := by
  have hnumbers : ∀ n ∈ (handover ++ [windowEnded]).map fun c => c.invocation.number, n ≤ 111 :=
    show ∀ n ∈ [1, 1, 1, 1, 50, 53, 111], n ≤ 111 by decide
  intro c hc
  exact ⟨(constants_handover c hc).symm, hnumbers _ (List.mem_map_of_mem hc)⟩

/-- Before the window ends, no call is made in a block whose number is greater than 53. -/
theorem number_le_of_mem_handover : ∀ c ∈ handover, c.invocation.number ≤ 53 := by
  have hnumbers : ∀ n ∈ handover.map fun c => c.invocation.number, n ≤ 53 :=
    show ∀ n ∈ [1, 1, 1, 1, 50, 53], n ≤ 53 by decide
  exact fun c hc => hnumbers _ (List.mem_map_of_mem hc)

/-- Nor does one of them end a window. -/
theorem not_endsWindow_of_mem_handover : ∀ c ∈ handover, ∀ f, ¬ c.EndsWindow f := by
  rintro c hc f ⟨-, hends⟩
  refine Invocation.not_endsWindow_of_number_lt ?_ hends
  rw [constants_handover c (List.mem_append_left _ hc)]
  exact Nat.lt_of_le_of_lt (number_le_of_mem_handover c hc) (by decide)

/-- The update makes the transaction wait, when the first federation retires behind the other one.
Then the transaction is being signed, until and after the first federation has been forgotten. Only
the change is recorded meanwhile. -/
theorem handover_states :
    ((migration ∉ WaitingList.transactions migrated.before.state.waiting ∧
        migration ∈ WaitingList.transactions
          (Migration.advance migrated.invocation migrated.before).state.waiting) ∧
      migrated.invocation.live migrated.before.state = [heir, federation]) ∧
    (passedOn.after.state.pending.get? ⟨.replicate 32 9⟩ = some migration ∧
      passedOn.after.state.processed.keys = [⟨changeDigest⟩]) ∧
    (windowEnded.after.state.pending.get? ⟨.replicate 32 9⟩ = some migration ∧
      windowEnded.after.state.processed.keys = [⟨changeDigest⟩] ∧
      windowEnded.after.state.federations = ⟨some heir, none, none⟩) := by
  set_option maxRecDepth 100000 in
  decide +kernel

/-- The input carries the script of the first federation. -/
theorem redeemScript?_migrationInput :
    ScriptSig.redeemScript? migrationInput.scriptSig = some federation.redeemScript := by
  decide +kernel

/-- The script has the key of the first federation. -/
theorem mem_keysOf_federation : key ∈ ScriptSig.keysOf federation.redeemScript := by
  rw [federation_isFormed.keysOf_redeemScript]
  exact List.mem_cons_self

/-- After the window only the other federation is live. -/
theorem live_windowEnded {i : Invocation} (h : i.constants = constants) :
    i.live windowEnded.after.state = [heir] := by
  obtain ⟨-, -, -, -, hplaces⟩ := handover_states
  rw [i.live_of_old_none (by rw [hplaces]), hplaces, h]
  rfl

end Example

namespace Run

open Example

/-- When the migration is passed on to be signed, it carries the key of the member of the first
federation, who is not refused. -/
theorem signable_within_window :
    (passedOn.after.state.pending.get? ⟨.replicate 32 9⟩ = some migration ∧
        migrationInput ∈ migration.inputs) ∧
      key ∈ ScriptSig.keysOf federation.redeemScript ∧
        ∀ signatures, (Payout.addSignatures passedOn.invocation key signatures
          ⟨.replicate 32 9⟩ passedOn.after.state).1 ≠ .unknownFederator := by
  obtain ⟨-, ⟨hpending, -⟩, -⟩ := handover_states
  have hinput : migrationInput ∈ migration.inputs := List.mem_singleton_self _
  have hpairwise := (List.pairwise_append.mp pairwise_handover).1
  have hlast : ∀ c ∈ handover, c.invocation.Precedes passedOn.invocation := fun c hc =>
    ⟨(constants_handover c (List.mem_append_left _ hc)).symm, number_le_of_mem_handover c hc⟩
  obtain ⟨f, -, hscript, hkeys, -, hrefused⟩ :=
    signable run_handover federation_isFormed hpairwise hlast hpending hinput
  rw [redeemScript?_migrationInput, Option.some.injEq] at hscript
  refine ⟨⟨hpending, hinput⟩, mem_keysOf_federation, fun signatures hunknown => ?_⟩
  have hkey : key ∈ f.btcKeys := by
    rw [← hkeys, ← hscript]
    exact mem_keysOf_federation
  obtain ⟨⟨c, hc, hends⟩, -⟩ := hrefused key hkey signatures hunknown
  exact not_endsWindow_of_mem_handover c hc f hends

/-- After the window the migration is still being signed. No live federation has the key that it
carries, and the signatures of the member are refused as a stranger's. -/
theorem refused_after_window :
    (Run .initial (handover ++ [windowEnded]) windowEnded.after.state ∧
        (handover ++ [windowEnded]).Pairwise fun c d => c.invocation.Precedes d.invocation) ∧
      (∀ c ∈ handover ++ [windowEnded], c.invocation.Precedes windowEnded.invocation) ∧
      (windowEnded.after.state.pending.get? ⟨.replicate 32 9⟩ = some migration ∧
        migrationInput ∈ migration.inputs) ∧
      ScriptSig.redeemScript? migrationInput.scriptSig = some federation.redeemScript ∧
      key ∈ ScriptSig.keysOf federation.redeemScript ∧
      (∀ g ∈ windowEnded.invocation.live windowEnded.after.state, ¬ g.hasKey key) ∧
        ∀ signatures, (Payout.addSignatures windowEnded.invocation key signatures
          ⟨.replicate 32 9⟩ windowEnded.after.state).1 = .unknownFederator := by
  obtain ⟨-, -, hpending, -⟩ := handover_states
  have hstranger : ∀ g ∈ windowEnded.invocation.live windowEnded.after.state, ¬ g.hasKey key := by
    rw [live_windowEnded rfl]
    simp only [List.forall_mem_singleton]
    decide +kernel
  exact ⟨⟨run_windowEnded, pairwise_handover⟩, precedes_windowEnded,
    ⟨hpending, List.mem_singleton_self _⟩, redeemScript?_migrationInput, mem_keysOf_federation,
    hstranger, fun signatures => Payout.unknownFederator_iff.mpr hstranger⟩

end Run

end TwoWayPeg
