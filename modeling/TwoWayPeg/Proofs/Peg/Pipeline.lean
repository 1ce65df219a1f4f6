import TwoWayPeg.Proofs.Peg.Sweep

/-!
# What becomes of a built transaction

A built transaction waits. An update passes it on to be signed and files it under its own name, and
signatures fill its inputs until all are there. Nothing else takes a transaction away, but for one
case: nothing keeps two updates from having the same name, and then the transaction of the second one
takes the place of the first one's. What the first one spends is lost for good, as its outputs have
left the lists when it was built.

* `State.Grows`: what all steps keep but passing on and signing.
* `Call.Leaves.carries`: one call keeps a transaction, completes it or replaces it.
* `Run.carries_or`: so does a run, by induction.
* `State.Secured.gone_of_file`: what is filed under a name leaves nothing of what was there.
* `Run.carried_or_completed`: a transaction is kept or has been completed, unless it was replaced.
-/

namespace TwoWayPeg

/-! ### On the way -/

namespace State

variable {s t u : State} {tx : Transaction}

/-- A transaction waits, or it is being signed: the same but for scripts, and what these hold has
come in by signatures. -/
def Carries (s : State) (tx : Transaction) : Prop :=
  tx ∈ WaitingList.transactions s.waiting ∨
    ∃ hash kept, s.pending.get? hash = some kept ∧ kept.bare = tx.bare ∧ tx.SignedFrom kept

/-- What is carried is on its way, perhaps with signatures. -/
theorem Carries.exists_inFlight (h : s.Carries tx) : ∃ kept ∈ s.inFlight, tx.SignedFrom kept := by
  rcases h with hwaiting | ⟨hash, kept, hfound, -, hsigned⟩
  · exact ⟨tx, List.mem_append_left _ hwaiting, .unsigned⟩
  · refine ⟨kept, List.mem_append_right _ ?_, hsigned⟩
    exact (SortedMap.values_perm_of_get? hfound).mem_iff.mpr List.mem_cons_self

/-- The outpoints of what is carried are kept. -/
theorem Carries.mem_tracked (h : s.Carries tx) {o : OutPoint} (ho : o ∈ tx.spends) :
    o ∈ s.tracked := by
  obtain ⟨kept, hkept, hsigned⟩ := h.exists_inFlight
  rw [← hsigned.spends_eq] at ho
  exact List.mem_append_right _ (State.mem_committed hkept ho)

/-- What waits goes on waiting, and nothing happens to what is being signed. -/
structure Grows (s t : State) : Prop where
  waiting : s.waiting ⊆ t.waiting
  pending : t.pending = s.pending

namespace Grows

/-- Nothing happens at all. -/
theorem refl (s : State) : Grows s s := ⟨List.Subset.refl _, rfl⟩

/-- One after the other. -/
theorem trans (hst : Grows s t) (htu : Grows t u) : Grows s u :=
  ⟨List.Subset.trans hst.waiting htu.waiting, htu.pending.trans hst.pending⟩

/-- What is carried is still carried. -/
theorem carries (h : Grows s t) (hs : s.Carries tx) : t.Carries tx := by
  rcases hs with hwaiting | ⟨hash, kept, hfound, hkept⟩
  · exact .inl (List.map_subset WaitingTransaction.transaction h.waiting hwaiting)
  · refine .inr ⟨hash, kept, ?_, hkept⟩
    rw [h.pending]
    exact hfound

end Grows

end State

/-- All moves but two only add to what waits. -/
theorem Operation.Move.grows {i : Invocation} {op : Operation} {s t : State} (h : op.Move i s t)
    (hupdate : ∀ hash, op ≠ .update hash)
    (hsign : ∀ key signatures hash, op ≠ .addSignatures key signatures hash) : s.Grows t := by
  cases h with
  | refund _ m destination built hmined hbuilt => exact ⟨WaitingList.subset_add _ _ _, rfl⟩
  | migrate _ retiring built hretiring hbuilt => exact absurd rfl (hupdate _)
  | forget _ retiring hretiring hage => exact absurd rfl (hupdate _)
  | build _ r built hbuilt => exact absurd rfl (hupdate _)
  | requeue _ requests => exact absurd rfl (hupdate _)
  | promote _ => exact absurd rfl (hupdate _)
  | sign _ hlive => exact absurd rfl (hsign _ _ _)
  | _ => exact ⟨List.Subset.refl _, rfl⟩

/-! ### Updates -/

section

variable {i : Invocation} {R : State → State → Prop}

/-- What an update does about the retiring federation relates the states before and after it, if
moving funds and forgetting the federation do. -/
theorem Migration.advance_induct (hrefl : ∀ s, R s s) (htrans : ∀ {s t u}, R s t → R t u → R s u)
    (hmove : ∀ {retiring active s t}, move i retiring active s = .ok t → R s t)
    (hforget : ∀ s, R s (forget s)) (w : World) : R w.state (advance i w).state := by
  unfold advance
  split
  · exact hrefl _
  · next retiring hretiring =>
    simp only
    split
    · -- what is left is moved, if it can be, and then the federation is forgotten
      refine htrans (t := (moveRest i retiring (i.active w.state) w).state) ?_ (hforget _)
      simp only [moveRest]
      split
      · split
        · next hmoved => exact hmove hmoved
        · exact hrefl _
      · exact hrefl _
    · split
      · simp only [moveWithinWindow]
        split
        · split
          · next hmoved => exact hmove hmoved
          · exact hrefl _
        · exact hrefl _
      · exact hrefl _

namespace Payout

/-- Building a release relates the states before and after it, if recording its transaction does. -/
theorem build_induct (hrefl : ∀ s, R s s) (hrecord : ∀ tx s, R s (record i tx s))
    (r : ReleaseRequest) (w : World) : R w.state (build i r w).2.state := by
  simp only [build]
  split
  · exact hrefl _
  · next built hbuilt =>
    split
    · exact hrecord built.tx _
    · exact hrecord built.tx _

/-- What an update has put among the waiting transactions before it passes one on. -/
def queued (i : Invocation) (w : World) : Except PegError Nat × World :=
  buildQueued i (Migration.advance i w)

/-- **What an update does before it passes one on** relates the states before and after it, if its
parts do: moving funds, forgetting a federation, recording a transaction, and changing the queue. -/
theorem queued_induct (hrefl : ∀ s, R s s) (htrans : ∀ {s t u}, R s t → R t u → R s u)
    (hmove : ∀ {retiring active s t}, Migration.move i retiring active s = .ok t → R s t)
    (hforget : ∀ s, R s (Migration.forget s)) (hrecord : ∀ tx s, R s (record i tx s))
    (hrequeue : ∀ (s : State) (requests : ReleaseQueue), R s { s with requests }) (w : World) :
    R w.state (queued i w).2.state := by
  have hpass : R (Migration.advance i w).state
      (ReleaseQueue.pass (Migration.advance i w).state.requests i.constants.maxReleaseRounds
        (build i) (Migration.advance i w)).state.state :=
    ReleaseQueue.passRounds_induct (R := fun before after : World => R before.state after.state)
      (fun _ => hrefl _) (fun hst htu => htrans hst htu) (build_induct hrefl hrecord) _ _ _ _
  exact htrans (Migration.advance_induct hrefl htrans hmove hforget w)
    (htrans hpass (hrequeue _ _))

end Payout

end

/-- A move of funds adds a transaction. -/
theorem Migration.grows_of_move {i : Invocation} {retiring active : Federation} {s t : State}
    (h : move i retiring active s = .ok t) : s.Grows t := by
  simp only [move] at h
  split at h
  · cases h
  · cases h
    exact ⟨WaitingList.subset_add _ _ _, rfl⟩

namespace Payout

variable {s : State} {tx : Transaction}

/-- An update only adds to what waits before it passes one on. -/
theorem queued_grows (i : Invocation) (w : World) : w.state.Grows (queued i w).2.state := by
  refine queued_induct .refl (fun hst htu => hst.trans htu) Migration.grows_of_move
    (fun _ => ⟨List.Subset.refl _, rfl⟩) (fun tx s => ?_)
    (fun _ _ => ⟨List.Subset.refl _, rfl⟩) w
  rw [record, Invocation.withActiveUtxos_eq]
  exact ⟨WaitingList.subset_add _ _ _, rfl⟩

/-- An update is made of moves before it passes one on. -/
theorem queued_moves (i : Invocation) (hash : HostTxHash) (w : World) :
    Operation.Moves i (.update hash) w.state (queued i w).2.state :=
  (Migration.advance_moves i hash w).trans (buildQueued_moves i hash _)

/-- An update that fails passes nothing on; one that does not fail passes one on at the end. -/
theorem update_cases (i : Invocation) (hash : HostTxHash) (w : World) :
    (∃ e, (update i hash w).1 = .error e ∧ (update i hash w).2 = (queued i w).2) ∨
      ((update i hash w).1 = .ok () ∧
        (update i hash w).2.state = promote i hash (queued i w).2.state) := by
  unfold update queued
  rcases buildQueued i (Migration.advance i w) with ⟨e | n, built⟩
  · exact .inl ⟨e, rfl, rfl⟩
  · exact .inr ⟨rfl, rfl⟩

/-- What an update does when it passes on: nothing is due, or the earliest that is due is taken out
and filed. -/
theorem promote_cases (i : Invocation) (hash : HostTxHash) (s : State) :
    (WaitingList.transactions (promote i hash s).waiting).Perm
        (WaitingList.transactions s.waiting) ∧ (promote i hash s).pending = s.pending ∧
        (promote i hash s).holdings = s.holdings ∨
      ∃ due, (due :: WaitingList.transactions (promote i hash s).waiting).Perm
          (WaitingList.transactions s.waiting) ∧
        (promote i hash s).pending = s.pending.insert hash due ∧
        (promote i hash s).holdings = s.holdings := by
  rcases promote_eq_cases i hash s with ⟨-, heq⟩ | ⟨front, w, back, hqueue, -, -, heq⟩
  · rw [heq]
    exact .inl ⟨.refl _, rfl, rfl⟩
  · rw [heq, hqueue]
    refine .inr ⟨w.transaction, ?_, rfl, rfl⟩
    have hperm : (front ++ w :: back).Perm (w :: (front ++ back)) := List.perm_middle
    exact hperm.symm.map WaitingTransaction.transaction

/-- What waits is still carried when one has been passed on. -/
theorem carries_promote (i : Invocation) (hash : HostTxHash)
    (h : tx ∈ WaitingList.transactions s.waiting) : (promote i hash s).Carries tx := by
  rcases promote_cases i hash s with ⟨hperm, -, -⟩ | ⟨due, hperm, hpending, -⟩
  · exact .inl (hperm.mem_iff.mpr h)
  · rcases List.mem_cons.mp (hperm.mem_iff.mpr h) with rfl | hwaiting
    · refine .inr ⟨hash, tx, ?_, rfl, .unsigned⟩
      rw [hpending, SortedMap.get?_insert_self]
    · exact .inl hwaiting

end Payout

/-! ### One call -/

/-- What becomes of a transaction when signatures are submitted under some name. -/
theorem PendingSignatures.submit_cases {p : PendingSignatures} {hash' : HostTxHash}
    {kept : Transaction} (h : p.get? hash' = some kept) (hash : HostTxHash) (key : PublicKey)
    (signatures : List Bytes) :
    (submit p hash key signatures).2.get? hash' = some kept ∨
      hash' = hash ∧
        ((submit p hash key signatures).1 = .fullySigned ∨
          (submit p hash key signatures).2.get? hash' =
            some (signTransaction kept key signatures).2) := by
  unfold submit
  by_cases hhash : hash' = hash
  · subst hhash
    refine .inr ⟨rfl, ?_⟩
    rw [h]
    dsimp only
    split
    · exact .inl rfl
    · next hsigned =>
      refine .inr ?_
      rw [SortedMap.get?_insert_self, hsigned]
  · refine .inl ?_
    split
    · exact h
    · split
      · rw [SortedMap.get?_erase_ne _ hhash]
        exact h
      · rw [SortedMap.get?_insert_ne _ _ hhash]
        exact h

/-- What is fully signed is taken out. -/
theorem PendingSignatures.submit_of_fullySigned {p : PendingSignatures} {hash : HostTxHash}
    {key : PublicKey} {signatures : List Bytes}
    (h : (submit p hash key signatures).1 = .fullySigned) :
    (submit p hash key signatures).2 = p.erase hash := by
  unfold submit at h ⊢
  split at h
  · cases h
  · next tx hfound =>
    split at h
    · rfl
    · next hnot hsigned => exact absurd h hnot

/-- Signatures of a member of a live federation are submitted, and all others are refused. -/
theorem Payout.addSignatures_cases (i : Invocation) (key : PublicKey) (signatures : List Bytes)
    (hash : HostTxHash) (s : State) :
    ((i.live s).any (fun f => f.hasKey key) = true ∧
        addSignatures i key signatures hash s =
          ((PendingSignatures.submit s.pending hash key signatures).1,
            { s with pending := (PendingSignatures.submit s.pending hash key signatures).2 })) ∨
      ((i.live s).any (fun f => f.hasKey key) = false ∧
        addSignatures i key signatures hash s = (.unknownFederator, s)) := by
  unfold addSignatures
  split
  · next hlive => exact .inl ⟨hlive, rfl⟩
  · next hlive => exact .inr ⟨(Bool.not_eq_true _).mp hlive, rfl⟩

namespace Call

variable {c : Call} {t : State} {tx : Transaction}

/-- The transactions that wait after the call, and those that have come to wait in it and have been
passed on at once. -/
def waited (c : Call) : List Transaction :=
  match c.operation with
  | .update _ => WaitingList.transactions (Payout.queued c.invocation c.before).2.state.waiting
  | _ => WaitingList.transactions c.after.state.waiting

/-- The call submits signatures for the transaction, and the answer is that it is fully signed. -/
def Completes (c : Call) (tx : Transaction) : Prop :=
  ∃ key signatures hash kept, c.operation = .addSignatures key signatures hash ∧
    c.answer = .ok (.signing .fullySigned) ∧
    c.before.state.pending.get? hash = some kept ∧ tx.SignedFrom kept

/-- The call is an update whose name the transaction is filed under, and it files another one under
this name. -/
def Replaces (c : Call) (tx : Transaction) : Prop :=
  ∃ hash kept other, c.operation = .update hash ∧
    c.before.state.pending.get? hash = some kept ∧ tx.SignedFrom kept ∧
    c.after.state.pending.get? hash = some other ∧ other ≠ kept

/-- The state after an update. -/
theorem after_of_update {hash : HostTxHash} (hop : c.operation = .update hash) :
    c.after.state = (Payout.update c.invocation hash c.before).2.state := by
  rw [after, hop]
  rfl

/-- What has come to wait in a call is carried after it. -/
theorem carries_of_waited (h : tx ∈ c.waited) : c.after.state.Carries tx := by
  unfold waited at h
  split at h
  · next hash hop =>
    rw [after_of_update hop]
    rcases Payout.update_cases c.invocation hash c.before with ⟨e, -, hafter⟩ | ⟨-, hafter⟩
    · rw [hafter]
      exact .inl h
    · rw [hafter]
      exact Payout.carries_promote c.invocation hash h
  · exact .inl h

/-- **An update** keeps what is carried, or it replaces it. -/
theorem carries_or_replaces {hash : HostTxHash} (hop : c.operation = .update hash)
    (h : c.before.state.Carries tx) : c.after.state.Carries tx ∨ c.Replaces tx := by
  have hqueued := Payout.queued_grows c.invocation c.before
  have hafter := after_of_update hop
  rcases Payout.update_cases c.invocation hash c.before with ⟨e, -, hstate⟩ | ⟨-, hstate⟩
  · rw [hafter, hstate]
    exact .inl (hqueued.carries h)
  rw [hstate] at hafter
  rcases hqueued.carries h with hwaiting | ⟨hash', kept, hfound, hbare, hsigned⟩
  · rw [hafter]
    exact .inl (Payout.carries_promote c.invocation hash hwaiting)
  rcases Payout.promote_cases c.invocation hash (Payout.queued c.invocation c.before).2.state with
    ⟨-, hpending, -⟩ | ⟨due, -, hpending, -⟩
  · refine .inl (.inr ⟨hash', kept, ?_, hbare, hsigned⟩)
    rw [hafter, hpending]
    exact hfound
  by_cases hhash : hash' = hash
  · subst hhash
    have hnew : c.after.state.pending.get? hash' = some due := by
      rw [hafter, hpending, SortedMap.get?_insert_self]
    by_cases hdue : due = kept
    · rw [hdue] at hnew
      exact .inl (.inr ⟨hash', kept, hnew, hbare, hsigned⟩)
    · rw [hqueued.pending] at hfound
      exact .inr ⟨hash', kept, due, hop, hfound, hsigned, hnew, hdue⟩
  · refine .inl (.inr ⟨hash', kept, ?_, hbare, hsigned⟩)
    rw [hafter, hpending, SortedMap.get?_insert_ne _ _ hhash]
    exact hfound

/-- **Signatures** keep what is carried, or they complete it. -/
theorem carries_or_completes {key : PublicKey} {signatures : List Bytes} {hash : HostTxHash}
    (hop : c.operation = .addSignatures key signatures hash) (h : c.before.state.Carries tx) :
    c.after.state.Carries tx ∨ c.Completes tx := by
  have hanswer : c.answer = .ok (.signing (Payout.addSignatures c.invocation key signatures hash
      c.before.state).1) := by
    rw [answer, hop]
    rfl
  have hafter : c.after.state =
      (Payout.addSignatures c.invocation key signatures hash c.before.state).2 := by
    rw [after, hop]
    rfl
  rcases Payout.addSignatures_cases c.invocation key signatures hash c.before.state with
    ⟨-, hsubmit⟩ | ⟨-, hrefused⟩
  case inr =>
    rw [hrefused] at hafter
    exact .inl (hafter ▸ h)
  rw [hsubmit] at hanswer hafter
  rw [hafter]
  rcases h with hwaiting | ⟨hash', kept, hfound, hbare, hsigned⟩
  · exact .inl (.inl hwaiting)
  rcases PendingSignatures.submit_cases hfound hash key signatures with
    hsame | ⟨rfl, hfully | hmore⟩
  · exact .inl (.inr ⟨hash', kept, hsame, hbare, hsigned⟩)
  · rw [hfully] at hanswer
    exact .inr ⟨key, signatures, hash', kept, hop, hanswer, hfound, hsigned⟩
  · refine .inl (.inr ⟨hash', _, hmore, ?_, hsigned.signed key signatures⟩)
    rw [PendingSignatures.bare_signTransaction]
    exact hbare

/-- **One call** keeps what is carried, completes it or replaces it. -/
theorem Leaves.carries (h : c.Leaves t) (hs : c.before.state.Carries tx) :
    t.Carries tx ∨ c.Completes tx ∨ c.Replaces tx := by
  cases h with
  | discarded e hfailed => exact .inl hs
  | kept =>
    by_cases hupdate : ∃ hash, c.operation = .update hash
    · obtain ⟨hash, hop⟩ := hupdate
      exact (carries_or_replaces hop hs).imp_right .inr
    by_cases hsign : ∃ key signatures hash, c.operation = .addSignatures key signatures hash
    · obtain ⟨key, signatures, hash, hop⟩ := hsign
      exact (carries_or_completes hop hs).imp_right .inl
    · refine .inl ((Leaves.kept (c := c)).preserves (P := fun s => s.Carries tx)
        (fun _ _ hmove hs => ?_) hs)
      have hgrows := hmove.grows (fun hash heq => hupdate ⟨hash, heq⟩)
        (fun key signatures hash heq => hsign ⟨key, signatures, hash, heq⟩)
      exact hgrows.carries hs

end Call

namespace Run

variable {start finish : State} {calls : List Call} {tx : Transaction}

/-- **A run** keeps what is carried, unless a call of it completes or replaces it. -/
theorem carries_or (h : Run start calls finish) (hs : start.Carries tx) :
    finish.Carries tx ∨ (∃ d ∈ calls, d.Completes tx) ∨ ∃ d ∈ calls, d.Replaces tx := by
  induction h with
  | nil s => exact .inl hs
  | @cons s t finish c calls hbefore hleaves hrest ih =>
    rw [← hbefore] at hs
    rcases hleaves.carries hs with hkept | hcompleted | hreplaced
    · rcases ih hkept with hkept | ⟨d, hd, hcompleted⟩ | ⟨d, hd, hreplaced⟩
      · exact .inl hkept
      · exact .inr (.inl ⟨d, List.mem_cons_of_mem _ hd, hcompleted⟩)
      · exact .inr (.inr ⟨d, List.mem_cons_of_mem _ hd, hreplaced⟩)
    · exact .inr (.inl ⟨c, List.mem_cons_self, hcompleted⟩)
    · exact .inr (.inr ⟨c, List.mem_cons_self, hreplaced⟩)

/-- One run after another. -/
theorem append {t : State} {calls' : List Call} (h : Run start calls t)
    (h' : Run t calls' finish) : Run start (calls ++ calls') finish := by
  induction h with
  | nil s => exact h'
  | cons hbefore hleaves hrest ih => exact .cons hbefore hleaves (ih h')

/-- A run up to one of its calls, and on from there. -/
theorem exists_of_append {front back : List Call} {d : Call}
    (h : Run start (front ++ d :: back) finish) :
    Run start front d.before.state ∧ ∃ t, d.Leaves t ∧ Run t back finish := by
  induction front generalizing start with
  | nil =>
    cases h with
    | cons hbefore hleaves hrest =>
      rw [← hbefore]
      exact ⟨.nil _, _, hleaves, hrest⟩
  | cons c front ih =>
    cases h with
    | cons hbefore hleaves hrest =>
      obtain ⟨hfront, t, ht, hback⟩ := ih hrest
      exact ⟨.cons hbefore hleaves hfront, t, ht, hback⟩

end Run

/-! ### What is built -/

/-- A transaction is built in a call: coins of live federations are spent, at least one. -/
def Invocation.Builds (i : Invocation) (s : State) (tx : Transaction) : Prop :=
  ∃ coins outputs, coins ≠ [] ∧ (∀ c ∈ coins, c.owner ∈ i.live s) ∧
    tx = Wallet.unsigned coins outputs

namespace Invocation

variable {i : Invocation} {s : State} {us : List Utxo} {federations : List Federation}
  {script destination changeScript : Script} {fee : Amount} {constants : Constants}
  {built : BuiltTransaction}

/-- A payment from a wallet of live federations is built. -/
theorem builds_of_payWithChange (hlive : federations ⊆ i.live s) {amount : Amount}
    (h : (Wallet.of us federations script fee constants).payWithChange destination amount
      changeScript = .ok built) : i.Builds s built.tx := by
  obtain ⟨-, hsome, -, recipient, topped, -, htx, -⟩ := Wallet.payWithChange_eq_ok h
  refine ⟨_, _, hsome, fun c hc => hlive ?_, htx⟩
  exact Coin.owner_mem_of_mem_ofUtxos ((Wallet.isPrefix_gather _ _).subset hc)

/-- Emptying a wallet of live federations is building. -/
theorem builds_of_payAll (hlive : federations ⊆ i.live s)
    (h : (Wallet.of us federations script fee constants).payAll destination = .ok built) :
    i.Builds s built.tx := by
  obtain ⟨hsome, -, -, htx, -⟩ := Wallet.payAll_eq_ok h
  exact ⟨_, _, hsome, fun c hc => hlive (Coin.owner_mem_of_mem_ofUtxos hc), htx⟩

end Invocation

/-- What waits after an addition waited before or has been added. -/
theorem WaitingList.mem_transactions_of_add {l : WaitingList} {tx added : Transaction}
    {block : UInt64} (h : tx ∈ transactions (add l added block)) :
    tx ∈ transactions l ∨ tx = added := by
  rcases add_eq l added block with heq | heq
  · rw [heq] at h
    exact .inl h
  · rw [heq, transactions, List.map_append] at h
    exact (List.mem_append.mp h).imp_right List.mem_singleton.mp

/-- What is kept after signatures have been submitted was kept before or has been signed. -/
theorem PendingSignatures.mem_values_of_submit {p : PendingSignatures} {hash : HostTxHash}
    {key : PublicKey} {signatures : List Bytes} {tx : Transaction}
    (h : tx ∈ (submit p hash key signatures).2.values) :
    ∃ kept ∈ p.values, tx = kept ∨ tx = (signTransaction kept key signatures).2 := by
  unfold submit at h
  split at h
  · exact ⟨tx, h, .inl rfl⟩
  · next found hfound =>
    have hvalues := (SortedMap.values_perm_of_get? hfound).mem_iff (a := found)
    split at h
    · exact ⟨tx, (SortedMap.values_erase_sublist p hash).subset h, .inl rfl⟩
    · next hsigned =>
      rcases List.mem_cons.mp ((SortedMap.values_insert_subperm p hash _).subset h) with rfl | h
      · exact ⟨found, hvalues.mpr List.mem_cons_self, .inr (by rw [hsigned])⟩
      · exact ⟨tx, h, .inl rfl⟩

/-- **What is on its way after a move** was on its way before, perhaps with fewer signatures, or it
has been built. -/
theorem Operation.Move.inFlight_cases {i : Invocation} {op : Operation} {s t : State}
    (h : op.Move i s t) {tx : Transaction} (htx : tx ∈ t.inFlight) :
    (∃ kept ∈ s.inFlight, kept.SignedFrom tx) ∨ i.Builds s tx := by
  have hold : tx ∈ s.inFlight →
      (∃ kept ∈ s.inFlight, kept.SignedFrom tx) ∨ i.Builds s tx := fun hmem =>
    .inl ⟨tx, hmem, .unsigned⟩
  -- what has been added to the waiting transactions is what has been built
  have hadded : ∀ (added : Transaction) (block : UInt64), i.Builds s added →
      tx ∈ WaitingList.transactions (WaitingList.add s.waiting added block) ++ s.pending.values →
      (∃ kept ∈ s.inFlight, kept.SignedFrom tx) ∨ i.Builds s tx := by
    intro added block hbuilds hmem
    rcases List.mem_append.mp hmem with hmem | hmem
    · rcases WaitingList.mem_transactions_of_add hmem with hmem | rfl
      · exact hold (List.mem_append_left _ hmem)
      · exact .inr hbuilds
    · exact hold (List.mem_append_right _ hmem)
  have hactive : [i.active s] ⊆ i.live s :=
    List.cons_subset.mpr ⟨List.mem_cons_self, List.nil_subset _⟩
  cases h with
  | refund _ m destination built hmined hbuilt =>
    exact hadded built.tx _ (Invocation.builds_of_payAll (List.Subset.refl _) hbuilt) htx
  | migrate _ retiring built hretiring hbuilt =>
    have hlive : [retiring] ⊆ i.live s := by
      rw [Invocation.live, hretiring]
      exact List.subset_cons_self _ _
    obtain ⟨tried, -, hpay⟩ := Wallet.migrateFrom_eq_ok hbuilt
    exact hadded built.tx _ (Invocation.builds_of_payWithChange hlive hpay) htx
  | build _ r built hbuilt =>
    rw [Payout.record, Invocation.withActiveUtxos_eq] at htx
    exact hadded built.tx _ (Invocation.builds_of_payWithChange hactive hbuilt) htx
  | @promote hash _ =>
    rcases Payout.promote_cases i hash s with ⟨hperm, hpending, -⟩ | ⟨due, hperm, hpending, -⟩
    · refine hold ?_
      rcases List.mem_append.mp htx with hmem | hmem
      · exact List.mem_append_left _ (hperm.mem_iff.mp hmem)
      · rw [hpending] at hmem
        exact List.mem_append_right _ hmem
    · refine hold ?_
      rcases List.mem_append.mp htx with hmem | hmem
      · exact List.mem_append_left _ (hperm.mem_iff.mp (List.mem_cons_of_mem _ hmem))
      · rw [hpending] at hmem
        rcases List.mem_cons.mp ((SortedMap.values_insert_subperm s.pending hash due).subset hmem)
          with rfl | hmem
        · exact List.mem_append_left _ (hperm.mem_iff.mp List.mem_cons_self)
        · exact List.mem_append_right _ hmem
  | sign _ hlive =>
    rcases List.mem_append.mp htx with hmem | hmem
    · exact hold (List.mem_append_left _ hmem)
    · obtain ⟨kept, hkept, rfl | rfl⟩ := PendingSignatures.mem_values_of_submit hmem
      · exact hold (List.mem_append_right _ hkept)
      · exact .inl ⟨kept, List.mem_append_right _ hkept, Transaction.SignedFrom.unsigned.signed _ _⟩
  | _ => exact hold htx

/-- What is on its way spends something. -/
theorem Run.spends_ne_nil {finish : State} {calls : List Call} (h : Run .initial calls finish) :
    ∀ tx ∈ finish.inFlight, tx.spends ≠ [] := by
  refine h.preserves (P := fun s => ∀ tx ∈ s.inFlight, tx.spends ≠ []) ?_
    (fun _ htx => absurd htx List.not_mem_nil)
  intro c hc s t hmove hs tx htx
  rcases hmove.inFlight_cases htx with ⟨kept, hkept, hsigned⟩ | ⟨coins, outputs, hsome, -, rfl⟩
  · rw [hsigned.spends_eq]
    exact hs kept hkept
  · rw [Wallet.spends_unsigned]
    exact fun hnil => hsome (List.map_eq_nil_iff.mp hnil)

/-! ### What is lost -/

namespace State.Secured

variable {s t : State} {hash : HostTxHash} {kept due : Transaction} {o : OutPoint}

/-- An outpoint that is taken out of the only place where it is kept is gone. -/
theorem gone_of_count (hs : s.Secured) (hmem : o ∈ s.tracked)
    (hcount : t.tracked.count o < s.tracked.count o) (hprocessed : t.processed = s.processed) :
    t.Gone o := by
  have hone := List.nodup_iff_count_le_one.mp hs.distinct o
  refine ⟨hprocessed ▸ hs.recorded o hmem, List.count_eq_zero.mp ?_⟩
  omega

/-- What is being signed is kept. -/
theorem mem_tracked_of_pending (hfound : s.pending.get? hash = some kept) (ho : o ∈ kept.spends) :
    o ∈ s.tracked := by
  have hvalue : kept ∈ s.pending.values :=
    (SortedMap.values_perm_of_get? hfound).mem_iff.mpr List.mem_cons_self
  exact List.mem_append_right _ (State.mem_committed (List.mem_append_right _ hvalue) ho)

/-- Nothing is left of a transaction that is taken out. -/
theorem gone_of_erase (hs : s.Secured) (hfound : s.pending.get? hash = some kept)
    (ho : o ∈ kept.spends) : ({ s with pending := s.pending.erase hash } : State).Gone o := by
  refine hs.gone_of_count (mem_tracked_of_pending hfound ho) ?_ rfl
  have hpending := Transaction.count_spentBy_le
    (SortedMap.values_perm_of_get? hfound).symm.subperm o
  have hspent : 0 < kept.spends.count o := List.count_pos_iff.mpr ho
  rw [Transaction.count_spentBy_cons] at hpending
  rw [State.count_tracked, State.count_tracked]
  simp only
  omega

/-- **Nothing is left of a transaction in whose place another one is filed**, one that waited. -/
theorem gone_of_file (hs : s.Secured) (hfound : s.pending.get? hash = some kept)
    (ho : o ∈ kept.spends)
    (hwaiting : (due :: WaitingList.transactions t.waiting).Perm
      (WaitingList.transactions s.waiting))
    (hpending : t.pending = s.pending.insert hash due) (hholdings : t.holdings = s.holdings)
    (hprocessed : t.processed = s.processed) : t.Gone o := by
  refine hs.gone_of_count (mem_tracked_of_pending hfound ho) ?_ hprocessed
  -- under the name stands what waited, in the place of what was there
  have hbefore := Transaction.count_spentBy_le
    (SortedMap.values_perm_of_get? hfound).symm.subperm o
  have hafter := Transaction.count_spentBy_le
    (SortedMap.values_insert_perm s.pending hash due).subperm o
  have hmoved := Transaction.count_spentBy_le hwaiting.subperm o
  have hspent : 0 < kept.spends.count o := List.count_pos_iff.mpr ho
  rw [Transaction.count_spentBy_cons] at hbefore hafter hmoved
  rw [State.count_tracked, State.count_tracked, hpending, hholdings]
  omega

end State.Secured

/-- Passing on does not touch the records. -/
theorem Payout.processed_promote (i : Invocation) (hash : HostTxHash) (s : State) :
    (promote i hash s).processed = s.processed := by
  unfold promote
  split
  · rfl
  · rfl

namespace Call

variable {c : Call} {t : State} {tx : Transaction} {o : OutPoint}

/-- The call takes the transaction away, because it is complete or because another one is filed in
its place. -/
def Ends (c : Call) (tx : Transaction) : Prop := c.Completes tx ∨ c.Replaces tx

/-- What a call takes away was kept before it. -/
theorem Ends.mem_tracked (h : c.Ends tx) (ho : o ∈ tx.spends) : o ∈ c.before.state.tracked := by
  rcases h with ⟨key, signatures, hash, kept, -, -, hfound, hsigned⟩ |
    ⟨hash, kept, other, -, hfound, hsigned, -, -⟩
  · rw [← hsigned.spends_eq] at ho
    exact State.Secured.mem_tracked_of_pending hfound ho
  · rw [← hsigned.spends_eq] at ho
    exact State.Secured.mem_tracked_of_pending hfound ho

/-- Nothing is left of a transaction that is complete. -/
theorem Completes.gone (h : c.Completes tx) (hs : c.before.state.Secured) (hleaves : c.Leaves t)
    (ho : o ∈ tx.spends) : t.Gone o := by
  obtain ⟨key, signatures, hash, kept, hop, hfully, hfound, hsigned⟩ := h
  have ht : t = c.after.state := by
    cases hleaves with
    | kept => rfl
    | discarded e hfailed =>
      rw [hfully] at hfailed
      cases hfailed
  have hanswer : c.answer = .ok (.signing (Payout.addSignatures c.invocation key signatures hash
      c.before.state).1) := by
    rw [answer, hop]
    rfl
  have hafter : c.after.state =
      (Payout.addSignatures c.invocation key signatures hash c.before.state).2 := by
    rw [after, hop]
    rfl
  rw [hfully] at hanswer
  rcases Payout.addSignatures_cases c.invocation key signatures hash c.before.state with
    ⟨-, hsubmit⟩ | ⟨-, hrefused⟩
  · rw [hsubmit] at hanswer hafter
    have herased := PendingSignatures.submit_of_fullySigned (Answer.signing.inj
      (Except.ok.inj hanswer)).symm
    rw [← hsigned.spends_eq] at ho
    rw [ht, hafter, herased]
    exact hs.gone_of_erase hfound ho
  · rw [hrefused] at hanswer
    cases hanswer

/-- Nothing is left of a transaction in whose place another one is filed. -/
theorem Replaces.gone (h : c.Replaces tx) (hs : c.before.state.Secured) (hleaves : c.Leaves t)
    (ho : o ∈ tx.spends) : t.Gone o := by
  obtain ⟨hash, kept, other, hop, hfound, hsigned, hnew, hother⟩ := h
  have hafter := after_of_update hop
  have hqueued := (Payout.queued_grows c.invocation c.before).pending
  rw [← hsigned.spends_eq] at ho
  rcases Payout.update_cases c.invocation hash c.before with ⟨e, -, hstate⟩ | ⟨hok, hstate⟩
  · -- a failing update files nothing
    rw [hafter, hstate, hqueued, hfound] at hnew
    exact absurd (Option.some.inj hnew).symm hother
  have ht : t = c.after.state := by
    cases hleaves with
    | kept => rfl
    | discarded e hfailed =>
      rw [answer, hop] at hfailed
      simp [Operation.run, Operation.finished, hok, Except.map] at hfailed
  have hsecured := hs.moves (show (Operation.update hash).IsNumbered from trivial)
    (Payout.queued_moves c.invocation hash c.before)
  rw [← hqueued] at hfound
  rcases Payout.promote_cases c.invocation hash (Payout.queued c.invocation c.before).2.state with
    ⟨-, hpending, -⟩ | ⟨due, hwaiting, hpending, hholdings⟩
  · rw [hafter, hstate, hpending, hfound] at hnew
    exact absurd (Option.some.inj hnew).symm hother
  · rw [ht, hafter, hstate]
    exact hsecured.gone_of_file hfound ho hwaiting hpending hholdings
      (Payout.processed_promote _ _ _)

/-- **What a call takes away is gone** after it. -/
theorem Ends.gone (h : c.Ends tx) (hs : c.before.state.Secured) (hleaves : c.Leaves t)
    (ho : o ∈ tx.spends) : t.Gone o := by
  rcases h with h | h
  · exact h.gone hs hleaves ho
  · exact h.gone hs hleaves ho

end Call

namespace Run

variable {start finish : State} {front back later : List Call} {d e : Call} {tx : Transaction}
  {o : OutPoint}

/-- What is gone stays gone in a run. -/
theorem gone (h : Run start later finish) (hs : start.Gone o) : finish.Gone o :=
  h.preserves (P := fun s => s.Gone o) (fun _ _ _ _ hmove hs => hs.move hmove) hs

/-- What a call of a run takes away is gone at its end. -/
theorem gone_of_ends (h : Run start (front ++ d :: back) finish) (hs : start.Secured)
    (hnumbered : ∀ c ∈ front ++ d :: back, c.operation.IsNumbered) (hends : d.Ends tx)
    (ho : o ∈ tx.spends) : finish.Gone o := by
  obtain ⟨hfront, t, hleaves, hback⟩ := h.exists_of_append
  have hbefore : d.before.state.Secured :=
    hfront.preserves (fun c hc _ _ hmove hs => hs.move
      (hnumbered c (List.mem_append_left _ hc)) hmove) hs
  exact hback.gone (hends.gone hbefore hleaves ho)

/-- A transaction that a call has taken away is not taken away again. -/
theorem not_ends_of_ends (h : Run start (front ++ d :: back) finish) (hs : start.Secured)
    (hnumbered : ∀ c ∈ front ++ d :: back, c.operation.IsNumbered) (hends : d.Ends tx)
    (ho : o ∈ tx.spends) (he : e ∈ back) : ¬ e.Ends tx := by
  intro hagain
  obtain ⟨between, rest, rfl⟩ := List.append_of_mem he
  have hlist : front ++ d :: (between ++ e :: rest) = (front ++ d :: between) ++ e :: rest := by
    simp
  rw [hlist] at h hnumbered
  obtain ⟨hfirst, -⟩ := h.exists_of_append
  have hgone := hfirst.gone_of_ends hs
    (fun c hc => hnumbered c (List.mem_append_left _ hc)) hends ho
  exact hgone.2 (hagain.mem_tracked ho)

/-- **What becomes of a transaction that a call has made wait.** At every later point it is on its
way, or it has been completed, unless some update has filed another one in its place. An update that
does so loses it for good: it is not on its way any more, it is never completed, and the outputs that
it spends are neither listed nor spent by anything else. (Outputs are assumed to be numbered.) -/
theorem carried_or_completed {earlier : List Call} {c : Call}
    (h : Run .initial earlier c.before.state) (hlater : Run c.after.state later finish)
    (htx : tx ∈ c.waited) :
    ((∀ d ∈ later, ¬ d.Replaces tx) → finish.Carries tx ∨ ∃ d ∈ later, d.Completes tx) ∧
      ((∀ d ∈ earlier ++ c :: later, d.operation.IsNumbered) → ∀ d ∈ later, d.Replaces tx →
        ¬ finish.Carries tx ∧ (∀ e ∈ later, ¬ e.Completes tx) ∧
          ∀ o ∈ tx.spends, o ∉ finish.tracked) := by
  have hcarried := Call.carries_of_waited htx
  have hafter : Run .initial (earlier ++ [c]) c.after.state :=
    h.append (.cons rfl .kept (.nil _))
  constructor
  · intro hnever
    rcases hlater.carries_or hcarried with hkept | hcompleted | ⟨d, hd, hreplaced⟩
    · exact .inl hkept
    · exact .inr hcompleted
    · exact absurd hreplaced (hnever d hd)
  intro hnumbered d hd hreplaced
  rw [List.append_cons] at hnumbered
  have hsecured := hafter.secured fun d hd => hnumbered d (List.mem_append_left _ hd)
  have hnumbered : ∀ d ∈ later, d.operation.IsNumbered := fun d hd =>
    hnumbered d (List.mem_append_right _ hd)
  obtain ⟨o, ho⟩ : ∃ o, o ∈ tx.spends := by
    obtain ⟨kept, hkept, hsigned⟩ := hcarried.exists_inFlight
    rw [← hsigned.spends_eq]
    exact List.exists_mem_of_ne_nil _ (hafter.spends_ne_nil kept hkept)
  obtain ⟨front, back, rfl⟩ := List.append_of_mem hd
  have hgone : ∀ o ∈ tx.spends, o ∉ finish.tracked := fun o ho =>
    (hlater.gone_of_ends hsecured hnumbered (.inr hreplaced) ho).2
  refine ⟨fun hkept => ?_, fun e he hcompleted => ?_, hgone⟩
  · exact hgone o ho (hkept.mem_tracked ho)
  · rcases List.mem_append.mp he with he | he
    · obtain ⟨front, between, rfl⟩ := List.append_of_mem he
      rw [List.append_assoc, List.cons_append] at hlater hnumbered
      exact hlater.not_ends_of_ends hsecured hnumbered (.inl hcompleted) ho
        (List.mem_append_right _ List.mem_cons_self) (.inr hreplaced)
    · rcases List.mem_cons.mp he with rfl | he
      · obtain ⟨key, signatures, hash, kept, hop, -⟩ := hcompleted
        obtain ⟨hash', kept', other, hop', -⟩ := hreplaced
        rw [hop] at hop'
        cases hop'
      · exact hlater.not_ends_of_ends hsecured hnumbered (.inr hreplaced) ho he (.inl hcompleted)

end Run

/-! ### Two updates of one name -/

namespace Example

/-- Another payment of a hundredth of a bitcoin to the federation, by the same holder. -/
def laterDeposit : Transaction :=
  { deposit with
    inputs :=
      [⟨⟨⟨.replicate 32 4⟩, 0⟩, Script.push [0x30] ++ Script.push key.bytes, 0xFFFFFFFF, []⟩] }

/-- The digest of the payment. -/
def laterDepositDigest : FixedBytes 32 :=
  .ofNat 32 0xa4a31d941cf1c384d57e54904186ce550291b1fcd0e308ebe818647e050418df

/-- An operation in a host block, with the two payments in the first two blocks of the chain. -/
def depositsCall (block : UInt64) (op : Operation) (s : State) : Call where
  invocation :=
    { constants := constants
      chain := { chain with
        headerAt := fun height =>
          if height = 0 then some (headerWith depositDigest)
          else some (headerWith laterDepositDigest) }
      block := ⟨block, 0⟩ }
  operation := op
  before := ⟨s, .empty, []⟩

/-- The state before the call. -/
theorem state_before_depositsCall (block : UInt64) (op : Operation) (s : State) :
    (depositsCall block op s).before.state = s := rfl

/-- The first payment is registered; its sender is not listed, so it is sent back. -/
def firstRefund : Call := depositsCall 5 registerDeposit .initial

/-- So is the second one. -/
def secondRefund : Call :=
  depositsCall 5 (.register laterDeposit.encodePlain 1
    ([1, 0, 0, 0, 1] ++ laterDepositDigest.toList ++ [1, 1])) firstRefund.after.state

/-- The update that passes on the first transaction. -/
def firstUpdate : Call :=
  depositsCall 8 (.update ⟨.replicate 32 9⟩) secondRefund.after.state

/-- Another update of the same name, which passes on the second transaction. -/
def secondUpdate : Call :=
  depositsCall 8 (.update ⟨.replicate 32 9⟩) firstUpdate.after.state

/-- The calls after the first one. -/
theorem run_secondUpdate :
    Run firstRefund.after.state [secondRefund, firstUpdate, secondUpdate]
      secondUpdate.after.state :=
  .cons (state_before_depositsCall _ _ _) .kept
    (.cons (state_before_depositsCall _ _ _) .kept
      (.cons (state_before_depositsCall _ _ _) .kept (.nil _)))

/-- The first transaction is filed under the name, and then another one is. -/
theorem exists_replaced : ∃ tx ∈ firstRefund.waited,
    firstUpdate.after.state.pending.get? ⟨.replicate 32 9⟩ = some tx ∧
      ∃ other, secondUpdate.after.state.pending.get? ⟨.replicate 32 9⟩ = some other ∧
        other ≠ tx := by
  have hfiled : firstRefund.waited.head?.isSome ∧
      firstUpdate.after.state.pending.get? ⟨.replicate 32 9⟩ = firstRefund.waited.head? ∧
      (secondUpdate.after.state.pending.get? ⟨.replicate 32 9⟩).isSome ∧
      secondUpdate.after.state.pending.get? ⟨.replicate 32 9⟩ ≠ firstRefund.waited.head? := by
    set_option maxRecDepth 100000 in
    decide +kernel
  obtain ⟨hwaited, hfirst, hsecond, hother⟩ := hfiled
  obtain ⟨tx, hwaited⟩ := Option.isSome_iff_exists.mp hwaited
  obtain ⟨other, hsecond⟩ := Option.isSome_iff_exists.mp hsecond
  rw [hwaited] at hfirst hother
  refine ⟨tx, List.mem_of_mem_head? hwaited, hfirst, other, hsecond, ?_⟩
  rintro rfl
  exact hother hsecond

end Example

namespace Run

open Example

/-- Two payments are sent back. The two updates that pass on the transactions have one name, and so
the first transaction is lost. -/
theorem carried_or_completed_replaced : ∃ tx,
    (tx ∈ firstRefund.waited ∧ secondUpdate.Replaces tx ∧
        ∀ c ∈ [firstRefund, secondRefund, firstUpdate, secondUpdate],
          c.operation.IsNumbered) ∧
      ¬ secondUpdate.after.state.Carries tx ∧
        (∀ e ∈ [secondRefund, firstUpdate, secondUpdate], ¬ e.Completes tx) ∧
          ∀ o ∈ tx.spends, o ∉ secondUpdate.after.state.tracked := by
  obtain ⟨tx, hwaited, hfound, other, hnew, hother⟩ := exists_replaced
  have hbefore : secondUpdate.before.state = firstUpdate.after.state := by
    rw [secondUpdate, state_before_depositsCall]
  rw [← hbefore] at hfound
  have hreplaces : secondUpdate.Replaces tx :=
    ⟨⟨.replicate 32 9⟩, tx, other, rfl, hfound, .unsigned, hnew, hother⟩
  have hnumbered : ∀ c ∈ [] ++ firstRefund :: [secondRefund, firstUpdate, secondUpdate],
      c.operation.IsNumbered := by
    simp only [List.nil_append, List.forall_mem_cons, List.not_mem_nil, false_implies,
      implies_true, and_true]
    exact ⟨Operation.isNumbered_of_length_le (by decide +kernel),
      Operation.isNumbered_of_length_le (by decide +kernel), trivial, trivial⟩
  have hnothing : Run .initial [] firstRefund.before.state := by
    rw [firstRefund, state_before_depositsCall]
    exact .nil _
  have hlost := (carried_or_completed hnothing run_secondUpdate hwaited).2 hnumbered secondUpdate
    (by simp) hreplaces
  exact ⟨tx, ⟨hwaited, hreplaces, hnumbered⟩, hlost⟩

end Run

end TwoWayPeg
