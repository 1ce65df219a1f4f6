import TwoWayPeg.Proofs.Peg.Pipeline
import TwoWayPeg.Proofs.Release.Growth

/-!
# The order in which transactions are passed on

Registrations and updates put transactions behind those that wait already, and each entry keeps the
block in which it came. An update that does not fail passes on the first entry that has waited long
enough. In general this need not be the first entry of all, as an earlier one may be of a later
block. When block numbers do not decrease it is: the entries are in the order of their blocks, and
the list is a queue.

* `WaitingList.Grows`: what is added goes to the end, and each name waits once.
* `Call.grows_queue`, `Call.queue_cases`: what one call adds, and what it passes on.
* `Timely`: the order of the blocks, which calls keep when block numbers do not decrease.
* `Run.Traffic`: what comes in and what is passed on in a run.
* `Run.Traffic.in_order`: first in, first out.
* `Run.passed_in_order`: what a run passes on, when, and in which order.
-/

namespace TwoWayPeg

/-! ### Adding -/

namespace WaitingList

variable {l m n : WaitingList} {block : UInt64} {ready : WaitingTransaction → Bool}

/-- The names of the waiting transactions. -/
def names (l : WaitingList) : List Txid := l.map fun w => w.transaction.txid

/-- Transactions are added in a block: they go to the end, and no name comes to wait twice. -/
structure Grows (block : UInt64) (l m : WaitingList) : Prop where
  exists_append : ∃ added, m = l ++ added ∧ ∀ w ∈ added, w.block = block
  nodup : l.names.Nodup → m.names.Nodup

namespace Grows

/-- Nothing is added. -/
theorem refl (block : UInt64) (l : WaitingList) : Grows block l l :=
  ⟨⟨[], (List.append_nil l).symm, fun _ h => absurd h List.not_mem_nil⟩, id⟩

/-- More is added. -/
theorem trans (hlm : Grows block l m) (hmn : Grows block m n) : Grows block l n := by
  obtain ⟨added, rfl, hadded⟩ := hlm.exists_append
  obtain ⟨more, rfl, hmore⟩ := hmn.exists_append
  refine ⟨⟨added ++ more, List.append_assoc l added more, ?_⟩, fun h => hmn.nodup (hlm.nodup h)⟩
  exact List.forall_mem_append.mpr ⟨hadded, hmore⟩

/-- One transaction is added. -/
theorem of_add (l : WaitingList) (tx : Transaction) (block : UInt64) :
    Grows block l (add l tx block) := by
  rcases add_cases l tx block with ⟨-, hsame⟩ | ⟨hnew, hadded⟩
  · rw [hsame]
    exact .refl block l
  · rw [hadded]
    refine ⟨⟨_, rfl, fun w hw => by rw [List.mem_singleton.mp hw]⟩, fun hnodup => ?_⟩
    rw [names, List.map_append, List.map_singleton, List.nodup_append_comm]
    refine List.nodup_cons.mpr ⟨fun hmem => hnew ?_, hnodup⟩
    obtain ⟨w, hw, hname⟩ := List.mem_map.mp hmem
    exact ⟨w, hw, hname⟩

/-- What is new is of the block. -/
theorem block_eq (h : Grows block l m) {w : WaitingTransaction} (hw : w ∈ m) (hnew : w ∉ l) :
    w.block = block := by
  obtain ⟨added, rfl, hadded⟩ := h.exists_append
  exact hadded w ((List.mem_append.mp hw).resolve_left hnew)

/-- Where names wait once, what is new is what stands behind the old entries. -/
theorem append_filter (h : Grows block l m) (hnodup : m.names.Nodup) :
    m = l ++ m.filter (· ∉ l) := by
  obtain ⟨added, rfl, -⟩ := h.exists_append
  have hdisjoint := List.disjoint_of_nodup_append hnodup.of_map
  have hold : l.filter (· ∉ l) = [] :=
    List.filter_eq_nil_iff.mpr fun w hw hkept => of_decide_eq_true hkept hw
  have hnew : added.filter (· ∉ l) = added :=
    List.filter_eq_self.mpr fun w hw => decide_eq_true fun hmem => hdisjoint hmem hw
  rw [List.filter_append, hold, hnew, List.nil_append]

end Grows

section

variable {front back : WaitingList} {w : WaitingTransaction} {keep : WaitingTransaction → Bool}

/-- One entry only is kept. -/
theorem filter_eq_singleton (hw : keep w = true) (hothers : ∀ v ∈ front ++ back, keep v = false) :
    (front ++ w :: back).filter keep = [w] := by
  have hnone : ∀ l ⊆ front ++ back, l.filter keep = [] := fun l hl =>
    List.filter_eq_nil_iff.mpr fun v hv => Bool.not_eq_true _ ▸ hothers v (hl hv)
  rw [List.filter_append, List.filter_cons_of_pos hw, hnone front (List.subset_append_left _ _),
    hnone back (List.subset_append_right _ _), List.nil_append]

/-- All entries but one are kept. -/
theorem filter_eq_append (hw : keep w = false) (hothers : ∀ v ∈ front ++ back, keep v = true) :
    (front ++ w :: back).filter keep = front ++ back := by
  have hall : ∀ l ⊆ front ++ back, l.filter keep = l := fun l hl =>
    List.filter_eq_self.mpr fun v hv => hothers v (hl hv)
  rw [List.filter_append, List.filter_cons_of_neg (Bool.not_eq_true _ ▸ hw),
    hall front (List.subset_append_left _ _), hall back (List.subset_append_right _ _)]

end

end WaitingList

/-- All moves but those of updates only add to what waits. -/
theorem Operation.Move.grows_waiting {i : Invocation} {op : Operation} {s t : State}
    (h : op.Move i s t) (hupdate : ∀ hash, op ≠ .update hash) :
    WaitingList.Grows i.block.number s.waiting t.waiting := by
  cases h with
  | refund _ m destination built hmined hbuilt => exact .of_add _ _ _
  | migrate _ retiring built hretiring hbuilt => exact absurd rfl (hupdate _)
  | build _ r built hbuilt => exact absurd rfl (hupdate _)
  | promote _ => exact absurd rfl (hupdate _)
  | _ => exact .refl _ _

/-- Any number of such moves only add to what waits. -/
theorem Operation.Moves.grows_waiting {i : Invocation} {op : Operation} {s t : State}
    (h : op.Moves i s t) (hupdate : ∀ hash, op ≠ .update hash) :
    WaitingList.Grows i.block.number s.waiting t.waiting := by
  induction h with
  | refl => exact .refl _ _
  | tail _ hlast ih => exact ih.trans (hlast.grows_waiting hupdate)

/-- All moves but those of updates leave what is being signed, or they bring signatures. -/
theorem Operation.Move.pending_cases {i : Invocation} {op : Operation} {s t : State}
    (h : op.Move i s t) (hupdate : ∀ hash, op ≠ .update hash) {hash : HostTxHash}
    {tx : Transaction} (hfound : t.pending.get? hash = some tx) :
    ∃ kept, s.pending.get? hash = some kept ∧ kept.SignedFrom tx := by
  cases h with
  | promote _ => exact absurd rfl (hupdate _)
  | @sign key signatures hash' _ hlive =>
    by_cases hhash : hash = hash'
    · subst hhash
      obtain ⟨kept, hkept, rfl⟩ := PendingSignatures.exists_of_get?_submit hfound
      exact ⟨kept, hkept, .signed .unsigned key signatures⟩
    · rw [PendingSignatures.get?_submit_ne hhash] at hfound
      exact ⟨tx, hfound, .unsigned⟩
  | build _ r built hbuilt => exact absurd rfl (hupdate _)
  | _ => exact ⟨tx, hfound, .unsigned⟩

/-- Any number of such moves leave what is being signed, or they bring signatures. -/
theorem Operation.Moves.pending_cases {i : Invocation} {op : Operation} {s t : State}
    (h : op.Moves i s t) (hupdate : ∀ hash, op ≠ .update hash) {hash : HostTxHash}
    {tx : Transaction} (hfound : t.pending.get? hash = some tx) :
    ∃ kept, s.pending.get? hash = some kept ∧ kept.SignedFrom tx := by
  induction h generalizing tx with
  | refl => exact ⟨tx, hfound, .unsigned⟩
  | tail _ hlast ih =>
    obtain ⟨signed, hsigned, htx⟩ := hlast.pending_cases hupdate hfound
    obtain ⟨kept, hkept, hfrom⟩ := ih hsigned
    exact ⟨kept, hkept, hfrom.trans htx⟩

/-- **Before an update passes one on** it only adds to what waits. -/
theorem Payout.grows_queued (i : Invocation) (w : World) :
    WaitingList.Grows i.block.number w.state.waiting (queued i w).2.state.waiting := by
  refine queued_induct
    (R := fun s t => WaitingList.Grows i.block.number s.waiting t.waiting)
    (fun _ => .refl _ _) (fun hst htu => hst.trans htu) (fun hmoved => ?_) (fun _ => .refl _ _)
    (fun tx s => ?_) (fun _ _ => .refl _ _) w
  · simp only [Migration.move] at hmoved
    split at hmoved
    · cases hmoved
    · cases hmoved
      exact .of_add _ _ _
  · rw [record, Invocation.withActiveUtxos_eq]
    exact .of_add _ _ _

/-! ### One call -/

namespace Call

variable {c : Call} {hash : HostTxHash} {w : WaitingTransaction}

/-- What waits when the call has added all that it adds, and an update has passed nothing on yet. -/
def queue (c : Call) : WaitingList :=
  match c.operation with
  | .update _ => (Payout.queued c.invocation c.before).2.state.waiting
  | _ => c.after.state.waiting

/-- What has come in with the call. -/
def entered (c : Call) : WaitingList := c.queue.filter (· ∉ c.before.state.waiting)

/-- What the call has taken out of the queue. -/
def passed (c : Call) : WaitingList := c.queue.filter (· ∉ c.after.state.waiting)

/-- The entry has waited long enough. -/
def isReady (c : Call) (w : WaitingTransaction) : Bool :=
  w.isDue c.invocation.number c.invocation.constants.hostConfirmations

/-- The queue of an update. -/
theorem queue_of_update (hop : c.operation = .update hash) :
    c.queue = (Payout.queued c.invocation c.before).2.state.waiting := by
  rw [queue, hop]

/-- The queue of any other operation. -/
theorem queue_of_ne (hop : ∀ hash, c.operation ≠ .update hash) :
    c.queue = c.after.state.waiting := by
  unfold queue
  split
  · next hash hupdate => exact absurd hupdate (hop hash)
  · rfl

/-- **A call adds** to what waits, in its own block. -/
theorem grows_queue (c : Call) :
    WaitingList.Grows c.invocation.block.number c.before.state.waiting c.queue := by
  by_cases hupdate : ∃ hash, c.operation = .update hash
  · obtain ⟨hash, hop⟩ := hupdate
    rw [queue_of_update hop]
    exact Payout.grows_queued c.invocation c.before
  · rw [queue_of_ne (not_exists.mp hupdate)]
    exact c.moves.grows_waiting (not_exists.mp hupdate)

/-- An update of the name takes the entry out of the queue, the first one that is ready, and files
its transaction under the name. -/
structure PassesOn (c : Call) (hash : HostTxHash) (w : WaitingTransaction) : Prop where
  operation : c.operation = .update hash
  ready : c.isReady w = true
  taken : ∃ front back, c.queue = front ++ w :: back ∧ (∀ v ∈ front, c.isReady v = false) ∧
    c.after.state.waiting = front ++ back
  filed : c.after.state.pending = c.before.state.pending.insert hash w.transaction

/-- The call leaves its queue as it is and brings nothing new to be signed. An update that succeeds
does so only if nothing is ready. -/
structure LeavesQueue (c : Call) : Prop where
  waiting : c.after.state.waiting = c.queue
  signed : ∀ hash tx, c.after.state.pending.get? hash = some tx →
    ∃ kept, c.before.state.pending.get? hash = some kept ∧ kept.SignedFrom tx
  unready : ∀ hash a, c.operation = .update hash → c.answer = .ok a →
    ∀ w ∈ c.queue, c.isReady w = false

/-- Where the last part of an update does nothing, the queue is left. -/
theorem leavesQueue_of_update (hop : c.operation = .update hash)
    (hafter : c.after.state = (Payout.queued c.invocation c.before).2.state)
    (hunready : ∀ a, c.answer = .ok a → ∀ w ∈ c.queue, c.isReady w = false) :
    c.LeavesQueue := by
  refine ⟨?_, fun hash tx hfound => ?_, fun _ a _ hok => hunready a hok⟩
  · rw [hafter, queue_of_update hop]
  · rw [hafter, (Payout.queued_grows c.invocation c.before).pending] at hfound
    exact ⟨tx, hfound, .unsigned⟩

/-- **What a call does with its queue**: it passes an entry on, or it leaves the queue. -/
theorem queue_cases (c : Call) : (∃ hash w, c.PassesOn hash w) ∨ c.LeavesQueue := by
  by_cases hupdate : ∃ hash, c.operation = .update hash
  case neg =>
    have hother := not_exists.mp hupdate
    exact .inr ⟨(queue_of_ne hother).symm, fun hash tx => c.moves.pending_cases hother,
      fun hash _ hop => absurd hop (hother hash)⟩
  obtain ⟨hash, hop⟩ := hupdate
  have hafter := after_of_update hop
  have hqueue := queue_of_update hop
  rcases Payout.update_cases c.invocation hash c.before with ⟨e, hfailed, hstate⟩ | ⟨-, hstate⟩
  · -- an update that fails passes nothing on, whatever is ready
    refine .inr (leavesQueue_of_update hop (by rw [hafter, hstate]) fun a hok => ?_)
    rw [answer, hop] at hok
    simp [Operation.run, Operation.finished, hfailed, Except.map] at hok
  rw [hstate] at hafter
  rcases Payout.promote_eq_cases c.invocation hash (Payout.queued c.invocation c.before).2.state
    with ⟨hnone, heq⟩ | ⟨front, w, back, hwaiting, hfront, hready, heq⟩
  · rw [heq] at hafter
    exact .inr (leavesQueue_of_update hop hafter fun _ _ => hqueue ▸ hnone)
  · rw [heq] at hafter
    refine .inl ⟨hash, w, hop, hready, ⟨front, back, hqueue.trans hwaiting, hfront, ?_⟩, ?_⟩
    · rw [hafter]
    · rw [hafter, ← (Payout.queued_grows c.invocation c.before).pending]

/-- Where names wait once, what comes in stands behind what waits. -/
theorem queue_eq (c : Call) (hnodup : c.before.state.waiting.names.Nodup) :
    c.queue = c.before.state.waiting ++ c.entered :=
  c.grows_queue.append_filter (c.grows_queue.nodup hnodup)

/-- What comes in is of the block of the call. -/
theorem block_of_entered (h : w ∈ c.entered) : w.block = c.invocation.block.number := by
  obtain ⟨hmem, hnew⟩ := List.mem_filter.mp h
  exact c.grows_queue.block_eq hmem (of_decide_eq_true hnew)

/-- An entry that is passed on is the only one. -/
theorem PassesOn.passed_eq (h : c.PassesOn hash w) (hnodup : c.queue.names.Nodup) :
    c.passed = [w] := by
  obtain ⟨front, back, hqueue, -, hafter⟩ := h.taken
  rw [hqueue] at hnodup
  have hw := (List.nodup_cons.mp (List.nodup_middle.mp hnodup.of_map)).1
  rw [passed, hqueue, hafter]
  refine WaitingList.filter_eq_singleton (decide_eq_true hw) fun v hv => ?_
  exact decide_eq_false (not_not_intro hv)

/-- All other entries wait on. -/
theorem PassesOn.left_eq (h : c.PassesOn hash w) (hnodup : c.queue.names.Nodup) :
    c.after.state.waiting = c.queue.filter (· ∉ c.passed) := by
  rw [h.passed_eq hnodup]
  obtain ⟨front, back, hqueue, -, hafter⟩ := h.taken
  rw [hqueue] at hnodup
  have hw := (List.nodup_cons.mp (List.nodup_middle.mp hnodup.of_map)).1
  rw [hqueue, hafter]
  refine (WaitingList.filter_eq_append ?_ fun v hv => ?_).symm
  · exact decide_eq_false (not_not_intro (List.mem_singleton.mpr rfl))
  · exact decide_eq_true fun hmem => hw (List.mem_singleton.mp hmem ▸ hv)

/-- An entry that is passed on was in the queue. -/
theorem PassesOn.mem_queue (h : c.PassesOn hash w) : w ∈ c.queue := by
  obtain ⟨front, back, hqueue, -, -⟩ := h.taken
  rw [hqueue]
  exact List.mem_append_right _ List.mem_cons_self

/-- Under other names nothing changes when an entry is passed on. -/
theorem PassesOn.filed_or (h : c.PassesOn hash w) {hash' : HostTxHash} {tx : Transaction}
    (hfound : c.after.state.pending.get? hash' = some tx) :
    c.before.state.pending.get? hash' = some tx ∨ hash' = hash ∧ w.transaction = tx := by
  rw [h.filed] at hfound
  by_cases hhash : hash' = hash
  · rw [hhash, SortedMap.get?_insert_self] at hfound
    exact .inr ⟨hhash, Option.some.inj hfound⟩
  · rw [SortedMap.get?_insert_ne _ _ hhash] at hfound
    exact .inl hfound

/-- Where the queue is left, nothing is passed on. -/
theorem LeavesQueue.passed_eq (h : c.LeavesQueue) : c.passed = [] := by
  rw [passed, h.waiting]
  exact List.filter_eq_nil_iff.mpr fun v hv hgone => of_decide_eq_true hgone hv

/-- What is left in the queue waits on. -/
theorem sublist_queue (c : Call) : c.after.state.waiting.Sublist c.queue := by
  rcases c.queue_cases with ⟨hash, w, h⟩ | h
  · obtain ⟨front, back, hqueue, -, hafter⟩ := h.taken
    rw [hqueue, hafter]
    exact (List.Sublist.refl front).append (List.sublist_cons_self w back)
  · rw [h.waiting]

/-- Names go on waiting once. -/
theorem nodup_names (c : Call) (h : c.before.state.waiting.names.Nodup) :
    c.after.state.waiting.names.Nodup :=
  (c.grows_queue.nodup h).sublist (c.sublist_queue.map _)

/-- What waits after a call has waited before it or has come in. -/
theorem mem_or_entered (h : w ∈ c.queue) : w ∈ c.before.state.waiting ∨ w ∈ c.entered := by
  by_cases hold : w ∈ c.before.state.waiting
  · exact .inl hold
  · exact .inr (List.mem_filter.mpr ⟨h, decide_eq_true hold⟩)

end Call

/-! ### In the order of the blocks -/

/-- The waiting transactions are in the order of their blocks, and none is of a later block than the
one with the number. -/
structure Timely (l : WaitingList) (number : Nat) : Prop where
  sorted : l.Pairwise fun v w => v.block.toNat ≤ w.block.toNat
  before : ∀ w ∈ l, w.block.toNat ≤ number

namespace Timely

variable {l m : WaitingList} {number : Nat} {block : UInt64}

/-- Nothing waits. -/
theorem nil (number : Nat) : Timely [] number :=
  ⟨.nil, fun _ h => absurd h List.not_mem_nil⟩

/-- What is left is in order. -/
theorem sublist (h : Timely m number) (hsub : l.Sublist m) : Timely l number :=
  ⟨h.sorted.sublist hsub, fun w hw => h.before w (hsub.subset hw)⟩

/-- What is added in no earlier block comes last. -/
theorem grows (h : Timely l number) (hgrows : WaitingList.Grows block l m)
    (hnumber : number ≤ block.toNat) : Timely m block.toNat := by
  obtain ⟨added, rfl, hadded⟩ := hgrows.exists_append
  have hold : ∀ w ∈ l, w.block.toNat ≤ block.toNat := fun w hw =>
    Nat.le_trans (h.before w hw) hnumber
  have hnew : ∀ w ∈ added, w.block.toNat = block.toNat := fun w hw => by rw [hadded w hw]
  refine ⟨List.pairwise_append.mpr ⟨h.sorted, ?_, fun v hv w hw => ?_⟩, fun w hw => ?_⟩
  · exact List.pairwise_of_forall_mem_list fun v hv w hw =>
      Nat.le_of_eq ((hnew v hv).trans (hnew w hw).symm)
  · rw [hnew w hw]
    exact hold v hv
  · rcases List.mem_append.mp hw with hw | hw
    · exact hold w hw
    · exact Nat.le_of_eq (hnew w hw)

/-- The first entry that is due is the first of all. -/
theorem eq_nil_of_due {front back : WaitingList} {w : WaitingTransaction} {confirmations now : Nat}
    (h : Timely (front ++ w :: back) number) (hw : w.isDue now confirmations = true)
    (hfront : ∀ v ∈ front, v.isDue now confirmations = false) : front = [] := by
  rcases front with - | ⟨v, front⟩
  · rfl
  · have hle : v.block.toNat ≤ w.block.toNat :=
      (List.pairwise_cons.mp h.sorted).1 w (List.mem_append_right _ List.mem_cons_self)
    have hv := hfront v List.mem_cons_self
    simp only [WaitingTransaction.isDue, decide_eq_true_eq, decide_eq_false_iff_not] at hw hv
    omega

end Timely

/-- **A call takes from the front** of what waits and adds behind it, if it is in no earlier block
than what waits. -/
theorem Call.in_order {c : Call} {number : Nat} (hnodup : c.before.state.waiting.names.Nodup)
    (h : Timely c.before.state.waiting number) (hnumber : number ≤ c.invocation.number) :
    c.before.state.waiting ++ c.entered = c.passed ++ c.after.state.waiting := by
  have hqueue := h.grows c.grows_queue hnumber
  rw [← c.queue_eq hnodup]
  rcases c.queue_cases with ⟨hash, w, hpasses⟩ | hleaves
  · rw [hpasses.passed_eq (c.grows_queue.nodup hnodup)]
    obtain ⟨front, back, heq, hfront, hafter⟩ := hpasses.taken
    rw [heq] at hqueue
    obtain rfl := hqueue.eq_nil_of_due hpasses.ready hfront
    rw [heq, hafter]
    rfl
  · rw [hleaves.passed_eq, hleaves.waiting]
    rfl

/-! ### Runs -/

namespace Run

/-- What comes in and what is passed on in a run, in order. A call whose state is given up counts for
nothing. -/
inductive Traffic : State → List Call → WaitingList → WaitingList → State → Prop
  | nil (s : State) : Traffic s [] [] [] s
  | kept {s finish : State} {c : Call} {calls : List Call} {entered passed : WaitingList}
    (hbefore : c.before.state = s) (hrest : Traffic c.after.state calls entered passed finish) :
    Traffic s (c :: calls) (c.entered ++ entered) (c.passed ++ passed) finish
  | discarded {s finish : State} {c : Call} {calls : List Call} {entered passed : WaitingList}
    (e : PegError) (hbefore : c.before.state = s) (hfailed : c.answer = .error e)
    (hrest : Traffic s calls entered passed finish) :
    Traffic s (c :: calls) entered passed finish

variable {start finish : State} {calls earlier : List Call} {entered passed : WaitingList}
  {w : WaitingTransaction}

/-- Every run has its traffic. -/
theorem exists_traffic (h : Run start calls finish) :
    ∃ entered passed, Traffic start calls entered passed finish := by
  induction h with
  | nil s => exact ⟨[], [], .nil s⟩
  | cons hbefore hleaves hrest ih =>
    obtain ⟨entered, passed, htraffic⟩ := ih
    cases hleaves with
    | kept => exact ⟨_, _, .kept hbefore htraffic⟩
    | discarded e hfailed =>
      rw [hbefore] at htraffic
      exact ⟨entered, passed, .discarded e hbefore hfailed htraffic⟩

/-- **First in, first out**: when block numbers do not decrease, what waits and what comes in is
passed on in its order, and the rest of it waits. -/
theorem Traffic.in_order {number : Nat} (h : Traffic start calls entered passed finish)
    (hnodup : start.waiting.names.Nodup) (hstart : Timely start.waiting number)
    (hnumber : ∀ c ∈ calls, number ≤ c.invocation.number)
    (hcalls : calls.Pairwise fun c d => c.invocation.number ≤ d.invocation.number) :
    start.waiting ++ entered = passed ++ finish.waiting := by
  induction h generalizing number with
  | nil s => exact List.append_nil _
  | @kept s finish c calls entered passed hbefore hrest ih =>
    subst hbefore
    have hfirst := hnumber c List.mem_cons_self
    obtain ⟨hlater, hcalls⟩ := List.pairwise_cons.mp hcalls
    have hafter := (hstart.grows c.grows_queue hfirst).sublist c.sublist_queue
    rw [← List.append_assoc, Call.in_order hnodup hstart hfirst, List.append_assoc,
      ih (c.nodup_names hnodup) hafter hlater hcalls, List.append_assoc]
  | discarded e hbefore hfailed hrest ih =>
    exact ih hnodup hstart (fun c hc => hnumber c (List.mem_cons_of_mem _ hc))
      (List.pairwise_cons.mp hcalls).2

/-- In a run names go on waiting once. -/
theorem nodup_names (h : Run start calls finish) (hstart : start.waiting.names.Nodup) :
    finish.waiting.names.Nodup := by
  induction h with
  | nil s => exact hstart
  | @cons s t finish c calls hbefore hleaves hrest ih =>
    rw [← hbefore] at hstart
    cases hleaves with
    | kept => exact ih (c.nodup_names hstart)
    | discarded e hfailed => exact ih hstart

/-- What waits after a run has waited before it or has come in with one of its calls. -/
theorem mem_or_entered (h : Run start calls finish) (hw : w ∈ finish.waiting) :
    w ∈ start.waiting ∨ ∃ d ∈ calls, w ∈ d.entered := by
  induction h with
  | nil s => exact .inl hw
  | @cons s t finish c calls hbefore hleaves hrest ih =>
    subst hbefore
    rcases ih hw with hold | ⟨d, hd, hentered⟩
    · cases hleaves with
      | discarded e hfailed => exact .inl hold
      | kept =>
        refine (Call.mem_or_entered (c.sublist_queue.subset hold)).imp_right fun hentered => ?_
        exact ⟨c, List.mem_cons_self, hentered⟩
    · exact .inr ⟨d, List.mem_cons_of_mem _ hd, hentered⟩

end Run

/-- What a call that comes after some others does with the waiting transactions. -/
structure Call.KeepsOrder (earlier : List Call) (c : Call) : Prop where
  /-- What waits stays as it is, and what comes in stands behind it. -/
  behind : c.queue = c.before.state.waiting ++ c.entered
  /-- No name waits twice. -/
  distinct : c.queue.names.Nodup
  /-- What is not passed on waits on, in its order. -/
  left : c.after.state.waiting = c.queue.filter (· ∉ c.passed)
  /-- One entry at most is passed on. -/
  one : c.passed.length ≤ 1
  /-- What is passed on is filed by an update under its name, and it is old enough: it has come in
  with this call or an earlier one, in the block that it is dated with. -/
  old_enough : ∀ w ∈ c.passed,
    (∃ hash, c.operation = .update hash ∧
      c.after.state.pending = c.before.state.pending.insert hash w.transaction) ∧
    ∃ d ∈ earlier ++ [c], w ∈ d.entered ∧ w.block = d.invocation.block.number ∧
      d.invocation.number + c.invocation.constants.hostConfirmations ≤ c.invocation.number
  /-- Whatever is being signed was being signed before, or it has been passed on by an update of
  the name under which it is. -/
  signed : ∀ hash tx, c.after.state.pending.get? hash = some tx →
    (∃ kept, c.before.state.pending.get? hash = some kept ∧ kept.SignedFrom tx) ∨
      c.operation = .update hash ∧ ∃ w ∈ c.passed, w.transaction = tx
  /-- An update that succeeds passes an entry on if one is old enough. -/
  prompt : ∀ hash a, c.operation = .update hash → c.answer = .ok a →
    (∃ w ∈ c.queue, c.isReady w = true) → c.passed ≠ []

namespace Run

variable {finish : State} {calls earlier : List Call}

/-- What is in the queue of a call has come in with it or with an earlier one. -/
theorem exists_entered {c : Call} {w : WaitingTransaction}
    (h : Run .initial earlier c.before.state) (hw : w ∈ c.queue) :
    ∃ d ∈ earlier ++ [c], w ∈ d.entered := by
  rcases Call.mem_or_entered hw with hold | hentered
  · obtain ⟨d, hd, hentered⟩ := (h.mem_or_entered hold).resolve_left List.not_mem_nil
    exact ⟨d, List.mem_append_left _ hd, hentered⟩
  · exact ⟨c, List.mem_append_right _ (List.mem_singleton.mpr rfl), hentered⟩

/-- **Every call of a run keeps the order.** -/
theorem keepsOrder {c : Call} (h : Run .initial earlier c.before.state) :
    c.KeepsOrder earlier := by
  have hbefore := h.nodup_names .nil
  have hnodup := c.grows_queue.nodup hbefore
  rcases c.queue_cases with ⟨hash, w, hpasses⟩ | hleaves
  · have hpassed := hpasses.passed_eq hnodup
    refine ⟨c.queue_eq hbefore, hnodup, hpasses.left_eq hnodup, ?_, ?_, ?_, ?_⟩
    · rw [hpassed]
      exact Nat.le_refl 1
    · rw [hpassed, List.forall_mem_singleton]
      obtain ⟨d, hd, hentered⟩ := h.exists_entered hpasses.mem_queue
      have hblock := Call.block_of_entered hentered
      refine ⟨⟨hash, hpasses.operation, hpasses.filed⟩, d, hd, hentered, hblock, ?_⟩
      rw [Invocation.number, ← hblock]
      exact of_decide_eq_true hpasses.ready
    · intro hash' tx hfound
      rw [hpassed]
      rcases hpasses.filed_or hfound with hold | ⟨rfl, htx⟩
      · exact .inl ⟨tx, hold, .unsigned⟩
      · exact .inr ⟨hpasses.operation, w, List.mem_singleton.mpr rfl, htx⟩
    · intro hash' a hop hok hready
      rw [hpassed]
      exact List.cons_ne_nil _ _
  · have hpassed := hleaves.passed_eq
    refine ⟨c.queue_eq hbefore, hnodup, ?_, ?_, ?_, fun hash tx hfound => ?_, ?_⟩
    · rw [hpassed, hleaves.waiting]
      exact (List.filter_eq_self.mpr fun w _ => decide_eq_true List.not_mem_nil).symm
    · rw [hpassed]
      exact Nat.zero_le 1
    · rw [hpassed]
      exact fun w hw => absurd hw List.not_mem_nil
    · exact .inl (hleaves.signed hash tx hfound)
    · rintro hash a hop hok ⟨w, hw, hready⟩
      rw [hleaves.unready hash a hop hok w hw] at hready
      cases hready

/-- **What a run passes on, when, and in which order.** Every call keeps the order: what waits stays
as it is and what comes in stands behind it; an update passes on one entry at most, not before it is
old enough, and one that succeeds does if there is such an entry. If block numbers do not decrease,
then what has come in is passed on in the order in which it came, and the rest of it waits. What
waits already is not added again. -/
theorem passed_in_order (h : Run .initial calls finish) :
    (∀ earlier c later, calls = earlier ++ c :: later → c.KeepsOrder earlier) ∧
      (∃ entered passed, Traffic .initial calls entered passed finish) ∧
      ((calls.Pairwise fun c d => c.invocation.number ≤ d.invocation.number) →
        ∀ entered passed, Traffic .initial calls entered passed finish →
          entered = passed ++ finish.waiting) ∧
      ∀ (l : WaitingList) tx block, (∃ w ∈ l, w.transaction.txid = tx.txid) →
        WaitingList.add l tx block = l := by
  refine ⟨?_, h.exists_traffic, fun hcalls entered passed htraffic => ?_,
    fun l tx block hwaiting => WaitingList.add_of_waiting block hwaiting⟩
  · rintro earlier c later rfl
    exact keepsOrder h.exists_of_append.1
  · exact htraffic.in_order .nil (.nil 0) (fun _ _ => Nat.zero_le _) hcalls

end Run

namespace Example

/-- An update three blocks after a payment has been sent back, which is as long as it has to wait. -/
def timelyUpdate : Call := depositsCall 8 (.update ⟨.replicate 32 9⟩) firstRefund.after.state

/-- The payment is sent back, and the update follows. -/
theorem run_timelyUpdate : Run .initial [firstRefund, timelyUpdate] timelyUpdate.after.state :=
  .cons (state_before_depositsCall _ _ _) .kept
    (.cons (state_before_depositsCall _ _ _) .kept (.nil _))

/-- What comes in and is passed on in it. -/
theorem traffic_timelyUpdate : Run.Traffic .initial [firstRefund, timelyUpdate]
    (firstRefund.entered ++ (timelyUpdate.entered ++ []))
    (firstRefund.passed ++ (timelyUpdate.passed ++ [])) timelyUpdate.after.state :=
  .kept (state_before_depositsCall _ _ _) (.kept (state_before_depositsCall _ _ _) (.nil _))

end Example

namespace Run

open Example

/-- A payment is sent back and the transaction is passed on by the update three blocks later. -/
theorem passed_in_order_refund :
    (Run .initial [firstRefund, timelyUpdate] timelyUpdate.after.state ∧
      [firstRefund, timelyUpdate].Pairwise fun c d => c.invocation.number ≤ d.invocation.number) ∧
      firstRefund.entered.length = 1 ∧ timelyUpdate.passed = firstRefund.entered := by
  have hcalls : [firstRefund, timelyUpdate].Pairwise
      fun c d => c.invocation.number ≤ d.invocation.number := by decide
  have horder := (passed_in_order run_timelyUpdate).2.2.1 hcalls _ _ traffic_timelyUpdate
  have hvalues : firstRefund.entered.length = 1 ∧ firstRefund.passed = [] ∧
      timelyUpdate.entered = [] ∧ timelyUpdate.after.state.waiting = [] := by
    set_option maxRecDepth 100000 in
    decide +kernel
  obtain ⟨hentered, hkept, hnone, hempty⟩ := hvalues
  rw [hkept, hnone, hempty] at horder
  refine ⟨⟨run_timelyUpdate, hcalls⟩, hentered, ?_⟩
  simpa using horder.symm

end Run

end TwoWayPeg
