import TwoWayPeg.Peg.Registration
import TwoWayPeg.Proofs.Bitcoin.Reading

/-!
# What a registration has found and done

A submission that is found genuine has passed all checks, and a genuine transaction is settled in
one of four ways. Everything later theorems need to know of a registration is said here once.

* `Registration.Genuine`: what the examination has checked, by `Registration.genuine_of_examine`.
* `Registration.Settled`: the four ways of settling, by `Registration.settle_cases`; a settlement
  that fails changes nothing.
* `Registration.Genuine.txid_eq`: the name that is recorded is the name of the transaction that was
  parsed, although the one is taken from the bytes and the other from what they spell.
-/

namespace TwoWayPeg.Registration

/-! ### Examination -/

/-- What is announced is what is read behind the version. -/
theorem exists_of_declaredInputCount {raw : Bytes} {n : Nat} (h : declaredInputCount raw = .ok n) :
    ∃ tail, CompactSize.read (raw.drop 4) = some (n, tail) := by
  unfold declaredInputCount at h
  split at h
  · cases h
  · split at h
    · next m tail hread =>
      cases h
      exact ⟨tail, hread⟩
    · cases h

/-- Bytes that are taken as a sound transaction announce inputs and spell the transaction. -/
theorem soundTransaction_eq_ok {raw : Bytes} {tx : Transaction}
    (h : soundTransaction raw = .ok tx) :
    (∃ n tail, CompactSize.read (raw.drop 4) = some (n, tail) ∧ n ≠ 0) ∧
      Transaction.decode? raw = some tx ∧ tx.checkStructure = .ok () := by
  unfold soundTransaction at h
  split at h
  · cases h
  · cases h
  · next n hzero hcount =>
    split at h
    · cases h
    · next tx' hdecode =>
      split at h
      · cases h
      · next hstructure =>
        cases h
        obtain ⟨tail, hread⟩ := exists_of_declaredInputCount hcount
        exact ⟨⟨n, tail, hread, hzero⟩, hdecode, hstructure⟩

/-- What the examination of a submission has checked when it finds a genuine transaction. -/
structure Genuine (i : Invocation) (s : State) (raw : Bytes) (height : Int) (proof : Bytes)
    (m : MinedTransaction) : Prop where
  /-- The bytes have not been registered before. -/
  unprocessed : s.processed.contains (rawTxid raw) = false
  height_nonneg : 0 ≤ height
  /-- The block is buried deeply enough. -/
  confirmed : height.toNat + i.constants.btcConfirmations ≤ i.chain.bestHeight + 1
  /-- The proof leads from the bytes to the root in the header at the height. -/
  proved : ∃ header, i.chain.headerAt height.toNat = some header ∧
    provedRoot (rawTxid raw) proof = .ok header.merkleRoot
  sound : soundTransaction raw = .ok m.tx
  txid_eq_raw : m.txid = rawTxid raw
  height_eq : m.height = UInt32.ofNat height.toNat

/-- A genuine finding has passed all checks. -/
theorem genuine_of_examine {i : Invocation} {s : State} {raw proof : Bytes} {height : Int}
    {m : MinedTransaction} (h : examine i s raw height proof = .ok (.genuine m)) :
    Genuine i s raw height proof m := by
  unfold examine at h
  split at h
  · cases h
  · next hunprocessed =>
    split at h
    · cases h
    · next hheight =>
      simp only [examineAt] at h
      split at h
      · cases h
      · next hconfirmed =>
        split at h
        · cases h
        · next root hroot =>
          split at h
          · cases h
          · next header hheader =>
            split at h
            · cases h
            · next hmatch =>
              cases hsound : soundTransaction raw with
              | error e => rw [hsound] at h; cases h
              | ok tx =>
                rw [hsound] at h
                cases h
                rw [ne_eq, Decidable.not_not] at hmatch
                exact ⟨by simpa using hunprocessed, Int.not_lt.mp hheight,
                  Nat.not_lt.mp hconfirmed, ⟨header, hheader, by rw [hmatch, hroot]⟩, hsound, rfl,
                  rfl⟩

namespace Genuine

variable {i : Invocation} {s : State} {raw proof : Bytes} {height : Int} {m : MinedTransaction}

/-- The bytes are the plain form of the transaction. -/
theorem plain (h : Genuine i s raw height proof m) : raw = m.tx.encodePlain := by
  obtain ⟨⟨n, tail, hcount, hn⟩, hdecode, -⟩ := soundTransaction_eq_ok h.sound
  exact (Transaction.plain_of_decode? hdecode hcount hn).1

/-- **The name proved is the name of the transaction parsed.** -/
theorem txid_eq (h : Genuine i s raw height proof m) : m.tx.txid = m.txid := by
  rw [h.txid_eq_raw, rawTxid, Transaction.txid, h.plain]

/-- A genuine transaction has not been registered under its name. -/
theorem fresh (h : Genuine i s raw height proof m) : s.processed.contains m.txid = false := by
  rw [h.txid_eq_raw]
  exact h.unprocessed

end Genuine

/-! ### Settlement -/

/-- The key of the sender of a deposit, if one can be read. -/
def sender? (tx : Transaction) : Option PublicKey :=
  (senderBytes? tx).bind PublicKey.ofBytes?

/-- The world in which a deposit has been credited but not recorded yet. -/
def credited (m : MinedTransaction) (sender : PublicKey) (total : Nat) (ledger : Ledger)
    (w : World) : World :=
  let state := { w.state with whitelist := w.state.whitelist.charge sender.hash total }
  { w with state, ledger }.notify
    (.pegIn "pegin_credited" m.txid.text total (some (HostAddress.ofKey sender).text) true)

/-- How a genuine transaction is settled, and the world that it leaves. -/
inductive Settled (i : Invocation) (m : MinedTransaction) (w : World) : World → Prop
  /-- Nothing is changed, and perhaps an alert is raised. -/
  | untouched (after : World) (hstate : after.state = w.state) (hledger : after.ledger = w.ledger) :
    Settled i m w after
  /-- A deposit is credited to its sender, who is charged on the whitelist. -/
  | credited (sender : PublicKey) (ledger : Ledger)
    (hkind : m.tx.classify (i.active w.state) (i.retiring w.state) i.constants.minimumLock.sats =
      .pegIn)
    (hsender : sender? m.tx = some sender)
    (hlisted : w.state.whitelist.permits sender.hash (m.tx.valueSentToAll (i.live w.state))
      m.height.toNat = true)
    (htransfer : Ledger.transfer w.ledger .bridge (.ofKey sender)
      (Amount.toWei (m.tx.valueSentToAll (i.live w.state))) = .ok ledger) :
    Settled i m w (keep i m
      (credited m sender (m.tx.valueSentToAll (i.live w.state)) ledger w))
  /-- A transaction of the federations is recorded. -/
  | kept
    (hkind : m.tx.classify (i.active w.state) (i.retiring w.state) i.constants.minimumLock.sats =
        .pegOut ∨
      m.tx.classify (i.active w.state) (i.retiring w.state) i.constants.minimumLock.sats =
        .migration) :
    Settled i m w (keep i m w)
  /-- A deposit of an unlisted sender is recorded and sent back. -/
  | refused (sender : PublicKey)
    (hkind : m.tx.classify (i.active w.state) (i.retiring w.state) i.constants.minimumLock.sats =
      .pegIn)
    (hsender : sender? m.tx = some sender)
    (hlisted : w.state.whitelist.permits sender.hash (m.tx.valueSentToAll (i.live w.state))
      m.height.toNat = false) :
    Settled i m w
      { refund i m sender (m.tx.valueSentToAll (i.live w.state)) w with
        state := markProcessed i m
          (refund i m sender (m.tx.valueSentToAll (i.live w.state)) w).state }

/-- Whoever tells no sender makes no deposit: the transaction is left alone or recorded. -/
theorem Settled.untouched_or_kept {i : Invocation} {m : MinedTransaction} {w after : World}
    (h : Settled i m w after) (hsender : sender? m.tx = none) :
    (after.state = w.state ∧ after.ledger = w.ledger) ∨
      ((m.tx.classify (i.active w.state) (i.retiring w.state) i.constants.minimumLock.sats =
          .pegOut ∨
        m.tx.classify (i.active w.state) (i.retiring w.state) i.constants.minimumLock.sats =
          .migration) ∧ after = keep i m w) := by
  cases h with
  | untouched _ hstate hledger => exact .inl ⟨hstate, hledger⟩
  | credited sender ledger hkind hfound hlisted htransfer =>
    rw [hsender] at hfound
    cases hfound
  | refused sender hkind hfound hlisted =>
    rw [hsender] at hfound
    cases hfound
  | kept hkind => exact .inr ⟨hkind, rfl⟩

/-- A credit moves the balance of the peg to the sender and charges the whitelist, or it fails and
changes nothing. -/
theorem credit_cases (m : MinedTransaction) (sender : PublicKey) (total : Nat) (w : World) :
    (∃ e, credit m sender total w = (.error e, w)) ∨
      ∃ ledger,
        Ledger.transfer w.ledger .bridge (.ofKey sender) (Amount.toWei total) = .ok ledger ∧
        credit m sender total w = (.ok (), credited m sender total ledger w) := by
  unfold credit
  simp only
  split
  · next e htransfer => exact .inl ⟨_, rfl⟩
  · next ledger htransfer => exact .inr ⟨ledger, htransfer, rfl⟩

/-- A deposit is left alone, credited or sent back, or it fails and changes nothing. -/
theorem settleDeposit_cases {i : Invocation} {m : MinedTransaction} {w : World}
    (hkind : m.tx.classify (i.active w.state) (i.retiring w.state) i.constants.minimumLock.sats =
      .pegIn) :
    (∃ e, settleDeposit i m w = (.error e, w)) ∨
      ∃ after, settleDeposit i m w = (.ok (), after) ∧ Settled i m w after := by
  unfold settleDeposit
  split
  · exact .inr ⟨w, rfl, .untouched w rfl rfl⟩
  · next bytes hbytes =>
    split
    · exact .inl ⟨_, rfl⟩
    · next sender hkey =>
      have hsender : sender? m.tx = some sender := by
        rw [sender?, hbytes]
        exact hkey
      simp only
      split
      · next hlisted =>
        rcases credit_cases m sender (m.tx.valueSentToAll (i.live w.state)) w with
          ⟨e, hfailed⟩ | ⟨ledger, htransfer, hpaid⟩
        · rw [hfailed]
          exact .inl ⟨e, rfl⟩
        · rw [hpaid]
          exact .inr ⟨_, rfl, .credited sender ledger hkind hsender hlisted htransfer⟩
      · next hlisted =>
        exact .inr ⟨_, rfl, .refused sender hkind hsender (by simpa using hlisted)⟩

/-- **A genuine transaction is settled in one of four ways**, or it fails and changes nothing. -/
theorem settle_cases (i : Invocation) (m : MinedTransaction) (w : World) :
    (∃ e, settle i m w = (.error e, w)) ∨
      ∃ after, settle i m w = (.ok (), after) ∧ Settled i m w after := by
  unfold settle
  split
  · next hkind => exact settleDeposit_cases hkind
  · next hkind => exact .inr ⟨_, rfl, .kept (.inl hkind)⟩
  · next hkind => exact .inr ⟨_, rfl, .kept (.inr hkind)⟩
  · exact .inr ⟨_, rfl, .untouched _ rfl rfl⟩

/-- What a registration leaves: either state and ledger are as before, or a genuine transaction has
been settled. -/
theorem register_cases (i : Invocation) (raw : Bytes) (height : Int) (proof : Bytes) (w : World) :
    ((register i raw height proof w).2.state = w.state ∧
        (register i raw height proof w).2.ledger = w.ledger) ∨
      ∃ m, examine i w.state raw height proof = .ok (.genuine m) ∧
        Settled i m w (register i raw height proof w).2 := by
  unfold register
  split
  · exact .inl ⟨rfl, rfl⟩
  · exact .inl ⟨rfl, rfl⟩
  · exact .inl ⟨rfl, rfl⟩
  · next m hexamine =>
    rcases settle_cases i m w with ⟨e, hfailed⟩ | ⟨after, hdone, hsettled⟩
    · rw [hfailed]
      exact .inl ⟨rfl, rfl⟩
    · rw [hdone]
      exact .inr ⟨m, hexamine, hsettled⟩

/-- A registration that fails leaves everything as it was. -/
theorem eq_of_register_error {i : Invocation} {raw proof : Bytes} {height : Int} {w : World}
    {e : PegError} (h : (register i raw height proof w).1 = .error e) :
    (register i raw height proof w).2 = w := by
  unfold register at h ⊢
  split at h
  · rfl
  · cases h
  · cases h
  · next m hexamine =>
    rcases settle_cases i m w with ⟨e', hfailed⟩ | ⟨after, hdone, -⟩
    · rw [hfailed]
    · rw [hdone] at h
      cases h

end TwoWayPeg.Registration
