import Mathlib.Algebra.GroupWithZero.Nat
import TwoWayPeg.Proofs.Peg.Run
import TwoWayPeg.Proofs.Release.Building
import TwoWayPeg.Proofs.Release.Pass
import TwoWayPeg.Proofs.Store.RoundTrip

/-!
# What a failed update has burned

An update builds a release for each request it looks at, and burns the difference where the change
had to be topped up. The first difference that cannot be burned ends the update with an error. The
state is then dropped, if it is kept in a store; but the balances are not there, and what has been
burned for the releases before stays burned although those releases have never been built. When the
update is repeated, it is burned again.

* `Payout.dues`: the amounts that an update has to burn, in order. They depend on the state only.
* `Payout.buildQueued_cases`: the building of releases burns them up to the first that cannot be
  burned.
* `Operation.failed_update_burned`: what an update that fails on a store leaves.
-/

namespace TwoWayPeg

/-! ### Burning -/

namespace Ledger

/-- A transfer takes an amount from one account, gives it to another and leaves all others alone. -/
theorem balance_of_transfer {l l' : Ledger} {a b : HostAddress} {n : Nat} (hne : a ≠ b)
    (h : transfer l a b n = .ok l') :
    l'.balance a + n = l.balance a ∧ l'.balance b = l.balance b + n ∧
      ∀ c, c ≠ a → c ≠ b → l'.balance c = l.balance c := by
  unfold transfer at h
  simp only [if_neg hne] at h
  split at h
  · cases h
  · next henough =>
    split at h
    · cases h
    · cases h
      refine ⟨?_, ?_, ?_⟩
      · rw [balance, SortedMap.get?_insert_ne _ _ hne, SortedMap.get?_insert_self, Option.getD_some]
        omega
      · rw [balance, SortedMap.get?_insert_self, Option.getD_some]
      · intro c hca hcb
        rw [balance, SortedMap.get?_insert_ne _ _ hcb, SortedMap.get?_insert_ne _ _ hca, balance]

/-- An amount in satoshis has gone from the balance of the peg to the account from which nothing
comes back, and no other balance has changed. -/
structure Burned (l l' : Ledger) (sats : Nat) : Prop where
  bridge : l'.balance .bridge + Amount.toWei sats = l.balance .bridge
  burn : l'.balance .burn = l.balance .burn + Amount.toWei sats
  others : ∀ a, a ≠ .bridge → a ≠ .burn → l'.balance a = l.balance a
  nothing : sats = 0 → l' = l

namespace Burned

variable {l l' l'' : Ledger} {m n : Nat}

/-- Nothing has been burned where nothing has happened. -/
theorem refl (l : Ledger) : Burned l l 0 := ⟨rfl, rfl, fun _ _ _ => rfl, fun _ => rfl⟩

/-- What is burned one after the other adds up. -/
theorem trans (h : Burned l l' m) (h' : Burned l' l'' n) : Burned l l'' (m + n) where
  bridge := by
    have hfirst := h.bridge
    have hsecond := h'.bridge
    simp only [Amount.toWei, Nat.mul_add] at *
    omega
  burn := by
    have hfirst := h.burn
    have hsecond := h'.burn
    simp only [Amount.toWei, Nat.mul_add] at *
    omega
  others a hbridge hburn := (h'.others a hbridge hburn).trans (h.others a hbridge hburn)
  nothing hnone := by
    rw [h'.nothing (by omega), h.nothing (by omega)]

/-- The balances are as before just where nothing has been burned. -/
theorem eq_iff (h : Burned l l' n) : l' = l ↔ n = 0 := by
  refine ⟨fun heq => ?_, h.nothing⟩
  have hbridge := h.bridge
  rw [heq, Amount.toWei, Amount.weiPerSat] at hbridge
  omega

end Burned

end Ledger

namespace Payout

open Ledger (Burned)

/-- An amount that is burned has been burned. -/
theorem burned_of_burn {sats : Nat} {l l' : Ledger} (h : burn sats l = .ok l') :
    Burned l l' sats := by
  unfold burn at h
  split at h
  · next hnone =>
    cases h
    rw [hnone]
    exact .refl l
  · next hsome =>
    obtain ⟨hbridge, hburn, hothers⟩ := Ledger.balance_of_transfer (by decide) h
    exact ⟨hbridge, hburn, hothers, fun hnone => absurd hnone hsome⟩

/-! ### What has to be burned -/

variable (i : Invocation)

/-- What a release is paid from. -/
def wallet (s : State) : Wallet :=
  Wallet.of (i.activeUtxos s) [i.active s] (i.active s).payScript (i.feePerKb s) i.constants

/-- What has to be burned for the requests that a number of rounds looks at, one amount for each
release that is built. -/
def duesOfRounds : Nat → ReleaseQueue → State → List Nat
  | 0, _, _ => []
  | _ + 1, [], _ => []
  | rounds + 1, r :: q, s =>
    match (wallet i s).pay r.destination r.amount with
    | .error _ => duesOfRounds rounds (q ++ [r]) s
    | .ok built => unbacked built r.amount.sats :: duesOfRounds rounds q (record i built.tx s)

/-- What has to be burned for all requests that are looked at. -/
def duesOfQueue (s : State) : List Nat :=
  duesOfRounds i (min i.constants.maxReleaseRounds s.requests.length) s.requests s

/-- What an update has to burn. -/
def dues (s : State) : List Nat := duesOfQueue i (Migration.advance i ⟨s, .empty, []⟩).state

variable {i}

/-- How the building of one release comes out: it is not built, it is built and what it owes is
burned, or what it owes cannot be burned. -/
theorem build_cases (r : ReleaseRequest) (w : World) :
    (∃ e after, (wallet i w.state).pay r.destination r.amount = .error e ∧
        build i r w = (.ok false, after) ∧ after.state = w.state ∧ after.ledger = w.ledger) ∨
      ∃ built, (wallet i w.state).pay r.destination r.amount = .ok built ∧
        ((∃ after, build i r w = (.ok true, after) ∧ after.state = record i built.tx w.state ∧
            burn (unbacked built r.amount.sats) w.ledger = .ok after.ledger) ∨
          ∃ e after, build i r w = (.error (.ledger e), after) ∧ after.ledger = w.ledger ∧
            burn (unbacked built r.amount.sats) w.ledger = .error e) := by
  unfold build
  simp only
  split
  · next e hpay => exact .inl ⟨e, _, hpay, rfl, rfl, rfl⟩
  · next built hpay =>
    refine .inr ⟨built, hpay, ?_⟩
    split
    · next e hburn => exact .inr ⟨e, _, rfl, rfl, hburn⟩
    · next ledger hburn => exact .inl ⟨_, rfl, rfl, hburn⟩

/-- Rounds burn what they owe, up to the first amount that cannot be burned. -/
theorem passRounds_cases (rounds released : Nat) (q : ReleaseQueue) (w : World) :
    (∃ n, (ReleaseQueue.passRounds (build i) rounds released q w).result = .ok n ∧
        Burned w.ledger (ReleaseQueue.passRounds (build i) rounds released q w).state.ledger
          (duesOfRounds i rounds q w.state).sum) ∨
      ∃ e paid due rest,
        (ReleaseQueue.passRounds (build i) rounds released q w).result = .error (.ledger e) ∧
        duesOfRounds i rounds q w.state = paid ++ due :: rest ∧
        Burned w.ledger (ReleaseQueue.passRounds (build i) rounds released q w).state.ledger
          paid.sum ∧
        burn due (ReleaseQueue.passRounds (build i) rounds released q w).state.ledger =
          .error e := by
  induction rounds generalizing released q w with
  | zero => exact .inl ⟨released, rfl, .refl w.ledger⟩
  | succ rounds ih =>
    cases q with
    | nil => exact .inl ⟨released, rfl, .refl w.ledger⟩
    | cons r q =>
      rcases build_cases r w with ⟨e, after, hpay, hbuild, hstate, hledger⟩ | ⟨built, hpay, hbuilt⟩
      · -- the request goes to the back, and state and balances are as before
        have hround := ReleaseQueue.passRounds_of_kept hbuild rounds released q
        have hdue : duesOfRounds i (rounds + 1) (r :: q) w.state =
            duesOfRounds i rounds (q ++ [r]) w.state := by
          rw [duesOfRounds, hpay]
        rw [hround, hdue, ← hstate, ← hledger]
        exact ih released (q ++ [r]) after
      have hdue : duesOfRounds i (rounds + 1) (r :: q) w.state =
          unbacked built r.amount.sats :: duesOfRounds i rounds q (record i built.tx w.state) := by
        rw [duesOfRounds, hpay]
      rcases hbuilt with ⟨after, hbuild, hstate, hburn⟩ | ⟨e, after, hbuild, hledger, hburn⟩
      · have hround := ReleaseQueue.passRounds_of_released hbuild rounds released q
        have hhere := burned_of_burn hburn
        rw [hround, hdue, ← hstate]
        rcases ih (released + 1) q after with
          ⟨n, hresult, hburned⟩ | ⟨e, paid, due, rest, hresult, hdues, hburned, hfailed⟩
        · refine .inl ⟨n, hresult, ?_⟩
          rw [List.sum_cons]
          exact hhere.trans hburned
        · refine .inr ⟨e, unbacked built r.amount.sats :: paid, due, rest, hresult, ?_, ?_, hfailed⟩
          · rw [hdues, List.cons_append]
          · rw [List.sum_cons]
            exact hhere.trans hburned
      · have hround := ReleaseQueue.passRounds_of_error hbuild rounds released q
        rw [hround, hdue]
        simp only [hledger]
        exact .inr ⟨e, [], _, _, rfl, rfl, .refl w.ledger, hburn⟩

/-- **The building of releases burns what they owe, up to the first amount that cannot be
burned.** -/
theorem buildQueued_cases (w : World) :
    (∃ n after, buildQueued i w = (.ok n, after) ∧
        Burned w.ledger after.ledger (duesOfQueue i w.state).sum) ∨
      ∃ e paid due rest after, buildQueued i w = (.error (.ledger e), after) ∧
        duesOfQueue i w.state = paid ++ due :: rest ∧ Burned w.ledger after.ledger paid.sum ∧
        burn due after.ledger = .error e := by
  rcases passRounds_cases (i := i) (min i.constants.maxReleaseRounds w.state.requests.length) 0
    w.state.requests w with
      ⟨n, hresult, hburned⟩ | ⟨e, paid, due, rest, hresult, hdues, hburned, hfailed⟩
  · exact .inl ⟨n, _, Prod.ext hresult rfl, hburned⟩
  · exact .inr ⟨e, paid, due, rest, _, Prod.ext hresult rfl, hdues, hburned, hfailed⟩

end Payout

namespace Migration

/-- Moving funds does not change balances. -/
theorem ledger_advance (i : Invocation) (w : World) : (advance i w).ledger = w.ledger := by
  unfold advance
  split
  · rfl
  · simp only
    split
    · simp only [finish, moveRest]
      split
      · split <;> rfl
      · rfl
    · split
      · simp only [moveWithinWindow]
        split
        · split <;> rfl
        · rfl
      · rfl

/-- Which funds are moved does not depend on balances or notices. -/
theorem state_advance (i : Invocation) (w : World) :
    (advance i w).state = (advance i ⟨w.state, .empty, []⟩).state := by
  unfold advance
  simp only
  split
  · rfl
  · split
    · simp only [finish, moveRest]
      split
      · split <;> rfl
      · rfl
    · split
      · simp only [moveWithinWindow]
        split
        · split <;> rfl
        · rfl
      · rfl

end Migration

namespace Payout

open Ledger (Burned)

variable {i : Invocation}

/-- **An update burns what it owes, up to the first amount that cannot be burned**, and then it
fails. -/
theorem update_burns (hash : HostTxHash) (w : World) :
    (∃ after, update i hash w = (.ok (), after) ∧
        Burned w.ledger after.ledger (dues i w.state).sum) ∨
      ∃ e paid due rest after, update i hash w = (.error (.ledger e), after) ∧
        dues i w.state = paid ++ due :: rest ∧ Burned w.ledger after.ledger paid.sum ∧
        burn due after.ledger = .error e := by
  rw [dues, ← Migration.state_advance, ← Migration.ledger_advance i w]
  rcases buildQueued_cases (Migration.advance i w) with
    ⟨n, after, hbuilt, hburned⟩ | ⟨e, paid, due, rest, after, hbuilt, hdues, hburned, hfailed⟩
  · refine .inl ⟨{ after with state := promote i hash after.state }, ?_, hburned⟩
    rw [update, hbuilt]
  · refine .inr ⟨e, paid, due, rest, after, ?_, hdues, hburned, hfailed⟩
    rw [update, hbuilt]

end Payout

namespace Operation

open Ledger (Burned)
open Payout (dues burn)

/-- What an update leaves that is run on a store. It fails because the state cannot be read, or it
burns what it owes, up to the first amount that cannot be burned. -/
theorem runStored_update_cases (i : Invocation) (hash : HostTxHash) (store : Store)
    (ledger : Ledger) :
    (∃ reason, store.load = .error reason ∧
        (update hash).runStored i store ledger = (.error (.storage reason), store, ledger, [])) ∨
      ∃ s, store.load = .ok s ∧
        ((∃ t ledger' notices,
            (update hash).runStored i store ledger = (.ok .done, store.save t, ledger', notices) ∧
            Burned ledger ledger' (dues i s).sum) ∨
          ∃ e paid due rest ledger' notices,
            (update hash).runStored i store ledger =
              (.error (.ledger e), store, ledger', notices) ∧
            dues i s = paid ++ due :: rest ∧ Burned ledger ledger' paid.sum ∧
            burn due ledger' = .error e) := by
  unfold runStored Store.transact
  cases hload : store.load with
  | error reason => exact .inl ⟨reason, rfl, rfl⟩
  | ok s =>
    refine .inr ⟨s, rfl, ?_⟩
    simp only [run, finished]
    rcases Payout.update_burns hash ⟨s, ledger, []⟩ with
      ⟨after, hupdate, hburned⟩ | ⟨e, paid, due, rest, after, hupdate, hdues, hburned, hfailed⟩
    · rw [hupdate]
      exact .inl ⟨after.state, after.ledger, after.notices, rfl, hburned⟩
    · rw [hupdate]
      exact .inr ⟨e, paid, due, rest, after.ledger, after.notices, rfl, hdues, hburned, hfailed⟩

/-- **An update that fails on a store rolls back the state, but not the balances.** The store is as
before. If the state could be read, some releases have burned what they owe and one could not: the
balances are as before only if nothing was owed by the releases before it. What they have burned is
not remembered, so an update that succeeds later and owes the same burns all of it once more. -/
theorem failed_update_burned {i : Invocation} {hash : HostTxHash} {store store' : Store}
    {ledger ledger' : Ledger} {e : PegError} {notices : List Notice}
    (h : (update hash).runStored i store ledger = (.error e, store', ledger', notices)) :
    store' = store ∧
      ((∃ reason, store.load = .error reason ∧ e = .storage reason ∧ ledger' = ledger) ∨
        ∃ s paid due rest reason, store.load = .ok s ∧ e = .ledger reason ∧
          dues i s = paid ++ due :: rest ∧ burn due ledger' = .error reason ∧
          Burned ledger ledger' paid.sum ∧ (ledger' = ledger ↔ paid.sum = 0) ∧
          ∀ i' hash' later answer store'' ledger'' notices', dues i' s = dues i s →
            (update hash').runStored i' store' later = (.ok answer, store'', ledger'', notices') →
            Burned later ledger'' (paid.sum + (due + rest.sum))) := by
  rcases runStored_update_cases i hash store ledger with
    ⟨reason, hload, hrun⟩ | ⟨s, hload, hdone | hfailed⟩
  · rw [hrun] at h
    cases h
    exact ⟨rfl, .inl ⟨reason, hload, rfl, rfl⟩⟩
  · obtain ⟨t, l, n, hrun, -⟩ := hdone
    rw [hrun] at h
    cases h
  · obtain ⟨reason, paid, due, rest, l, n, hrun, hdues, hburned, hdue⟩ := hfailed
    rw [hrun] at h
    cases h
    refine ⟨rfl, .inr ⟨s, paid, due, rest, reason, hload, rfl, hdues, hdue, hburned,
      hburned.eq_iff, ?_⟩⟩
    intro i' hash' later answer store'' ledger'' notices' hsame hlater
    rcases runStored_update_cases i' hash' store later with
      ⟨reason', hload', hrun'⟩ | ⟨s', hload', hdone' | hfailed'⟩
    · rw [hload] at hload'
      cases hload'
    · obtain ⟨t, l', n', hrun', hburned'⟩ := hdone'
      rw [hrun'] at hlater
      cases hlater
      rw [hload] at hload'
      cases hload'
      rw [hsame, hdues, List.sum_append, List.sum_cons] at hburned'
      exact hburned'
    · obtain ⟨reason', paid', due', rest', l', n', hrun', -⟩ := hfailed'
      rw [hrun'] at hlater
      cases hlater

end Operation

/-! ### Two releases and not enough to burn for both -/

namespace Example

/-- An output of the federation that is a little larger than a request. -/
def coinFrom (n : UInt8) : Utxo :=
  ⟨⟨.replicate 32 n⟩, 0, .clamp 1000100, 0, false, federation.payScript⟩

/-- A request for a hundredth of a bitcoin. -/
def hundredth : ReleaseRequest := ⟨Script.payToKeyHash ⟨.replicate 20 5⟩, .clamp 1000000⟩

/-- Two requests, and an output for each of them. -/
def twoRequests : State :=
  { State.initial with
    holdings := ⟨[coinFrom 1, coinFrom 2], []⟩
    requests := [hundredth, hundredth] }

/-- A host block. -/
def hostBlock : Invocation := ⟨constants, chain, ⟨1, 0⟩⟩

/-- A wallet of the federation. -/
def walletOf (coins : List Coin) : Wallet where
  coins
  changeScript := federation.payScript
  feePerKb := constants.genesisFeePerKb
  minimumOutput := constants.minimumOutput
  maxTransactionSize := constants.maxTransactionSize
  maxMigrationAttempts := constants.maxMigrationAttempts

/-- The wallet of some outputs. -/
theorem wallet_eq {s : State} {us : List Utxo} {coins : List Coin}
    (hcoins : Coin.ofUtxos us [federation] = coins) (hfederations : s.federations = .empty)
    (hfee : s.feePerKb = none) (hholdings : s.holdings = ⟨us, []⟩) :
    Payout.wallet hostBlock s = walletOf coins := by
  have hslot : hostBlock.activeSlot s = .genesis := by
    rw [Invocation.activeSlot, hfederations]
    rfl
  have hactive : hostBlock.active s = federation := by
    rw [Invocation.active, hfederations]
    rfl
  have hutxos : hostBlock.activeUtxos s = us := by
    rw [Invocation.activeUtxos, hslot, hholdings]
  rw [Payout.wallet, hactive, hutxos, Wallet.of, hcoins, Invocation.feePerKb, hfee]
  rfl

/-- The peg has what one of the two releases owes, and half of what the other one owes. -/
def scarce : Ledger := SortedMap.empty.insert .bridge (Amount.toWei 669)

/-- The first output is spent first, by a release with change that is topped up, so that only the
second output is left; its release owes as much; and what one of them owes can be burned. -/
theorem releases_twoRequests :
    Coin.notAfter ⟨coinFrom 1, federation⟩ ⟨coinFrom 2, federation⟩ = true ∧
      (((walletOf [⟨coinFrom 1, federation⟩, ⟨coinFrom 2, federation⟩]).pay
        hundredth.destination hundredth.amount).toOption.map fun built =>
          (Payout.unbacked built hundredth.amount.sats,
            Utxo.withoutSpent [coinFrom 1, coinFrom 2] built.tx)) = some (446, [coinFrom 2]) ∧
      (((walletOf [⟨coinFrom 2, federation⟩]).pay hundredth.destination
        hundredth.amount).toOption.map fun built =>
          Payout.unbacked built hundredth.amount.sats) = some 446 ∧
      (Payout.burn 446 scarce).toOption.isSome = true := by
  decide +kernel

/-- The coins of both outputs. -/
theorem coins_both : Coin.ofUtxos [coinFrom 1, coinFrom 2] [federation] =
    [⟨coinFrom 1, federation⟩, ⟨coinFrom 2, federation⟩] := by
  apply Coin.ofUtxos_of_ordered
  · intro u hu
    rcases List.mem_pair.mp hu with rfl | rfl <;> rfl
  · exact List.pairwise_pair.mpr releases_twoRequests.1

/-- The coin of a single output of the federation. -/
theorem coins_single {u : Utxo} (hscript : u.script = federation.payScript) :
    Coin.ofUtxos [u] [federation] = [⟨u, federation⟩] := by
  apply Coin.ofUtxos_of_ordered
  · exact List.forall_mem_singleton.mpr hscript
  · exact List.pairwise_singleton _ _

/-- A release from both outputs is built. -/
theorem pay_both : ∃ built,
    (walletOf [⟨coinFrom 1, federation⟩, ⟨coinFrom 2, federation⟩]).pay hundredth.destination
      hundredth.amount = .ok built ∧
    Payout.unbacked built hundredth.amount.sats = 446 ∧
    Utxo.withoutSpent [coinFrom 1, coinFrom 2] built.tx = [coinFrom 2] := by
  obtain ⟨built, hpay, hboth⟩ := exists_of_toOption_map releases_twoRequests.2.1
  obtain ⟨hdue, hleft⟩ := Prod.mk.inj hboth
  exact ⟨built, hpay, hdue, hleft⟩

/-- A release from the second output is built. -/
theorem pay_second : ∃ built,
    (walletOf [⟨coinFrom 2, federation⟩]).pay hundredth.destination hundredth.amount = .ok built ∧
    Payout.unbacked built hundredth.amount.sats = 446 :=
  exists_of_toOption_map releases_twoRequests.2.2.1

/-- Both releases are built, and each owes what its change was topped up by. -/
theorem dues_twoRequests : Payout.dues hostBlock twoRequests = [446, 446] := by
  obtain ⟨first, hfirst, hdue, hleft⟩ := pay_both
  obtain ⟨second, hsecond, hdue'⟩ := pay_second
  have hboth : Payout.wallet hostBlock twoRequests =
      walletOf [⟨coinFrom 1, federation⟩, ⟨coinFrom 2, federation⟩] :=
    wallet_eq coins_both rfl rfl rfl
  have hutxos : hostBlock.activeUtxos twoRequests = [coinFrom 1, coinFrom 2] := rfl
  have hrest : Payout.wallet hostBlock (Payout.record hostBlock first.tx twoRequests) =
      walletOf [⟨coinFrom 2, federation⟩] := by
    rw [Payout.record, hutxos, hleft, Invocation.withActiveUtxos_eq]
    exact wallet_eq (coins_single rfl) rfl rfl rfl
  have hadvance : (Migration.advance hostBlock ⟨twoRequests, .empty, []⟩).state = twoRequests := rfl
  rw [Payout.dues, hadvance, Payout.duesOfQueue]
  show Payout.duesOfRounds hostBlock 2 [hundredth, hundredth] twoRequests = [446, 446]
  simp only [Payout.duesOfRounds, hboth, hfirst, hdue, hrest, hsecond, hdue']

/-- The state can be saved and loaded. -/
theorem load_twoRequests : Store.load (Store.save .empty twoRequests) = .ok twoRequests := by
  have hrecordable : twoRequests.Recordable := ⟨nofun, nofun⟩
  rw [Store.load_save .empty hrecordable]
  rfl

/-- The update fails. -/
theorem runStored_twoRequests (hash : HostTxHash) : ∃ e ledger notices,
    (Operation.update hash).runStored hostBlock (Store.save .empty twoRequests) scarce =
      (.error e, Store.save .empty twoRequests, ledger, notices) := by
  rcases Operation.runStored_update_cases hostBlock hash (Store.save .empty twoRequests) scarce with
    ⟨reason, hload, hrun⟩ | ⟨s, hload, ⟨t, ledger, notices, hrun, hburned⟩ | hfailed⟩
  · exact ⟨_, _, _, hrun⟩
  · -- there is not enough to burn for both releases
    rw [load_twoRequests] at hload
    cases hload
    have hbridge := hburned.bridge
    rw [dues_twoRequests] at hbridge
    have hheld : scarce.balance .bridge = Amount.toWei 669 := by
      rw [scarce, Ledger.balance, SortedMap.get?_insert_self, Option.getD_some]
    rw [hheld] at hbridge
    simp only [Amount.toWei, Amount.weiPerSat, List.sum_cons, List.sum_nil] at hbridge
    omega
  · obtain ⟨reason, paid, due, rest, ledger, notices, hrun, -⟩ := hfailed
    exact ⟨_, _, _, hrun⟩

end Example

namespace Operation

open Example

/-- The update fails on the second release. The store is as before, but what the first release owes
has been burned. -/
theorem failed_update_burned_first : ∃ e ledger' notices,
    (update ⟨.replicate 32 0⟩).runStored hostBlock (Store.save .empty twoRequests) scarce =
      (.error e, Store.save .empty twoRequests, ledger', notices) ∧
    ledger' ≠ scarce ∧ ledger'.balance .burn = Amount.toWei 446 := by
  obtain ⟨e, ledger', notices, hrun⟩ := runStored_twoRequests ⟨.replicate 32 0⟩
  obtain ⟨-, ⟨reason, hload, -⟩ | ⟨s, paid, due, rest, reason, hload, -, hdues, hdue, hburned, hiff,
    -⟩⟩ := failed_update_burned hrun
  · rw [load_twoRequests] at hload
    cases hload
  rw [load_twoRequests] at hload
  cases hload
  rw [dues_twoRequests] at hdues
  have hpaid : paid = [446] := by
    rcases paid with _ | ⟨first, _ | ⟨second, more⟩⟩
    · -- the first amount can be burned
      have hdue' : due = 446 := (List.cons.inj hdues).1.symm
      have hsame : ledger' = scarce := hiff.mpr rfl
      have hburns := releases_twoRequests.2.2.2
      rw [hdue', hsame] at hdue
      rw [hdue] at hburns
      cases hburns
    · exact congrArg (· :: []) (List.cons.inj hdues).1.symm
    · have hlength := congrArg List.length hdues
      simp only [List.length_cons, List.length_append, List.length_nil] at hlength
      omega
  refine ⟨e, ledger', notices, hrun, ?_, ?_⟩
  · rw [ne_eq, hiff, hpaid]
    decide
  · rw [hburned.burn, hpaid]
    rfl

end Operation

end TwoWayPeg
