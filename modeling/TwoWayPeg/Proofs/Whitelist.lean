import Mathlib.Algebra.GroupWithZero.Nat
import TwoWayPeg.Whitelist

/-!
# Quotas of the whitelist

What an entry allows is a promise about all locks of a sender together: no more of them than there
are uses, or no more in sum than the capacity. The list itself only looks at one lock at a time, and
a charge never fails, as it takes what it can. The promise is kept because a sender is charged only
right after the list has been asked and has permitted the lock.

* `WhitelistStep`, `Whitelist.afterAll`: histories of a list, in which any keys are listed, struck
  off, asked about and charged.
* `Whitelist.get?_after`: what a step makes of one entry, by that entry alone.
* `Whitelist.Checked`: the histories that charge a key only after having asked, and that neither list
  it nor strike it off.
* `Whitelist.Checked.induct`: what every permitted charge keeps holds of all charges together.
* `Whitelist.quotas_hold`: the quotas of both kinds of entries, and that other keys do not matter.
-/

namespace TwoWayPeg

/-- A step in the history of a whitelist. -/
inductive WhitelistStep
  /-- An entry is to be listed. -/
  | put (key : KeyHash) (entry : WhitelistEntry)
  /-- The entry of a key is to be struck off. -/
  | remove (key : KeyHash)
  /-- It is asked whether a sender may lock an amount at a height. -/
  | ask (key : KeyHash) (amount height : Nat)
  /-- A lock is charged to its sender. -/
  | charge (key : KeyHash) (amount : Nat)
  /-- The list is to be disabled above a height. -/
  | disableAbove (height : UInt32)

namespace WhitelistStep

/-- Whether a step is about a key or about the whole list, and not about another key. -/
def concerns (key : KeyHash) : WhitelistStep → Bool
  | put other _ | remove other | ask other _ _ | charge other _ => other == key
  | disableAbove _ => true

/-- Whether a step lists a key or strikes it off. -/
def lists (key : KeyHash) : WhitelistStep → Bool
  | put other _ | remove other => other == key
  | _ => false

/-- The amount that a step charges to a key. -/
def charged? (key : KeyHash) : WhitelistStep → Option Nat
  | charge other amount => if other = key then some amount else none
  | _ => none

/-- The amounts that a history charges to a key, first one first. -/
def charges (key : KeyHash) (history : List WhitelistStep) : List Nat :=
  history.filterMap (charged? key)

end WhitelistStep

namespace Whitelist

open WhitelistStep (concerns charged? charges)

/-! ### One step -/

/-- The whitelist after a step. What is refused changes nothing. -/
def after (w : Whitelist) : WhitelistStep → Whitelist
  | .put key entry => (w.put key entry).toOption.getD w
  | .remove key => ((w.remove key).toOption.map Prod.snd).getD w
  | .ask _ _ _ => w
  | .charge key amount => w.charge key amount
  | .disableAbove height => (w.disableAbove height).toOption.getD w

/-- An entry after a charge, unless it is used up. -/
def charged (amount : Nat) (entry : WhitelistEntry) : Option WhitelistEntry :=
  (entry.allowance.charge? amount).map fun left => { entry with allowance := left }

/-- What a step makes of the entry of a key. -/
def entryAfter (key : KeyHash) : WhitelistStep → Option WhitelistEntry → Option WhitelistEntry
  | .put other entry, listed => if other = key then some (listed.getD entry) else listed
  | .remove other, listed => if other = key then none else listed
  | .charge other amount, listed => if other = key then listed.bind (charged amount) else listed
  | .ask _ _ _, listed | .disableAbove _, listed => listed

/-- What a step makes of the disabling height. -/
def heightAfter : WhitelistStep → Option UInt32 → Option UInt32
  | .disableAbove height, set => some (set.getD height)
  | _, set => set

variable {w v : Whitelist} {key : KeyHash} {history : List WhitelistStep}

/-- Listing a key that is not listed sets its entry. -/
theorem get?_put (w : Whitelist) (key other : KeyHash) (entry : WhitelistEntry) :
    ((w.put other entry).toOption.getD w).get? key =
      if other = key then some ((w.get? key).getD entry) else w.get? key := by
  by_cases hkey : other = key
  · subst hkey
    rw [if_pos rfl, put, SortedMap.contains]
    cases hlisted : w.get? other with
    | none =>
      rw [← get?, hlisted]
      exact SortedMap.get?_insert_self _ _ _
    | some listed =>
      rw [← get?, hlisted]
      exact hlisted
  · rw [if_neg hkey, put]
    split
    · rfl
    · exact SortedMap.get?_insert_ne _ _ (Ne.symm hkey)

/-- Striking a key off leaves it without an entry. -/
theorem get?_remove (w : Whitelist) (key other : KeyHash) :
    (((w.remove other).toOption.map Prod.snd).getD w).get? key =
      if other = key then none else w.get? key := by
  unfold remove
  by_cases hkey : other = key
  · subst hkey
    rw [if_pos rfl]
    split
    · next hunlisted => exact hunlisted
    · exact SortedMap.get?_erase_self _ _
  · rw [if_neg hkey]
    split
    · rfl
    · exact SortedMap.get?_erase_ne _ (Ne.symm hkey)

/-- A charge is taken off the entry of its key, and the entry goes when it is used up. -/
theorem get?_charge (w : Whitelist) (key other : KeyHash) (amount : Nat) :
    (w.charge other amount).get? key =
      if other = key then (w.get? key).bind (charged amount) else w.get? key := by
  by_cases hkey : other = key
  · subst hkey
    rw [if_pos rfl, charge]
    cases hlisted : w.get? other with
    | none => exact hlisted
    | some entry =>
      simp only [Option.bind_some, charged]
      cases entry.allowance.charge? amount with
      | none => exact SortedMap.get?_erase_self _ _
      | some left => exact SortedMap.get?_insert_self _ _ _
  · rw [if_neg hkey, charge]
    split
    · rfl
    · split
      · exact SortedMap.get?_insert_ne _ _ (Ne.symm hkey)
      · exact SortedMap.get?_erase_ne _ (Ne.symm hkey)

/-- **What a step makes of an entry** depends on that entry alone. -/
theorem get?_after (w : Whitelist) (key : KeyHash) (step : WhitelistStep) :
    (w.after step).get? key = entryAfter key step (w.get? key) := by
  cases step with
  | put other entry => exact get?_put w key other entry
  | remove other => exact get?_remove w key other
  | ask _ _ _ => rfl
  | charge other amount => exact get?_charge w key other amount
  | disableAbove height =>
    simp only [after, disableAbove]
    split <;> rfl

/-- What a step makes of the disabling height depends on that height alone. -/
theorem disableHeight_after (w : Whitelist) (step : WhitelistStep) :
    (w.after step).disableHeight = heightAfter step w.disableHeight := by
  cases step with
  | put other entry =>
    simp only [after, put]
    split <;> rfl
  | remove other =>
    simp only [after, remove]
    split <;> rfl
  | ask _ _ _ => rfl
  | charge other amount =>
    simp only [after, charge]
    split
    · rfl
    · split <;> rfl
  | disableAbove height =>
    simp only [after, disableAbove]
    split
    · next already hset =>
      rw [hset]
      exact hset
    · next hunset =>
      rw [hunset]
      rfl

/-! ### Histories -/

/-- The whitelist after a history. -/
def afterAll (w : Whitelist) (history : List WhitelistStep) : Whitelist := history.foldl after w

/-- One more step behind a history. -/
theorem afterAll_concat (w : Whitelist) (history : List WhitelistStep) (step : WhitelistStep) :
    w.afterAll (history ++ [step]) = (w.afterAll history).after step := by
  rw [afterAll, List.foldl_append, ← afterAll]
  rfl

/-- Two lists look alike to a key: they have the same entry for it and the same disabling height. -/
structure Agree (key : KeyHash) (w v : Whitelist) : Prop where
  entry : w.get? key = v.get? key
  height : w.disableHeight = v.disableHeight

/-- Lists that look alike to a key permit the same to it. -/
theorem Agree.permits_eq (h : Agree key w v) (amount height : Nat) :
    w.permits key amount height = v.permits key amount height := by
  rw [permits, permits, isDisabledAt, isDisabledAt, h.entry, h.height]

/-- Lists that look alike still do so after the same step. -/
theorem Agree.after (h : Agree key w v) (step : WhitelistStep) :
    Agree key (w.after step) (v.after step) where
  entry := by rw [get?_after, get?_after, h.entry]
  height := by rw [disableHeight_after, disableHeight_after, h.height]

/-- A step about another key changes nothing for a key. -/
theorem agree_after_of_not_concerns {step : WhitelistStep} (h : step.concerns key = false)
    (w : Whitelist) : Agree key (w.after step) w where
  entry := by
    rw [get?_after]
    cases step with
    | ask _ _ _ => rfl
    | disableAbove _ => rfl
    | _ => exact if_neg (ne_of_beq_false h)
  height := by
    rw [disableHeight_after]
    cases step with
    | disableAbove height => cases h
    | _ => rfl

/-- **Steps about other keys may be left out** of a history. -/
theorem agree_afterAll_filter (h : Agree key w v) (history : List WhitelistStep) :
    Agree key (w.afterAll history) (v.afterAll (history.filter (concerns key))) := by
  induction history generalizing w v with
  | nil => exact h
  | cons step rest ih =>
    cases hconcerns : step.concerns key with
    | true =>
      rw [List.filter_cons_of_pos hconcerns]
      exact ih (h.after step)
    | false =>
      rw [List.filter_cons_of_neg (by rw [hconcerns]; decide)]
      have hskip := agree_after_of_not_concerns hconcerns w
      exact ih ⟨hskip.entry.trans h.entry, hskip.height.trans h.height⟩

/-! ### Checked histories -/

/-- The histories that neither list a key nor strike it off, and in which each charge of the key
comes directly after the list has been asked and has permitted it, at a height at which the list is
not disabled. -/
inductive Checked (w : Whitelist) (key : KeyHash) : List WhitelistStep → Prop
  | nil : Checked w key []
  | other {history : List WhitelistStep} (h : Checked w key history) (step : WhitelistStep)
    (hlists : step.lists key = false) (hcharges : step.charged? key = none) :
    Checked w key (history ++ [step])
  | charge {history : List WhitelistStep} (h : Checked w key history) (amount height : Nat)
    (henabled : (w.afterAll history).isDisabledAt height = false)
    (hpermitted : (w.afterAll history).permits key amount height = true) :
    Checked w key (history ++ [.ask key amount height, .charge key amount])

/-- A step that neither lists nor charges a key leaves its entry as it is. -/
theorem get?_after_of_other {step : WhitelistStep} (hlists : step.lists key = false)
    (hcharges : step.charged? key = none) (w : Whitelist) :
    (w.after step).get? key = w.get? key := by
  rw [get?_after]
  cases step with
  | put other entry => exact if_neg (ne_of_beq_false hlists)
  | remove other => exact if_neg (ne_of_beq_false hlists)
  | ask _ _ _ => rfl
  | disableAbove _ => rfl
  | charge other amount =>
    refine if_neg fun hkey => ?_
    rw [charged?, if_pos hkey] at hcharges
    cases hcharges

/-- What is permitted where the list is not disabled is permitted by an entry. -/
theorem exists_of_permits {amount height : Nat} (henabled : w.isDisabledAt height = false)
    (hpermitted : w.permits key amount height = true) :
    ∃ entry, w.get? key = some entry ∧ entry.allowance.permits amount = true := by
  rw [permits, henabled, Bool.false_or] at hpermitted
  split at hpermitted
  · next entry hlisted => exact ⟨entry, hlisted, hpermitted⟩
  · cases hpermitted

/-- **What every permitted charge keeps holds of all charges together**: of the amounts charged so
far and the entry that is left. -/
theorem Checked.induct {P : List Nat → Option WhitelistEntry → Prop} (h : w.Checked key history)
    (hstart : P [] (w.get? key))
    (hcharge : ∀ amounts entry amount, P amounts (some entry) →
      entry.allowance.permits amount = true → P (amounts ++ [amount]) (charged amount entry)) :
    P (charges key history) ((w.afterAll history).get? key) := by
  induction h with
  | nil => exact hstart
  | @other history h step hlists hcharges ih =>
    have hsame : charges key (history ++ [step]) = charges key history := by
      rw [charges, List.filterMap_append, List.filterMap_cons_none hcharges, List.filterMap_nil,
        List.append_nil, ← charges]
    rw [hsame, afterAll_concat, get?_after_of_other hlists hcharges]
    exact ih
  | @charge history h amount height henabled hpermitted ih =>
    obtain ⟨entry, hlisted, hallowed⟩ := exists_of_permits henabled hpermitted
    have hmore : charges key (history ++ [.ask key amount height, .charge key amount]) =
        charges key history ++ [amount] := by
      rw [charges, List.filterMap_append, ← charges]
      simp only [List.filterMap_cons, charged?, if_true, List.filterMap_nil]
    have hleft : (w.afterAll (history ++ [.ask key amount height, .charge key amount])).get? key =
        charged amount entry := by
      rw [List.append_cons, afterAll_concat, afterAll_concat]
      refine (get?_charge _ key key amount).trans ?_
      rw [if_pos rfl]
      exact congrArg (Option.bind · (charged amount)) hlisted
    rw [hmore, hleft]
    rw [hlisted] at ih
    exact hcharge _ entry amount ih hallowed

/-! ### Quotas -/

/-- What a number of charges leaves of an entry with a number of uses. -/
def oneOffLeft (address : String) (maxValue : Amount) (uses count : Nat) :
    Option WhitelistEntry :=
  if count < uses then some ⟨address, .oneOff maxValue (UInt32.ofNat (uses - count))⟩ else none

/-- A permitted charge is within the limit and takes one of the uses that are left. -/
theorem charged_of_oneOffLeft {address : String} {maxValue : Amount} {uses count amount : Nat}
    {entry : WhitelistEntry} (hfits : uses < UInt32.size)
    (hentry : oneOffLeft address maxValue uses count = some entry)
    (hpermits : entry.allowance.permits amount = true) :
    amount ≤ maxValue.sats ∧ count < uses ∧
      charged amount entry = oneOffLeft address maxValue uses (count + 1) := by
  unfold oneOffLeft at hentry
  split at hentry
  case isFalse => cases hentry
  next hcount =>
  cases hentry
  simp only [Allowance.permits, Bool.and_eq_true, decide_eq_true_eq] at hpermits
  refine ⟨hpermits.2, hcount, ?_⟩
  have hleft : (UInt32.ofNat (uses - count)).toNat = uses - count :=
    UInt32.toNat_ofNat_of_lt' (by omega)
  have hone : UInt32.ofNat (uses - count) ≤ 1 ↔ uses - count ≤ 1 := by
    rw [UInt32.le_iff_toNat_le, hleft]
    rfl
  simp only [charged, Allowance.charge?, oneOffLeft, hone]
  by_cases hlast : uses - count ≤ 1
  · rw [if_pos hlast, if_neg (by omega)]
    rfl
  · have hnext : UInt32.ofNat (uses - count - 1) = UInt32.ofNat (uses - count) - 1 :=
      UInt32.ofNat_sub (by omega)
    rw [if_neg hlast, if_pos (by omega), ← Nat.sub_sub, hnext]
    rfl

/-- **The quotas of the whitelist.** In every checked history the charges of an entry with a number
of uses are each within its limit and no more than there are uses, and the entry is there as long as
uses are left. The charges of an entry with a capacity are in sum within the capacity, and the entry
stays with what is left of it. Of all histories, also of others, a key sees only the steps that are
not about other keys, in its entry and in what it is permitted. -/
theorem quotas_hold (h : w.Checked key history) :
    (∀ address maxValue uses, 1 ≤ uses →
      w.get? key = some ⟨address, .oneOff maxValue uses⟩ →
        (∀ amount ∈ charges key history, amount ≤ maxValue.sats) ∧
        (charges key history).length ≤ uses.toNat ∧
        (w.afterAll history).get? key =
          if (charges key history).length < uses.toNat then
            some ⟨address, .oneOff maxValue
              (UInt32.ofNat (uses.toNat - (charges key history).length))⟩
          else none) ∧
      (∀ address capacity, w.get? key = some ⟨address, .unlimited (some capacity)⟩ →
        (charges key history).sum ≤ capacity.sats ∧
        (w.afterAll history).get? key =
          some ⟨address, .unlimited (some (capacity.minus (charges key history).sum))⟩) ∧
      ∀ (start : Whitelist) (steps : List WhitelistStep),
        Agree key (start.afterAll steps) (start.afterAll (steps.filter (concerns key))) ∧
        ∀ amount height, (start.afterAll steps).permits key amount height =
          (start.afterAll (steps.filter (concerns key))).permits key amount height := by
  refine ⟨?_, ?_, fun start steps => ?_⟩
  case refine_3 =>
    have hagree : Agree key (start.afterAll steps)
        (start.afterAll (steps.filter (concerns key))) := agree_afterAll_filter ⟨rfl, rfl⟩ steps
    exact ⟨hagree, hagree.permits_eq⟩
  · intro address maxValue uses hsome hentry
    refine h.induct (P := fun amounts left => (∀ amount ∈ amounts, amount ≤ maxValue.sats) ∧
      amounts.length ≤ uses.toNat ∧
      left = oneOffLeft address maxValue uses.toNat amounts.length) ?_ ?_
    · refine ⟨nofun, Nat.zero_le _, ?_⟩
      have hpos : 0 < uses.toNat := UInt32.le_iff_toNat_le.mp hsome
      rw [hentry, oneOffLeft, List.length_nil, if_pos hpos, Nat.sub_zero, UInt32.ofNat_toNat]
    · rintro amounts entry amount ⟨hwithin, -, hleft⟩ hpermits
      obtain ⟨hamount, hcount, hcharged⟩ :=
        charged_of_oneOffLeft uses.toNat_lt hleft.symm hpermits
      rw [List.length_append, List.length_singleton]
      refine ⟨?_, hcount, hcharged⟩
      intro a ha
      rcases List.mem_append.mp ha with ha | ha
      · exact hwithin a ha
      · rw [List.mem_singleton.mp ha]
        exact hamount
  · intro address capacity hentry
    refine h.induct (P := fun amounts left => amounts.sum ≤ capacity.sats ∧
      left = some ⟨address, .unlimited (some (capacity.minus amounts.sum))⟩) ?_ ?_
    · exact ⟨Nat.zero_le _, hentry⟩
    · rintro amounts entry amount ⟨hsum, hleft⟩ hpermits
      cases hleft
      have hamount : amount ≤ capacity.sats - amounts.sum := of_decide_eq_true hpermits
      rw [List.sum_append, List.sum_singleton]
      refine ⟨by omega, ?_⟩
      simp only [charged, Allowance.charge?, Option.map_some, Amount.minus, Nat.sub_sub]

end Whitelist

/-! ### A list that two senders use up -/

namespace Example

/-- A sender that may lock a thousand satoshis twice. -/
def twice : KeyHash := ⟨.replicate 20 1⟩

/-- A sender that may lock five thousand satoshis in all. -/
def capped : KeyHash := ⟨.replicate 20 2⟩

/-- The list of the two. -/
def bothListed : Whitelist where
  entries := (SortedMap.empty.insert twice ⟨"twice", .oneOff (.clamp 1000) 2⟩).insert capped
    ⟨"capped", .unlimited (some (.clamp 5000))⟩
  disableHeight := none

/-- Each of them locks two times, and in between the list is to be disabled above a height. -/
def fourLocks : List WhitelistStep :=
  [.ask twice 700 5, .charge twice 700, .ask capped 3000 5, .charge capped 3000,
    .disableAbove 100,
    .ask twice 1000 100, .charge twice 1000, .ask capped 2000 100, .charge capped 2000]

/-- The history is checked for the first sender. -/
theorem checked_twice : bothListed.Checked twice fourLocks :=
  Whitelist.Checked.nil
    |>.charge 700 5 (by decide +kernel) (by decide +kernel)
    |>.other (.ask capped 3000 5) (by decide) (by decide)
    |>.other (.charge capped 3000) (by decide) (by decide)
    |>.other (.disableAbove 100) (by decide) (by decide)
    |>.charge 1000 100 (by decide +kernel) (by decide +kernel)
    |>.other (.ask capped 2000 100) (by decide) (by decide)
    |>.other (.charge capped 2000) (by decide) (by decide)

/-- The history is checked for the second sender. -/
theorem checked_capped : bothListed.Checked capped fourLocks :=
  Whitelist.Checked.nil
    |>.other (.ask twice 700 5) (by decide) (by decide)
    |>.other (.charge twice 700) (by decide) (by decide)
    |>.charge 3000 5 (by decide +kernel) (by decide +kernel)
    |>.other (.disableAbove 100) (by decide) (by decide)
    |>.other (.ask twice 1000 100) (by decide) (by decide)
    |>.other (.charge twice 1000) (by decide) (by decide)
    |>.charge 2000 100 (by decide +kernel) (by decide +kernel)

end Example

namespace Whitelist

open Example

/-- The first sender has used up its two locks and is not listed any more. The second one is still
listed, with nothing left. -/
theorem quotas_hold_used_up :
    (bothListed.Checked twice fourLocks ∧
      bothListed.get? twice = some ⟨"twice", .oneOff (.clamp 1000) 2⟩ ∧
      (bothListed.afterAll fourLocks).get? twice = none) ∧
    (bothListed.Checked capped fourLocks ∧
      bothListed.get? capped = some ⟨"capped", .unlimited (some (.clamp 5000))⟩ ∧
      (bothListed.afterAll fourLocks).get? capped = some ⟨"capped", .unlimited (some .zero)⟩) := by
  have htwice : bothListed.get? twice = some ⟨"twice", .oneOff (.clamp 1000) 2⟩ := by
    decide +kernel
  have hcapped : bothListed.get? capped = some ⟨"capped", .unlimited (some (.clamp 5000))⟩ := by
    decide +kernel
  obtain ⟨-, -, hnone⟩ := (quotas_hold checked_twice).1 _ _ _ (by decide) htwice
  obtain ⟨-, hleft⟩ := (quotas_hold checked_capped).2.1 _ _ hcapped
  exact ⟨⟨checked_twice, htwice, hnone⟩, checked_capped, hcapped, hleft⟩

end Whitelist

end TwoWayPeg
