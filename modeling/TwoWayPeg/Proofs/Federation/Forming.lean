import Mathlib.Data.List.Nodup
import TwoWayPeg.Proofs.Bitcoin.Size

/-!
# Which members form a federation

Members are put into the order of their bitcoin keys, and then two members with the same key are
neighbours. So looking at neighbours finds every repeated key, and the members form a federation if
they are neither none nor too many and no two share a bitcoin key. The order of the keys is the same
whatever the order of the members, and with different keys so is the order of the members. So is the
key that is found to be repeated: it is the first one in the order of the keys.

* `Federation.sortedKeys_eq_of_perm`: there is one order of keys.
* `Federation.repeatedKey?_ordered`: no key is found to be repeated only if none is.
* `Federation.form_eq_ok_iff`: the members that form a federation, and the federation they form.
* `Federation.form_eq_of_perm`: the order of the members does not matter.
-/

namespace TwoWayPeg.Federation

/-! ### The order of keys -/

/-- A byte string that does not come after another comes before it or is the same. -/
theorem notAfter_iff {a b : Bytes} : notAfter a b = true ↔ Bytes.cmp a b = .lt ∨ a = b := by
  rw [notAfter, bne_iff_ne, ← Bytes.cmp_eq_iff]
  cases Bytes.cmp a b <;> simp

/-- Not to come after is transitive. -/
theorem notAfter_trans {a b c : Bytes} (hab : notAfter a b = true) (hbc : notAfter b c = true) :
    notAfter a c = true := by
  rw [notAfter_iff] at hab hbc ⊢
  rcases hab with hab | rfl
  · rcases hbc with hbc | rfl
    · exact .inl (Bytes.cmp_lt_trans hab hbc)
    · exact .inl hab
  · exact hbc

/-- Of two byte strings one does not come after the other. -/
theorem notAfter_total (a b : Bytes) : (notAfter a b || notAfter b a) = true := by
  have hswap := Bytes.cmp_swap a b
  rw [notAfter, notAfter, hswap]
  cases Bytes.cmp b a <;> rfl

/-- Two byte strings of which neither comes after the other are the same. -/
theorem eq_of_notAfter {a b : Bytes} (hab : notAfter a b = true) (hba : notAfter b a = true) :
    a = b := by
  rcases notAfter_iff.mp hab with hab | rfl
  · rw [notAfter, Bytes.cmp_swap, hab] at hba
    cases hba
  · rfl

/-- What is sorted by some bytes of it is in the order of these bytes. -/
theorem pairwise_mergeSort_notAfter {α : Type} (bytes : α → Bytes) (xs : List α) :
    (xs.mergeSort fun a b => notAfter (bytes a) (bytes b)).Pairwise fun a b =>
      notAfter (bytes a) (bytes b) = true := by
  apply List.pairwise_mergeSort
  · intro a b c
    exact notAfter_trans
  · intro a b
    exact notAfter_total (bytes a) (bytes b)

/-- Keys in the order of their bytes. -/
def sortedKeys (keys : List PublicKey) : List PublicKey :=
  keys.mergeSort fun a b => notAfter a.bytes b.bytes

/-- The bytes of sorted keys are in order. -/
theorem bytes_sortedKeys (keys : List PublicKey) :
    (sortedKeys keys).map PublicKey.bytes = (keys.map PublicKey.bytes).mergeSort notAfter :=
  List.map_mergeSort fun _ _ _ _ => rfl

/-- **There is one order of keys**, whatever the order in which they are listed. -/
theorem sortedKeys_eq_of_perm {keys keys' : List PublicKey} (hperm : keys.Perm keys') :
    sortedKeys keys = sortedKeys keys' := by
  have hsame : (sortedKeys keys).Perm (sortedKeys keys') :=
    ((List.mergeSort_perm keys _).trans hperm).trans (List.mergeSort_perm keys' _).symm
  exact hsame.eq_of_pairwise (fun _ _ _ _ hab hba => PublicKey.ext (eq_of_notAfter hab hba))
    (pairwise_mergeSort_notAfter _ keys) (pairwise_mergeSort_notAfter _ keys')

/-! ### The order of members -/

/-- Ordered members are the same ones. -/
theorem ordered_perm (ms : List Member) : (ordered ms).Perm ms := List.mergeSort_perm ms _

/-- Ordered members are in the order of their keys. -/
theorem pairwise_ordered (ms : List Member) :
    (ordered ms).Pairwise fun a b => notAfter a.btc.bytes b.btc.bytes = true :=
  pairwise_mergeSort_notAfter (fun m => m.btc.bytes) ms

/-- **The keys of ordered members** are the keys in order. -/
theorem btc_ordered (ms : List Member) :
    (ordered ms).map (·.btc) = sortedKeys (ms.map (·.btc)) :=
  List.map_mergeSort fun _ _ _ _ => rfl

variable {ms ms' : List Member}

/-- Members with different keys are strictly in order. -/
theorem pairwise_lt_ordered (hdistinct : (ms.map (·.btc)).Nodup) :
    (ordered ms).Pairwise fun a b => Bytes.cmp a.btc.bytes b.btc.bytes = .lt := by
  have hdifferent : (ordered ms).Pairwise fun a b => a.btc ≠ b.btc :=
    List.pairwise_map.mp (((ordered_perm ms).map _).nodup_iff.mpr hdistinct)
  refine ((pairwise_ordered ms).and hdifferent).imp ?_
  rintro a b ⟨hle, hne⟩
  exact (notAfter_iff.mp hle).resolve_right fun heq => hne (PublicKey.ext heq)

/-- Members with different keys have one order. -/
theorem ordered_eq_of_perm (hperm : ms.Perm ms') (hdistinct : (ms.map (·.btc)).Nodup) :
    ordered ms = ordered ms' := by
  have hsame := ((ordered_perm ms).trans hperm).trans (ordered_perm ms').symm
  have hinjective := List.inj_on_of_nodup_map hdistinct
  refine hsame.eq_of_pairwise ?_ (pairwise_ordered ms) (pairwise_ordered ms')
  intro a b ha hb hab hba
  have hmem : b ∈ ms := (ordered_perm ms).mem_iff.mp (hsame.mem_iff.mpr hb)
  exact hinjective ((ordered_perm ms).mem_iff.mp ha) hmem
    (PublicKey.ext (eq_of_notAfter hab hba))

/-! ### Repeated keys -/

/-- Which key is repeated depends on the keys only. -/
theorem repeatedKey?_congr (h : ms.map (·.btc) = ms'.map (·.btc)) :
    repeatedKey? ms = repeatedKey? ms' := by
  induction ms generalizing ms' with
  | nil =>
    rw [List.map_nil, eq_comm, List.map_eq_nil_iff] at h
    rw [h]
  | cons a rest ih =>
    obtain ⟨a', rest', rfl, ha, hrest⟩ := List.map_eq_cons_iff.mp h.symm
    cases rest with
    | nil =>
      rw [List.map_nil, List.map_eq_nil_iff] at hrest
      rw [hrest]
      rfl
    | cons b rest =>
      obtain ⟨b', rest', rfl, hb, -⟩ := List.map_eq_cons_iff.mp hrest
      rw [repeatedKey?, repeatedKey?, ha, hb, ih hrest.symm]

/-- Among sorted members a repeated key is that of neighbours. -/
theorem repeatedKey?_eq_none_iff
    (hsorted : ms.Pairwise fun a b => notAfter a.btc.bytes b.btc.bytes = true) :
    repeatedKey? ms = none ↔ (ms.map (·.btc)).Nodup := by
  induction ms with
  | nil => simp [repeatedKey?]
  | cons a rest ih =>
    obtain ⟨hfirst, hrest⟩ := List.pairwise_cons.mp hsorted
    cases rest with
    | nil => simp [repeatedKey?]
    | cons b rest =>
      have hnext := hfirst b List.mem_cons_self
      have hlater := (List.pairwise_cons.mp hrest).1
      rw [repeatedKey?, List.map_cons, List.nodup_cons, ← ih hrest]
      split
      · next heq => simp [heq]
      · next hne =>
        -- a later member with the first key would stand before its neighbour
        have hnew : a.btc ∉ (b :: rest).map (·.btc) := by
          intro hmem
          obtain ⟨c, hc, hkey⟩ := List.mem_map.mp hmem
          rcases List.mem_cons.mp hc with rfl | hc
          · exact hne hkey.symm
          · have hback := hlater c hc
            rw [hkey] at hback
            exact hne (PublicKey.ext (eq_of_notAfter hnext hback))
        exact ⟨fun h => ⟨hnew, h⟩, And.right⟩

/-- **A key is found to be repeated** exactly if one is. -/
theorem repeatedKey?_ordered (ms : List Member) :
    repeatedKey? (ordered ms) = none ↔ (ms.map (·.btc)).Nodup := by
  rw [repeatedKey?_eq_none_iff (pairwise_ordered ms)]
  exact ((ordered_perm ms).map _).nodup_iff

/-! ### Forming -/

/-- **The members that form a federation** are some, not too many, and have different keys; the
federation has them in the order of their keys. -/
theorem form_eq_ok_iff {timeMs block : UInt64} {network : Network} {f : Federation} :
    form ms timeMs block network = .ok f ↔
      ms ≠ [] ∧ ms.length ≤ maxFederationSize ∧ (ms.map (·.btc)).Nodup ∧
        f = ⟨ordered ms, timeMs, block, network⟩ := by
  rw [← repeatedKey?_ordered, form]
  split
  · next hempty => simp [List.isEmpty_iff.mp hempty]
  · next hempty =>
    have hne : ms ≠ [] := fun hnil => hempty (List.isEmpty_iff.mpr hnil)
    split
    · next hmany => simp [Nat.not_le.mpr hmany]
    · next hfew =>
      simp only
      split
      · next k hk => simp [hk]
      · next hnone => simp [hnone, hne, Nat.le_of_not_lt hfew, eq_comm]

/-- **The order of the members does not matter**: they form the same federation, or fail to form one
for the same reason. -/
theorem form_eq_of_perm (hperm : ms.Perm ms') (timeMs block : UInt64) (network : Network) :
    form ms timeMs block network = form ms' timeMs block network := by
  have hrepeated : repeatedKey? (ordered ms) = repeatedKey? (ordered ms') := by
    refine repeatedKey?_congr ?_
    rw [btc_ordered, btc_ordered]
    exact sortedKeys_eq_of_perm (hperm.map _)
  have hempty : ms.isEmpty = ms'.isEmpty := by
    rw [Bool.eq_iff_iff, List.isEmpty_iff, List.isEmpty_iff, ← List.length_eq_zero_iff,
      hperm.length_eq, List.length_eq_zero_iff]
  simp only [form, hempty, hperm.length_eq, hrepeated]
  rcases hnone : repeatedKey? (ordered ms') with - | k
  · -- the keys are different ones, so there is one order of the members
    have hdistinct := (repeatedKey?_ordered ms).mp (hrepeated.trans hnone)
    rw [ordered_eq_of_perm hperm hdistinct]
  · rfl

end TwoWayPeg.Federation
