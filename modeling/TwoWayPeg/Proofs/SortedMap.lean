import Mathlib.Data.List.Perm.Subperm
import TwoWayPeg.SortedMap

/-!
# Values of maps

What the values of a map are after an entry has been set or removed. The keys are strictly
increasing, so a key that is found stands at one place only, and setting it again changes the value
at that place and no other.

* `SortedMap.values_insert_subperm`, `SortedMap.values_erase_sublist`: no value appears from
  nowhere.
* `SortedMap.exists_values_of_get?`: where a key is found.
* `SortedMap.insert_eq_self`: setting a key to what it stands for changes nothing.
* `SortedMap.nodup_keys`, `SortedMap.mem_keys_iff`: the keys are different ones, those that are
  found.
* `SortedMap.ofList_entries`, `SortedSet.ofElements_keys`: a map is made again of its entries, and a
  set of its elements.
-/

namespace TwoWayPeg.SortedMap

variable {κ ν : Type} [KeyOrder κ]

/-- Placing an entry adds its value and perhaps takes another one away. -/
theorem values_place_subperm (k : κ) (v : ν) (l : List (κ × ν)) :
    ((place k v l).map Prod.snd).Subperm (v :: l.map Prod.snd) := by
  induction l with
  | nil => exact List.Subperm.refl _
  | cons e rest ih =>
    obtain ⟨k', v'⟩ := e
    unfold place
    split
    · exact List.Subperm.refl _
    · rw [List.map_cons, List.map_cons]
      exact ((List.sublist_cons_self v' _).cons_cons v).subperm
    · rw [List.map_cons, List.map_cons]
      exact ((List.subperm_cons v').mpr ih).trans (List.Perm.swap v v' _).subperm

/-- The values after an entry has been set are the new one and old ones. -/
theorem values_insert_subperm (m : SortedMap κ ν) (k : κ) (v : ν) :
    (m.insert k v).values.Subperm (v :: m.values) :=
  values_place_subperm k v m.entries

/-- Removing a key takes at most one entry out. -/
theorem remove_sublist (k : κ) (l : List (κ × ν)) : (remove k l).Sublist l := by
  induction l with
  | nil => exact List.Sublist.refl _
  | cons e rest ih =>
    unfold remove
    split
    · exact List.sublist_cons_self _ rest
    · exact ih.cons_cons _

/-- The values after a key has been removed are old ones. -/
theorem values_erase_sublist (m : SortedMap κ ν) (k : κ) :
    (m.erase k).values.Sublist m.values :=
  (remove_sublist k m.entries).map Prod.snd

/-- Placing an entry under a key that is found changes the value at one place. -/
theorem exists_values_place {k : κ} {v : ν} {l : List (κ × ν)}
    (hsorted : l.Pairwise fun a b => KeyOrder.cmp a.1 b.1 = .lt) (h : lookup k l = some v) :
    ∃ front back, l.map Prod.snd = front ++ v :: back ∧
      ∀ w, (place k w l).map Prod.snd = front ++ w :: back := by
  induction l with
  | nil => cases h
  | cons e rest ih =>
    obtain ⟨k', v'⟩ := e
    obtain ⟨hhead, hrest⟩ := List.pairwise_cons.mp hsorted
    unfold lookup at h
    split at h
    · next heq =>
      cases h
      exact ⟨[], rest.map Prod.snd, rfl, fun w => by simp [place, heq]⟩
    · next hne =>
      -- the key is found further back, so it cannot come before this one
      have hgt : KeyOrder.cmp k k' = .gt := by
        have hlt : KeyOrder.cmp k' k = .lt := hhead (k, v) (mem_of_lookup_eq_some h)
        exact (KeyOrder.cmp_gt_iff k k').mpr hlt
      obtain ⟨front, back, hvalues, hplace⟩ := ih hrest h
      refine ⟨v' :: front, back, by rw [List.map_cons, hvalues, List.cons_append], fun w => ?_⟩
      simp only [place, hgt, List.map_cons, hplace w, List.cons_append]

/-- A key that is found has one place among the values, and setting it again changes that place. -/
theorem exists_values_of_get? {m : SortedMap κ ν} {k : κ} {v : ν} (h : m.get? k = some v) :
    ∃ front back, m.values = front ++ v :: back ∧
      ∀ w, (m.insert k w).values = front ++ w :: back :=
  exists_values_place m.sorted h

/-- A key that is found stands for one of the values; the other ones are left without it. -/
theorem values_perm_of_get? {m : SortedMap κ ν} {k : κ} {v : ν} (h : m.get? k = some v) :
    m.values.Perm (v :: (m.erase k).values) := by
  obtain ⟨l, hsorted⟩ := m
  unfold get? at h
  unfold values erase
  simp only at h ⊢
  clear hsorted
  induction l with
  | nil => cases h
  | cons e rest ih =>
    obtain ⟨k', v'⟩ := e
    unfold lookup at h
    unfold remove
    split at h
    · next heq =>
      cases h
      rw [if_pos heq]
      exact List.Perm.refl _
    · next hne =>
      rw [if_neg hne]
      exact ((ih h).cons v').trans (List.Perm.swap _ _ _)

/-- Removing a key that has been set is removing what it stood for. -/
theorem erase_insert (m : SortedMap κ ν) (k : κ) (v : ν) : (m.insert k v).erase k = m.erase k := by
  refine ext_get? fun k' => ?_
  by_cases hk : k' = k
  · rw [hk, get?_erase_self, get?_erase_self]
  · rw [get?_erase_ne _ hk, get?_erase_ne _ hk, get?_insert_ne _ _ hk]

/-- Setting a key twice is setting it once. -/
theorem insert_insert (m : SortedMap κ ν) (k : κ) (v w : ν) :
    (m.insert k v).insert k w = m.insert k w := by
  refine ext_get? fun k' => ?_
  by_cases hk : k' = k
  · rw [hk, get?_insert_self, get?_insert_self]
  · rw [get?_insert_ne _ _ hk, get?_insert_ne _ _ hk, get?_insert_ne _ _ hk]

/-- The values after a key has been set are the new one and those of other keys. -/
theorem values_insert_perm (m : SortedMap κ ν) (k : κ) (v : ν) :
    (m.insert k v).values.Perm (v :: (m.erase k).values) := by
  rw [← erase_insert m k v]
  exact values_perm_of_get? (get?_insert_self m k v)

/-- Setting a key to what it stands for changes nothing. -/
theorem insert_eq_self {m : SortedMap κ ν} {k : κ} {v : ν} (h : m.get? k = some v) :
    m.insert k v = m := by
  refine ext_get? fun k' => ?_
  by_cases hk : k' = k
  · rw [hk, get?_insert_self, h]
  · rw [get?_insert_ne m v hk]

/-! ### Keys -/

/-- No key stands twice. -/
theorem nodup_keys (m : SortedMap κ ν) : m.keys.Nodup :=
  (List.pairwise_map.mpr m.sorted).imp fun hlt => KeyOrder.ne_of_cmp_lt hlt

/-- The keys are those under which something is stored. -/
theorem mem_keys_iff (m : SortedMap κ ν) (k : κ) : k ∈ m.keys ↔ m.contains k = true := by
  rw [contains, Option.isSome_iff_exists, keys, List.mem_map]
  constructor
  · rintro ⟨⟨k', v⟩, hmem, rfl⟩
    exact ⟨v, (m.get?_eq_some_iff k' v).mpr hmem⟩
  · rintro ⟨v, hfound⟩
    exact ⟨(k, v), (m.get?_eq_some_iff k v).mp hfound, rfl⟩

/-! ### A map is made again of its entries -/

/-- A key behind all others goes to the end. -/
theorem place_of_gt {k : κ} (v : ν) {l : List (κ × ν)}
    (h : ∀ e ∈ l, KeyOrder.cmp e.1 k = .lt) : place k v l = l ++ [(k, v)] := by
  induction l with
  | nil => rfl
  | cons e rest ih =>
    have hgt : KeyOrder.cmp k e.1 = .gt := (KeyOrder.cmp_gt_iff k e.1).mpr (h e List.mem_cons_self)
    have hrest := ih fun e' he' => h e' (List.mem_cons_of_mem e he')
    simp only [place, hgt, hrest, List.cons_append]

/-- Entries in the order of their keys are put one behind the other. -/
theorem entries_foldl_insert (m : SortedMap κ ν) (l : List (κ × ν))
    (h : (m.entries ++ l).Pairwise fun a b => KeyOrder.cmp a.1 b.1 = .lt) :
    (l.foldl (fun m e => m.insert e.1 e.2) m).entries = m.entries ++ l := by
  induction l generalizing m with
  | nil => exact (List.append_nil _).symm
  | cons e rest ih =>
    have hbefore : ∀ e' ∈ m.entries, KeyOrder.cmp e'.1 e.1 = .lt := fun e' he' =>
      (List.pairwise_append.mp h).2.2 e' he' e List.mem_cons_self
    have hinsert : (m.insert e.1 e.2).entries = m.entries ++ [e] := place_of_gt e.2 hbefore
    rw [List.foldl_cons, ih _ (by rw [hinsert, List.append_assoc]; exact h), hinsert,
      List.append_assoc, List.singleton_append]

/-- **A map is made again of its entries.** -/
theorem ofList_entries (m : SortedMap κ ν) : ofList m.entries = m :=
  ext (entries_foldl_insert empty m.entries m.sorted)

end TwoWayPeg.SortedMap

/-- **A set is made again of its elements.** -/
theorem TwoWayPeg.SortedSet.ofElements_keys {κ : Type} [KeyOrder κ] (s : SortedSet κ) :
    SortedSet.ofElements s.keys = s := by
  rw [SortedSet.ofElements, SortedMap.keys, List.foldl_map]
  exact s.ofList_entries
