import TwoWayPeg.Bytes

/-!
# Maps kept in key order

The peg's records are finite maps that are walked, numbered and written out in the order of their
keys. `SortedMap κ ν` is such a map: a list of entries whose keys increase strictly, with the
increase stored in the value, so that two maps with the same entries are equal and every
operation is a function on lists.

The order of the keys comes from `KeyOrder`, a comparison with its three laws.

* `SortedMap.get?_insert`, `SortedMap.get?_erase`: what a look-up finds after a change.
* `SortedMap.ext_get?`: a map is determined by its look-ups.
-/

namespace TwoWayPeg

/-- A comparison that orders a type of keys strictly and totally. -/
class KeyOrder (κ : Type) where
  /-- How two keys stand to each other. -/
  cmp : κ → κ → Ordering
  /-- Only equal keys compare equal. -/
  cmp_eq_iff : ∀ a b, cmp a b = .eq ↔ a = b
  /-- Comparing the other way round gives the opposite answer. -/
  cmp_swap : ∀ a b, cmp a b = (cmp b a).swap
  /-- Coming before is transitive. -/
  cmp_lt_trans : ∀ {a b c}, cmp a b = .lt → cmp b c = .lt → cmp a c = .lt

namespace KeyOrder

variable {κ : Type} [KeyOrder κ]

/-- A key compares equal to itself. -/
@[simp] theorem cmp_self (a : κ) : cmp a a = .eq := (cmp_eq_iff a a).mpr rfl

/-- A key comes after another if the other comes before it. -/
theorem cmp_gt_iff (a b : κ) : cmp a b = .gt ↔ cmp b a = .lt := by
  rw [cmp_swap a b]; cases cmp b a <;> simp

/-- Keys of which one comes before the other are different. -/
theorem ne_of_cmp_lt {a b : κ} (h : cmp a b = .lt) : a ≠ b := by
  rintro rfl; simp at h

/-- Keys ordered through an injective reading as keys of another type. -/
@[reducible] def ofInjective {α : Type} (f : α → κ) (hf : ∀ a b, f a = f b → a = b) :
    KeyOrder α where
  cmp a b := cmp (f a) (f b)
  cmp_eq_iff _ _ := ⟨fun h => hf _ _ ((cmp_eq_iff _ _).mp h), fun h => h ▸ cmp_self _⟩
  cmp_swap _ _ := cmp_swap _ _
  cmp_lt_trans h₁ h₂ := cmp_lt_trans h₁ h₂

end KeyOrder

/-- Byte strings are ordered byte by byte. -/
instance : KeyOrder Bytes where
  cmp := Bytes.cmp
  cmp_eq_iff := Bytes.cmp_eq_iff
  cmp_swap := Bytes.cmp_swap
  cmp_lt_trans := Bytes.cmp_lt_trans

/-- Byte strings of one length are ordered as byte strings. -/
instance {n : Nat} : KeyOrder (FixedBytes n) :=
  KeyOrder.ofInjective FixedBytes.toList fun _ _ => FixedBytes.ext

/-- A finite map whose entries stand in strictly increasing order of their keys. -/
structure SortedMap (κ ν : Type) [KeyOrder κ] where
  /-- The entries, smallest key first. -/
  entries : List (κ × ν)
  /-- Each key comes before all later ones. -/
  sorted : entries.Pairwise fun a b => KeyOrder.cmp a.1 b.1 = .lt

namespace SortedMap

variable {κ ν : Type} [KeyOrder κ]

/-- Maps are compared by their entries. -/
instance [DecidableEq κ] [DecidableEq ν] : DecidableEq (SortedMap κ ν) := fun a b =>
  decidable_of_iff (a.entries = b.entries) (by cases a; cases b; simp)

/-- Maps with the same entries are equal. -/
theorem ext {a b : SortedMap κ ν} (h : a.entries = b.entries) : a = b := by
  cases a; cases b; simp_all

/-- The map without entries. -/
def empty : SortedMap κ ν := ⟨[], .nil⟩

/-- The map without entries serves as a default value. -/
instance : Inhabited (SortedMap κ ν) := ⟨empty⟩

/-! ### Operations on the entry list -/

/-- The value stored under a key of an entry list. -/
def lookup (k : κ) : List (κ × ν) → Option ν
  | [] => none
  | (k', v) :: rest => if KeyOrder.cmp k k' = .eq then some v else lookup k rest

/-- The entry list with a key set to a value. -/
def place (k : κ) (v : ν) : List (κ × ν) → List (κ × ν)
  | [] => [(k, v)]
  | (k', v') :: rest =>
    match KeyOrder.cmp k k' with
    | .lt => (k, v) :: (k', v') :: rest
    | .eq => (k, v) :: rest
    | .gt => (k', v') :: place k v rest

/-- The entry list without a key. -/
def remove (k : κ) : List (κ × ν) → List (κ × ν)
  | [] => []
  | (k', v') :: rest => if KeyOrder.cmp k k' = .eq then rest else (k', v') :: remove k rest

/-- An entry of the list after a change is the new one or was there before. -/
theorem mem_place {k : κ} {v : ν} {e : κ × ν} {l : List (κ × ν)} (h : e ∈ place k v l) :
    e = (k, v) ∨ e ∈ l := by
  induction l with
  | nil => simpa [place] using h
  | cons hd rest ih =>
    obtain ⟨k', v'⟩ := hd
    unfold place at h
    split at h
    · simpa using h
    · rcases List.mem_cons.mp h with h | h <;> simp [h]
    · rcases List.mem_cons.mp h with h | h
      · simp [h]
      · rcases ih h with h | h <;> simp [h]

/-- Setting a key keeps the keys increasing. -/
theorem sorted_place {k : κ} {v : ν} {l : List (κ × ν)}
    (h : l.Pairwise fun a b => KeyOrder.cmp a.1 b.1 = .lt) :
    (place k v l).Pairwise fun a b => KeyOrder.cmp a.1 b.1 = .lt := by
  induction l with
  | nil => simp [place]
  | cons hd rest ih =>
    obtain ⟨k', v'⟩ := hd
    obtain ⟨hhd, hrest⟩ := List.pairwise_cons.mp h
    unfold place
    split
    · next hlt =>
      refine List.pairwise_cons.mpr ⟨?_, h⟩
      intro e he
      rcases List.mem_cons.mp he with rfl | he
      · exact hlt
      · exact KeyOrder.cmp_lt_trans hlt (hhd e he)
    · next heq =>
      have := (KeyOrder.cmp_eq_iff k k').mp heq
      subst this
      exact List.pairwise_cons.mpr ⟨hhd, hrest⟩
    · next hgt =>
      refine List.pairwise_cons.mpr ⟨?_, ih hrest⟩
      intro e he
      rcases mem_place he with rfl | he
      · exact (KeyOrder.cmp_gt_iff k k').mp hgt
      · exact hhd e he

/-- What is left without a key was there before. -/
theorem mem_of_mem_remove {k : κ} {e : κ × ν} {l : List (κ × ν)} (h : e ∈ remove k l) :
    e ∈ l := by
  induction l with
  | nil => simp [remove] at h
  | cons hd rest ih =>
    unfold remove at h
    split at h
    · exact List.mem_cons_of_mem _ h
    · rcases List.mem_cons.mp h with h | h
      · simp [h]
      · exact List.mem_cons_of_mem _ (ih h)

/-- Leaving out a key keeps the keys increasing. -/
theorem sorted_remove {k : κ} {l : List (κ × ν)}
    (h : l.Pairwise fun a b => KeyOrder.cmp a.1 b.1 = .lt) :
    (remove k l).Pairwise fun a b => KeyOrder.cmp a.1 b.1 = .lt := by
  induction l with
  | nil => simp [remove]
  | cons hd rest ih =>
    obtain ⟨hhd, hrest⟩ := List.pairwise_cons.mp h
    unfold remove
    split
    · exact hrest
    · exact List.pairwise_cons.mpr ⟨fun e he => hhd e (mem_of_mem_remove he), ih hrest⟩

/-- After a key is set it has the value, and all other keys have what they had. -/
theorem lookup_place (k k' : κ) (v : ν) (l : List (κ × ν)) :
    lookup k' (place k v l) = if KeyOrder.cmp k' k = .eq then some v else lookup k' l := by
  induction l with
  | nil => simp [place, lookup]
  | cons hd rest ih =>
    obtain ⟨q, w⟩ := hd
    unfold place
    split
    · simp [lookup]
    · next heq =>
      have := (KeyOrder.cmp_eq_iff k q).mp heq
      subst this
      by_cases h : KeyOrder.cmp k' k = .eq <;> simp [lookup, h]
    · next hgt =>
      simp only [lookup, ih]
      by_cases h : KeyOrder.cmp k' k = .eq
      · have := (KeyOrder.cmp_eq_iff k' k).mp h
        subst this
        simp [hgt]
      · simp [h]

/-- A key that comes before all keys of a list is not in it. -/
theorem lookup_eq_none_of_lt {k : κ} {l : List (κ × ν)}
    (h : ∀ e ∈ l, KeyOrder.cmp k e.1 = .lt) : lookup k l = none := by
  induction l with
  | nil => rfl
  | cons hd rest ih =>
    have := h hd (by simp)
    simp [lookup, this, ih fun e he => h e (List.mem_cons_of_mem _ he)]

/-- After a key is left out it has no value, and all other keys have what they had. -/
theorem lookup_remove {k k' : κ} {l : List (κ × ν)}
    (hs : l.Pairwise fun a b => KeyOrder.cmp a.1 b.1 = .lt) :
    lookup k' (remove k l) = if KeyOrder.cmp k' k = .eq then none else lookup k' l := by
  induction l with
  | nil => simp [remove, lookup]
  | cons hd rest ih =>
    obtain ⟨q, w⟩ := hd
    obtain ⟨hhd, hrest⟩ := List.pairwise_cons.mp hs
    unfold remove
    split
    · next heq =>
      have := (KeyOrder.cmp_eq_iff k q).mp heq
      subst this
      by_cases h : KeyOrder.cmp k' k = .eq
      · have := (KeyOrder.cmp_eq_iff k' k).mp h
        subst this
        simp [lookup_eq_none_of_lt hhd]
      · simp [lookup, h]
    · next hne =>
      simp only [lookup, ih hrest]
      by_cases h : KeyOrder.cmp k' k = .eq
      · have := (KeyOrder.cmp_eq_iff k' k).mp h
        subst this
        simp [hne]
      · simp [h]

/-- With increasing keys, each entry is what is found under its key. -/
theorem lookup_eq_some_of_mem {k : κ} {v : ν} {l : List (κ × ν)}
    (hs : l.Pairwise fun a b => KeyOrder.cmp a.1 b.1 = .lt) (h : (k, v) ∈ l) :
    lookup k l = some v := by
  induction l with
  | nil => simp at h
  | cons hd rest ih =>
    obtain ⟨hhd, hrest⟩ := List.pairwise_cons.mp hs
    rcases List.mem_cons.mp h with rfl | h
    · simp [lookup]
    · have hlt := hhd _ h
      have : KeyOrder.cmp k hd.1 ≠ .eq := by
        rw [KeyOrder.cmp_swap, hlt]; simp
      simp [lookup, this, ih hrest h]

/-- What is found under a key is an entry. -/
theorem mem_of_lookup_eq_some {k : κ} {v : ν} {l : List (κ × ν)} (h : lookup k l = some v) :
    (k, v) ∈ l := by
  induction l with
  | nil => simp [lookup] at h
  | cons hd rest ih =>
    obtain ⟨q, w⟩ := hd
    unfold lookup at h
    split at h
    · next heq =>
      have := (KeyOrder.cmp_eq_iff k q).mp heq
      subst this
      cases h; simp
    · exact List.mem_cons_of_mem _ (ih h)

/-! ### The map -/

/-- The value stored under a key. -/
def get? (m : SortedMap κ ν) (k : κ) : Option ν := lookup k m.entries

/-- Whether something is stored under a key. -/
def contains (m : SortedMap κ ν) (k : κ) : Bool := (m.get? k).isSome

/-- The map with a key set to a value, whatever was stored there before. -/
def insert (m : SortedMap κ ν) (k : κ) (v : ν) : SortedMap κ ν :=
  ⟨place k v m.entries, sorted_place m.sorted⟩

/-- The map without a key. -/
def erase (m : SortedMap κ ν) (k : κ) : SortedMap κ ν :=
  ⟨remove k m.entries, sorted_remove m.sorted⟩

/-- The number of entries. -/
def size (m : SortedMap κ ν) : Nat := m.entries.length

/-- Whether there is no entry. -/
def isEmpty (m : SortedMap κ ν) : Bool := m.entries.isEmpty

/-- The keys in increasing order. -/
def keys (m : SortedMap κ ν) : List κ := m.entries.map (·.1)

/-- The values in the order of their keys. -/
def values (m : SortedMap κ ν) : List ν := m.entries.map (·.2)

/-- The map of a list of entries; of two entries with one key the later one stays. -/
def ofList (l : List (κ × ν)) : SortedMap κ ν :=
  l.foldl (fun m e => m.insert e.1 e.2) empty

/-- Nothing is stored in the map without entries. -/
@[simp] theorem get?_empty (k : κ) : (empty : SortedMap κ ν).get? k = none := rfl

/-- After an insertion the key has the value, and all other keys have what they had. -/
theorem get?_insert (m : SortedMap κ ν) (k k' : κ) (v : ν) :
    (m.insert k v).get? k' = if KeyOrder.cmp k' k = .eq then some v else m.get? k' :=
  lookup_place k k' v m.entries

/-- What is inserted under a key is found there. -/
@[simp] theorem get?_insert_self (m : SortedMap κ ν) (k : κ) (v : ν) :
    (m.insert k v).get? k = some v := by
  simp [get?_insert]

/-- An insertion does not touch what is stored under other keys. -/
theorem get?_insert_ne (m : SortedMap κ ν) {k k' : κ} (v : ν) (h : k' ≠ k) :
    (m.insert k v).get? k' = m.get? k' := by
  rw [get?_insert, if_neg fun he => h ((KeyOrder.cmp_eq_iff k' k).mp he)]

/-- After an erasure the key has no value, and all other keys have what they had. -/
theorem get?_erase (m : SortedMap κ ν) (k k' : κ) :
    (m.erase k).get? k' = if KeyOrder.cmp k' k = .eq then none else m.get? k' :=
  lookup_remove m.sorted

/-- Nothing is found under a key that has been erased. -/
@[simp] theorem get?_erase_self (m : SortedMap κ ν) (k : κ) : (m.erase k).get? k = none := by
  simp [get?_erase]

/-- An erasure does not touch what is stored under other keys. -/
theorem get?_erase_ne (m : SortedMap κ ν) {k k' : κ} (h : k' ≠ k) :
    (m.erase k).get? k' = m.get? k' := by
  rw [get?_erase, if_neg fun he => h ((KeyOrder.cmp_eq_iff k' k).mp he)]

/-- A value is stored under a key if both together are an entry. -/
theorem get?_eq_some_iff (m : SortedMap κ ν) (k : κ) (v : ν) :
    m.get? k = some v ↔ (k, v) ∈ m.entries :=
  ⟨mem_of_lookup_eq_some, lookup_eq_some_of_mem m.sorted⟩

/-- Two maps that answer every look-up alike are the same map. -/
theorem ext_get? {a b : SortedMap κ ν} (h : ∀ k, a.get? k = b.get? k) : a = b := by
  apply ext
  obtain ⟨la, ha⟩ := a
  obtain ⟨lb, hb⟩ := b
  have hl : ∀ k, lookup k la = lookup k lb := h
  clear h
  induction la generalizing lb with
  | nil =>
    cases lb with
    | nil => rfl
    | cons hd rest =>
      have := hl hd.1
      simp [lookup] at this
  | cons x xs ih =>
    cases lb with
    | nil =>
      have := hl x.1
      simp [lookup] at this
    | cons y ys =>
      obtain ⟨hx, hxs⟩ := List.pairwise_cons.mp ha
      obtain ⟨hy, hys⟩ := List.pairwise_cons.mp hb
      have hxy : x = y := by
        have h₁ : (x.1, x.2) ∈ y :: ys := mem_of_lookup_eq_some (by rw [← hl]; simp [lookup])
        have h₂ : (y.1, y.2) ∈ x :: xs := mem_of_lookup_eq_some (by rw [hl]; simp [lookup])
        rcases List.mem_cons.mp h₁ with h₁ | h₁
        · exact h₁
        · rcases List.mem_cons.mp h₂ with h₂ | h₂
          · exact h₂.symm
          · have := KeyOrder.cmp_lt_trans (hy _ h₁) (hx _ h₂)
            simp at this
      subst hxy
      have hrest : xs = ys := by
        refine ih hxs ys hys fun k => ?_
        have := hl k
        by_cases hk : KeyOrder.cmp k x.1 = .eq
        · have := (KeyOrder.cmp_eq_iff k x.1).mp hk
          subst this
          rw [lookup_eq_none_of_lt hx, lookup_eq_none_of_lt hy]
        · simpa [lookup, hk] using this
      exact congrArg (x :: ·) hrest

end SortedMap

/-! ### Sets as maps -/

/-- A finite set in increasing order. -/
abbrev SortedSet (κ : Type) [KeyOrder κ] := SortedMap κ Unit

namespace SortedSet

variable {κ : Type} [KeyOrder κ]

/-- The set with one more element. -/
def add (s : SortedSet κ) (k : κ) : SortedSet κ := SortedMap.insert s k ()

/-- The set of the elements of a list. -/
def ofElements (l : List κ) : SortedSet κ := l.foldl add SortedMap.empty

end SortedSet

end TwoWayPeg
