import Mathlib.Data.List.MinMax
import TwoWayPeg.Peg.Query

/-!
# The best chain is the first longest branch

Whatever headers a chain is given, in whatever order, the names kept by height lead from the first
header along parents to the tip, and the tip is the earliest of the highest headers taken up. The
heart of it is the change to another branch: following a header back to where it leaves the old best
chain, and setting the names on the way one after another, gives a chain that leads to the header.

* `HeaderChain.Leads`: names that lead to a header along parents.
* `HeaderChain.leads_branch`: setting the names of a branch leads to its last header.
* `HeaderChain.Follows.add`: what one more header keeps; `HeaderChain.Follows.addAll`: what any
  number of them keep.
* `HeaderChain.follows_first_longest`: the whole of it, with what queries by depth and by
  confirmation see.
-/

namespace TwoWayPeg.HeaderChain

/-! ### Names that lead to a header -/

/-- Names that begin with the first header and end with a given one, each header stored and the
child of the one before. -/
inductive Leads (stored : SortedMap BlockHash StoredHeader) (first : StoredHeader) :
    List BlockHash → StoredHeader → Prop
  | first : Leads stored first [first.header.hash] first
  | next {names : List BlockHash} {parent h : StoredHeader} (hleads : Leads stored first names parent)
    (hparent : h.header.parent = parent.header.hash) (hheight : h.height = parent.height + 1)
    (hstored : stored.get? h.header.hash = some h) :
    Leads stored first (names ++ [h.header.hash]) h

namespace Leads

variable {stored : SortedMap BlockHash StoredHeader} {first h : StoredHeader}
  {names : List BlockHash}

/-- There is a name for each height up to the last one. -/
theorem length_add (hl : Leads stored first names h) :
    names.length + first.height = h.height + 1 := by
  induction hl with
  | first => simp [Nat.add_comm]
  | next hleads hparent hheight hstored ih =>
    rw [List.length_append, List.length_singleton]
    omega

/-- The last name is that of the header. -/
theorem getElem?_last (hl : Leads stored first names h) :
    names[names.length - 1]? = some h.header.hash := by
  cases hl with
  | first => rfl
  | next hleads hparent hheight hstored => simp

/-- The first name is that of the first header. -/
theorem getElem?_zero (hl : Leads stored first names h) :
    names[0]? = some first.header.hash := by
  induction hl with
  | first => rfl
  | next hleads hparent hheight hstored ih =>
    rw [List.getElem?_append_left (List.getElem?_eq_some_iff.mp ih).1]
    exact ih

/-- Storing more headers does not change where names lead. -/
theorem mono {more : SortedMap BlockHash StoredHeader}
    (hmore : ∀ hash s, stored.get? hash = some s → more.get? hash = some s)
    (hl : Leads stored first names h) : Leads more first names h := by
  induction hl with
  | first => exact .first
  | next hleads hparent hheight hstored ih => exact .next ih hparent hheight (hmore _ _ hstored)

/-- **Each name is that of a stored header at its height**, and the names up to it lead there. -/
theorem exists_of_getElem? (hfirst : stored.get? first.header.hash = some first)
    (hl : Leads stored first names h) {k : Nat} {hash : BlockHash} (hk : names[k]? = some hash) :
    ∃ s, stored.get? hash = some s ∧ s.header.hash = hash ∧ s.height = first.height + k ∧
      Leads stored first (names.take (k + 1)) s := by
  induction hl with
  | first =>
    obtain rfl : k = 0 := by
      have := (List.getElem?_eq_some_iff.mp hk).1
      rwa [List.length_singleton, Nat.lt_one_iff] at this
    cases hk
    exact ⟨first, hfirst, rfl, rfl, .first⟩
  | @next names parent h hleads hparent hheight hstored ih =>
    rcases Nat.lt_or_ge k names.length with hlt | hge
    · rw [List.getElem?_append_left hlt] at hk
      rw [List.take_append_of_le_length hlt]
      exact ih hk
    · -- the name is the last one
      have hlength : k < (names ++ [h.header.hash]).length := (List.getElem?_eq_some_iff.mp hk).1
      rw [List.length_append, List.length_singleton] at hlength
      obtain rfl : k = names.length := by omega
      rw [List.getElem?_concat_length] at hk
      cases hk
      have hcount := hleads.length_add
      refine ⟨h, hstored, rfl, by omega, ?_⟩
      rw [List.take_of_length_le (by simp)]
      exact .next hleads hparent hheight hstored

/-- Of two names side by side the earlier one is the parent of the later one. -/
theorem parent_eq (hl : Leads stored first names h) {k : Nat} {a b : BlockHash}
    (ha : names[k]? = some a) (hb : names[k + 1]? = some b) :
    ∃ s, stored.get? b = some s ∧ s.header.parent = a := by
  induction hl with
  | first => cases hb
  | @next names parent h hleads hparent hheight hstored ih =>
    have hlength := (List.getElem?_eq_some_iff.mp hb).1
    rw [List.length_append, List.length_singleton] at hlength
    have hlt : k < names.length := by omega
    rw [List.getElem?_append_left hlt] at ha
    rcases Nat.lt_or_ge (k + 1) names.length with hinner | hlast
    · rw [List.getElem?_append_left hinner] at hb
      exact ih ha hb
    · obtain hend : k + 1 = names.length := by omega
      rw [hend, List.getElem?_concat_length] at hb
      cases hb
      have hname := hleads.getElem?_last
      rw [← hend, Nat.add_sub_cancel, ha] at hname
      cases hname
      exact ⟨h, hstored, hparent⟩

end Leads

/-! ### Changing to another branch -/

/-- What holds of a chain that began with a header, also while its tip is being moved. -/
structure Rooted (c : HeaderChain) (first : StoredHeader) : Prop where
  initial : c.initialHeight = first.height
  first_stored : c.stored.get? first.header.hash = some first
  /-- Headers are stored under their names. -/
  named : ∀ hash s, c.stored.get? hash = some s → s.header.hash = hash
  /-- Only the first header has no stored parent one below it. -/
  linked : ∀ hash s, c.stored.get? hash = some s → s ≠ first →
    ∃ p, c.stored.get? s.header.parent = some p ∧ s.height = p.height + 1
  above : ∀ hash s, c.stored.get? hash = some s → first.height ≤ s.height
  leads : ∃ tip, Leads c.stored first c.best tip

variable {c d : HeaderChain} {first : StoredHeader}

/-- **Setting the names of a branch leads to its last header.** If there are any, nothing of the old
best chain is left above. -/
theorem leads_branch (hc : c.Rooted first) {steps : Nat} {h : StoredHeader}
    (hstored : c.stored.get? h.header.hash = some h) (hsteps : h.height - first.height < steps) :
    let names := (c.branch steps h).foldr setLast c.best
    Leads c.stored first (names.take (h.height - first.height + 1)) h ∧
      (c.branch steps h ≠ [] → names.length = h.height - first.height + 1) := by
  intro names
  obtain ⟨tip, htip⟩ := hc.leads
  induction steps generalizing h with
  | zero => exact absurd hsteps (Nat.not_lt_zero _)
  | succ steps ih =>
    by_cases hmeets : c.best[h.height - c.initialHeight]? = some h.header.hash
    · have hbranch : c.branch (steps + 1) h = [] := if_pos hmeets
      have hnames : names = c.best := by simp only [names, hbranch, List.foldr_nil]
      obtain ⟨s, hs, -, -, hleads⟩ := htip.exists_of_getElem? hc.first_stored hmeets
      rw [hstored] at hs
      cases hs
      rw [hnames, ← hc.initial]
      exact ⟨hleads, fun hne => absurd hbranch hne⟩
    · -- the first header is always met, so this one has a parent
      have hne : h ≠ first := by
        rintro rfl
        rw [hc.initial, Nat.sub_self] at hmeets
        exact hmeets htip.getElem?_zero
      obtain ⟨p, hp, hheight⟩ := hc.linked _ _ hstored hne
      have hpname := hc.named _ _ hp
      have hpabove := hc.above _ _ hp
      have hbranch : c.branch (steps + 1) h =
          (h.height - c.initialHeight, h.header.hash) :: c.branch steps p := by
        rw [branch, if_neg hmeets, hp]
      have hplace : h.height - c.initialHeight = p.height - first.height + 1 := by
        rw [hc.initial]
        omega
      obtain ⟨hleads, -⟩ := ih (h := p) (by rw [hpname, hp]) (by omega)
      have hnames : names = ((c.branch steps p).foldr setLast c.best).take
          (p.height - first.height + 1) ++ [h.header.hash] := by
        simp only [names, hbranch, List.foldr_cons, setLast, hplace]
      have hlength : names.length = h.height - first.height + 1 := by
        have hcount := hleads.length_add
        rw [hnames, List.length_append, List.length_singleton]
        omega
      refine ⟨?_, fun _ => hlength⟩
      rw [← hlength, List.take_length, hnames]
      exact .next hleads hpname.symm hheight hstored

/-- A chain that began with a header, with the tip at the greatest height. -/
structure Sound (c : HeaderChain) (first : StoredHeader) : Prop extends c.Rooted first where
  greatest : ∀ hash s, c.stored.get? hash = some s → s.height ≤ c.bestHeight

/-- A chain begins sound. -/
theorem sound_startingAt (checkpoint : Header) (height : Nat) :
    (startingAt checkpoint height).Sound ⟨checkpoint, height⟩ := by
  have honly : ∀ hash s, (startingAt checkpoint height).stored.get? hash = some s →
      hash = checkpoint.hash ∧ s = ⟨checkpoint, height⟩ := by
    intro hash s hs
    simp only [startingAt, SortedMap.get?_insert] at hs
    split at hs
    · next heq =>
      cases hs
      exact ⟨(KeyOrder.cmp_eq_iff _ _).mp heq, rfl⟩
    · cases hs
  refine ⟨⟨rfl, SortedMap.get?_insert_self _ _ _, ?_, ?_, ?_, ⟨_, .first⟩⟩, ?_⟩
  · intro hash s hs
    obtain ⟨rfl, rfl⟩ := honly hash s hs
    rfl
  · intro hash s hs hne
    exact absurd (honly hash s hs).2 hne
  · intro hash s hs
    rw [(honly hash s hs).2]
  · intro hash s hs
    rw [(honly hash s hs).2]
    simp [startingAt, bestHeight]

/-! ### One more header -/

/-- A header whose name is new is stored beside all others. -/
theorem get?_insert_of_fresh {hash other : BlockHash} {new s : StoredHeader}
    (hfresh : c.stored.contains hash = false) (hs : c.stored.get? other = some s) :
    (c.stored.insert hash new).get? other = some s := by
  rw [SortedMap.get?_insert_ne, hs]
  rintro rfl
  rw [SortedMap.contains, hs] at hfresh
  cases hfresh

/-- What is stored after one more header has been stored. -/
theorem get?_store {hash : BlockHash} {new s : StoredHeader}
    (hs : (c.store new).stored.get? hash = some s) :
    (hash = new.header.hash ∧ s = new) ∨ c.stored.get? hash = some s := by
  rw [store, SortedMap.get?_insert] at hs
  split at hs
  · next heq =>
    cases hs
    exact .inl ⟨(KeyOrder.cmp_eq_iff _ _).mp heq, rfl⟩
  · exact .inr hs

/-- A header one above its stored parent can be stored. -/
theorem Rooted.store (hc : c.Rooted first) {new parent : StoredHeader}
    (hfresh : c.stored.contains new.header.hash = false)
    (hparent : c.stored.get? new.header.parent = some parent)
    (hheight : new.height = parent.height + 1) : (c.store new).Rooted first := by
  obtain ⟨tip, htip⟩ := hc.leads
  refine ⟨hc.initial, get?_insert_of_fresh hfresh hc.first_stored, ?_, ?_, ?_,
    ⟨tip, htip.mono fun _ _ => get?_insert_of_fresh hfresh⟩⟩
  · intro hash s hs
    rcases get?_store hs with ⟨rfl, rfl⟩ | hs
    · rfl
    · exact hc.named _ _ hs
  · intro hash s hs hne
    rcases get?_store hs with ⟨rfl, rfl⟩ | hs
    · exact ⟨parent, get?_insert_of_fresh hfresh hparent, hheight⟩
    · obtain ⟨p, hp, hheight⟩ := hc.linked _ _ hs hne
      exact ⟨p, get?_insert_of_fresh hfresh hp, hheight⟩
  · intro hash s hs
    rcases get?_store hs with ⟨rfl, rfl⟩ | hs
    · have hle := hc.above _ _ hparent
      omega
    · exact hc.above _ _ hs

/-- The height of the tip is that of the header that the names lead to. -/
theorem bestHeight_eq {names : List BlockHash} {tip : StoredHeader}
    (hinitial : d.initialHeight = first.height) (hbest : d.best = names)
    (hleads : Leads d.stored first names tip) : d.bestHeight = tip.height := by
  have hcount := hleads.length_add
  rw [bestHeight, hinitial, hbest]
  omega

/-- A header that is not on the best chain becomes the tip by changing to its branch. -/
theorem Rooted.leadTo (hc : c.Rooted first) {tip : StoredHeader}
    (hstored : c.stored.get? tip.header.hash = some tip) (hoff : tip.header.hash ∉ c.best) :
    (c.leadTo tip).Rooted first ∧ Leads c.stored first (c.leadTo tip).best tip := by
  have hsteps : tip.height - first.height < tip.height - c.initialHeight + 1 := by
    rw [hc.initial]
    exact Nat.lt_succ_self _
  have hbranch : c.branch (tip.height - c.initialHeight + 1) tip ≠ [] := by
    have hmiss : c.best[tip.height - c.initialHeight]? ≠ some tip.header.hash := fun hmeets =>
      hoff (List.mem_of_getElem? hmeets)
    rw [branch, if_neg hmiss]
    exact List.cons_ne_nil _ _
  obtain ⟨hleads, hlength⟩ := leads_branch hc hstored hsteps
  have hpath : Leads c.stored first (c.leadTo tip).best tip := by
    rwa [← hlength hbranch, List.take_length] at hleads
  exact ⟨⟨hc.initial, hc.first_stored, hc.named, hc.linked, hc.above, ⟨tip, hpath⟩⟩, hpath⟩

/-- A header that is taken up is the tip if it is higher than the tip before; otherwise the best
chain stays. -/
theorem Sound.takeUp (hc : c.Sound first) {new parent : StoredHeader}
    (hfresh : c.stored.contains new.header.hash = false)
    (hparent : c.stored.get? new.header.parent = some parent)
    (hheight : new.height = parent.height + 1) :
    (c.takeUp new).Sound first ∧ (c.takeUp new).stored = (c.store new).stored ∧
      ((c.bestHeight < new.height ∧ Leads (c.store new).stored first (c.takeUp new).best new) ∨
        (new.height ≤ c.bestHeight ∧ (c.takeUp new).best = c.best)) := by
  have hrooted := hc.toRooted.store hfresh hparent hheight
  by_cases hhigher : c.bestHeight < new.height
  · have htaken : c.takeUp new = (c.store new).leadTo new := if_pos hhigher
    have hoff : new.header.hash ∉ (c.store new).best := by
      -- names on the best chain are stored, and this one is new
      intro hmem
      obtain ⟨tip, htip⟩ := hc.leads
      obtain ⟨k, hk⟩ := List.getElem?_of_mem hmem
      obtain ⟨s, hs, -⟩ := htip.exists_of_getElem? hc.first_stored hk
      rw [SortedMap.contains, hs] at hfresh
      cases hfresh
    obtain ⟨hled, hleads⟩ := hrooted.leadTo (SortedMap.get?_insert_self _ _ _) hoff
    rw [htaken]
    refine ⟨⟨hled, fun hash s hs => ?_⟩, rfl, .inl ⟨hhigher, hleads⟩⟩
    rw [bestHeight_eq hled.initial rfl hleads]
    rcases get?_store hs with ⟨-, rfl⟩ | hs
    · exact Nat.le_refl _
    · exact Nat.le_trans (hc.greatest _ _ hs) (Nat.le_of_lt hhigher)
  · have htaken : c.takeUp new = c.store new := if_neg hhigher
    rw [htaken]
    refine ⟨⟨hrooted, fun hash s hs => ?_⟩, rfl, .inr ⟨Nat.le_of_not_lt hhigher, rfl⟩⟩
    rcases get?_store hs with ⟨-, rfl⟩ | hs
    · exact Nat.le_of_not_lt hhigher
    · exact hc.greatest _ _ hs

/-- A header that is added is new, and it is taken up one above its stored parent. -/
theorem add_eq_ok {header : Header} (h : c.add header = .ok d) :
    ∃ parent : StoredHeader, c.stored.contains header.hash = false ∧
      c.stored.get? header.parent = some parent ∧ d = c.takeUp ⟨header, parent.height + 1⟩ := by
  unfold add at h
  split at h
  · cases h
  · next hfresh =>
    split at h
    · cases h
    · next parent hparent =>
      cases h
      exact ⟨parent, by simpa using hfresh, hparent, rfl⟩

/-! ### Any number of headers -/

/-- The headers of a list that a chain takes up, in order and as they are stored. -/
def taken (c : HeaderChain) : List Header → List StoredHeader
  | [] => []
  | h :: rest =>
    match c.add h with
    | .error _ => c.taken rest
    | .ok d => (d.stored.get? h.hash).toList ++ d.taken rest

/-- A sound chain that has taken up the headers of a list after the first one, and ends in the
earliest of the highest. -/
structure Follows (c : HeaderChain) (first : StoredHeader) (taken : List StoredHeader) : Prop
    extends c.Sound first where
  stored_iff : ∀ s, c.stored.get? s.header.hash = some s ↔ s ∈ first :: taken
  tip : ∃ tip, (first :: taken).argmax StoredHeader.height = some tip ∧
    Leads c.stored first c.best tip

/-- The earliest of the highest headers stays when no higher one follows. -/
theorem argmax_concat_eq {l : List StoredHeader} {tip new : StoredHeader}
    (h : l.argmax StoredHeader.height = some tip) :
    (l ++ [new]).argmax StoredHeader.height =
      if tip.height < new.height then some new else some tip := by
  rw [List.argmax_concat, h]

/-- **What one more header keeps.** -/
theorem Follows.add {taken : List StoredHeader} (hc : c.Follows first taken) {header : Header}
    (h : c.add header = .ok d) :
    ∃ new, d.stored.get? header.hash = some new ∧ d.Follows first (taken ++ [new]) := by
  obtain ⟨parent, hfresh, hparent, rfl⟩ := add_eq_ok h
  generalize hnew : (⟨header, parent.height + 1⟩ : StoredHeader) = new
  have hheader : new.header = header := by rw [← hnew]
  rw [← hheader] at hfresh hparent ⊢
  obtain ⟨hsound, hstored, htip⟩ := hc.toSound.takeUp hfresh hparent (by rw [← hnew])
  have hfound : (c.store new).stored.get? new.header.hash = some new :=
    SortedMap.get?_insert_self _ _ _
  refine ⟨new, by rw [hstored, hfound], hsound, fun s => ?_, ?_⟩
  · rw [hstored, ← List.cons_append, List.mem_append, List.mem_singleton, ← hc.stored_iff]
    constructor
    · intro hs
      rcases get?_store hs with ⟨-, rfl⟩ | hs
      · exact .inr rfl
      · exact .inl hs
    · rintro (hs | rfl)
      · exact get?_insert_of_fresh hfresh hs
      · exact hfound
  · obtain ⟨tip, hmax, hleads⟩ := hc.tip
    have hheight := bestHeight_eq hc.initial rfl hleads
    rw [hstored, ← List.cons_append, argmax_concat_eq hmax]
    rcases htip with ⟨hhigher, hnew⟩ | ⟨hlower, hbest⟩
    · exact ⟨new, if_pos (by omega), hnew⟩
    · refine ⟨tip, if_neg (by omega), ?_⟩
      rw [hbest]
      exact hleads.mono fun _ _ => get?_insert_of_fresh hfresh

/-- **What any number of headers keep.** -/
theorem Follows.addAll {taken : List StoredHeader} (hc : c.Follows first taken)
    (headers : List Header) :
    (c.addAll headers).1.Follows first (taken ++ c.taken headers) := by
  induction headers generalizing c taken with
  | nil =>
    rw [HeaderChain.taken, List.append_nil]
    exact hc
  | cons header rest ih =>
    rw [HeaderChain.addAll, HeaderChain.taken]
    cases hadd : c.add header with
    | error e => exact ih hc
    | ok d =>
      obtain ⟨new, hnew, hd⟩ := hc.add hadd
      have hrest := ih hd
      rw [List.append_assoc] at hrest
      simp only [hnew, Option.toList_some]
      exact hrest

/-- A chain follows nothing but its first header at first. -/
theorem follows_startingAt (checkpoint : Header) (height : Nat) :
    (startingAt checkpoint height).Follows ⟨checkpoint, height⟩ [] := by
  refine ⟨sound_startingAt checkpoint height, fun s => ?_, ⟨checkpoint, height⟩, rfl, .first⟩
  rw [List.mem_singleton]
  constructor
  · intro hs
    simp only [startingAt, SortedMap.get?_insert] at hs
    split at hs
    · exact (Option.some.inj hs).symm
    · cases hs
  · rintro rfl
    exact SortedMap.get?_insert_self _ _ _

/-- A header that is refused changes nothing. -/
theorem addAll_concat_of_error {header : Header} {e : ChainError} {headers : List Header}
    (h : (c.addAll headers).1.add header = .error e) :
    (c.addAll (headers ++ [header])).1 = (c.addAll headers).1 := by
  induction headers generalizing c with
  | nil =>
    rw [List.nil_append, HeaderChain.addAll]
    simp only [HeaderChain.addAll] at h ⊢
    rw [h]
  | cons x rest ih =>
    rw [List.cons_append]
    simp only [HeaderChain.addAll] at h ⊢
    cases hx : c.add x with
    | error e' =>
      rw [hx] at h
      exact ih h
    | ok d =>
      rw [hx] at h
      exact ih h

/-! ### What is seen of it -/

/-- The header at a height is that of the name kept for it. -/
theorem Rooted.headerAt_eq_some (hc : c.Rooted first) {height : Nat} {h : Header} :
    c.headerAt height = some h ↔ first.height ≤ height ∧
      c.best[height - first.height]? = some h.hash ∧ c.stored.get? h.hash = some ⟨h, height⟩ := by
  obtain ⟨tip, htip⟩ := hc.leads
  rw [headerAt, hc.initial]
  constructor
  · intro hat
    split at hat
    · cases hat
    · next hge =>
      split at hat
      · cases hat
      · next hash hname =>
        obtain ⟨s, hs, hsname, hheight, -⟩ := htip.exists_of_getElem? hc.first_stored hname
        rw [hs] at hat
        cases hat
        have hsame : s = ⟨s.header, height⟩ := by
          obtain ⟨header, own⟩ := s
          congr
          simp only at hheight
          omega
        rw [hsname]
        exact ⟨by omega, hname, hsame ▸ hs⟩
  · rintro ⟨hge, hname, hs⟩
    rw [if_neg (by omega)]
    simp only [hname, hs, Option.map_some]

/-- There are headers for the heights from the first one to the tip. -/
theorem Rooted.isSome_headerAt (hc : c.Rooted first) (height : Nat) :
    (c.headerAt height).isSome ↔ c.initialHeight ≤ height ∧ height ≤ c.bestHeight := by
  obtain ⟨tip, htip⟩ := hc.leads
  have hcount := htip.length_add
  have hbest := bestHeight_eq hc.initial rfl htip
  have htop : first.height ≤ tip.height := by
    have hzero := (List.getElem?_eq_some_iff.mp htip.getElem?_zero).1
    omega
  rw [Option.isSome_iff_exists, hc.initial, hbest]
  constructor
  · rintro ⟨h, hat⟩
    obtain ⟨hge, hname, -⟩ := hc.headerAt_eq_some.mp hat
    have hlt := (List.getElem?_eq_some_iff.mp hname).1
    exact ⟨hge, by omega⟩
  · rintro ⟨hge, hle⟩
    obtain ⟨hash, hname⟩ : ∃ hash, c.best[height - first.height]? = some hash :=
      ⟨_, List.getElem?_eq_getElem (by omega)⟩
    obtain ⟨s, hs, hsname, hheight, -⟩ := htip.exists_of_getElem? hc.first_stored hname
    refine ⟨s.header, hc.headerAt_eq_some.mpr ⟨hge, by rw [hname, hsname], ?_⟩⟩
    rw [hsname, hs]
    obtain ⟨header, own⟩ := s
    congr
    simp only at hheight
    omega

section

variable {i : Invocation}

/-- The name at a depth is found for every depth down to the first header. -/
theorem Rooted.hashAtDepth_ne_internal (hc : c.Rooted first) (hview : i.chain = c.view)
    (depth : Nat) (message : String) :
    Query.hashAtDepth i depth ≠ .error (.internal message) := by
  intro h
  simp only [Query.hashAtDepth, hview, view] at h
  split at h
  · cases h
  · next hdepth =>
    obtain ⟨header, hat⟩ := Option.isSome_iff_exists.mp
      ((hc.isSome_headerAt (c.bestHeight - depth)).mpr
        ⟨by
          obtain ⟨tip, htip⟩ := hc.leads
          have hpos := (List.getElem?_eq_some_iff.mp htip.getElem?_zero).1
          rw [bestHeight] at hdepth ⊢
          omega, Nat.sub_le _ _⟩)
    rw [hat] at h
    cases h

/-- No stored header is above the tip, so confirmations can always be counted. -/
theorem Sound.confirmations_ne (hc : c.Sound first) (hview : i.chain = c.view) (txid : Txid)
    (block : BlockHash) (branch : Merkle.Branch) :
    Query.confirmations i txid block branch ≠ -3 := by
  simp only [Query.confirmations, hview, view]
  split
  · decide
  · next stored hstored =>
    have hle := hc.greatest _ _ hstored
    rw [if_neg (Nat.not_lt.mpr hle)]
    split
    · decide
    · split
      · decide
      · split
        · decide
        · omega

end

/-- **A chain follows the first longest branch**, whatever headers it is given after its first one.
With `taken` the headers that it takes up, it stores exactly these and the first one; all but the
first one have a stored parent one below; the height of the tip is the greatest; the headers by
height are those from the first header to the tip, each the parent of the next and stored at its
height; the tip is the earliest of the highest; and a header that is refused changes nothing. So
neither a name at a depth nor a number of confirmations fails for want of a header. -/
theorem follows_first_longest (checkpoint : Header) (height : Nat) (headers : List Header) :
    let first : StoredHeader := ⟨checkpoint, height⟩
    let taken := (startingAt checkpoint height).taken headers
    let c := ((startingAt checkpoint height).addAll headers).1
    (∀ hash s, c.stored.get? hash = some s ↔ s ∈ first :: taken ∧ s.header.hash = hash) ∧
    (∀ hash s, c.stored.get? hash = some s → hash ≠ checkpoint.hash →
      ∃ p, c.stored.get? s.header.parent = some p ∧ s.height = p.height + 1) ∧
    (∀ hash s, c.stored.get? hash = some s → s.height ≤ c.bestHeight) ∧
    c.initialHeight = height ∧
    (∀ k, (c.headerAt k).isSome ↔ height ≤ k ∧ k ≤ c.bestHeight) ∧
    c.headerAt height = some checkpoint ∧
    (∀ k a b, c.headerAt k = some a → c.headerAt (k + 1) = some b → b.parent = a.hash) ∧
    (∀ k h, c.headerAt k = some h → c.stored.get? h.hash = some ⟨h, k⟩) ∧
    (∃ tip, (first :: taken).argmax StoredHeader.height = some tip ∧
      c.headerAt c.bestHeight = some tip.header ∧ tip.height = c.bestHeight) ∧
    (∀ header e, c.add header = .error e →
      ((startingAt checkpoint height).addAll (headers ++ [header])).1 = c) ∧
    ∀ i : Invocation, i.chain = c.view →
      (∀ depth message, Query.hashAtDepth i depth ≠ .error (.internal message)) ∧
      ∀ txid block branch, Query.confirmations i txid block branch ≠ -3 := by
  intro first taken c
  have hc : c.Follows first taken := (follows_startingAt checkpoint height).addAll headers
  obtain ⟨tip, hmax, htip⟩ := hc.tip
  have hbest : c.bestHeight = tip.height := bestHeight_eq hc.initial rfl htip
  have hcount := htip.length_add
  have htipStored : c.stored.get? tip.header.hash = some tip :=
    (hc.stored_iff tip).mpr (List.argmax_mem hmax)
  refine ⟨?_, ?_, hc.greatest, hc.initial, ?_, ?_, ?_, ?_, ⟨tip, hmax, ?_, hbest.symm⟩,
    fun header e => addAll_concat_of_error, fun i hview =>
      ⟨hc.hashAtDepth_ne_internal hview, hc.confirmations_ne hview⟩⟩
  · intro hash s
    constructor
    · intro hs
      have hname := hc.named _ _ hs
      exact ⟨(hc.stored_iff s).mp (by rw [hname, hs]), hname⟩
    · rintro ⟨hmem, rfl⟩
      exact (hc.stored_iff s).mpr hmem
  · intro hash s hs hne
    refine hc.linked _ _ hs ?_
    rintro rfl
    exact hne (hc.named _ _ hs).symm
  · intro k
    rw [hc.isSome_headerAt, hc.initial]
  · exact hc.headerAt_eq_some.mpr
      ⟨Nat.le_refl _, by rw [Nat.sub_self]; exact htip.getElem?_zero, hc.first_stored⟩
  · intro k a b ha hb
    obtain ⟨hge, haname, -⟩ := hc.headerAt_eq_some.mp ha
    obtain ⟨-, hbname, hbstored⟩ := hc.headerAt_eq_some.mp hb
    have hnext : k + 1 - first.height = k - first.height + 1 := by omega
    rw [hnext] at hbname
    obtain ⟨s, hs, hparent⟩ := htip.parent_eq haname hbname
    rw [hbstored] at hs
    cases hs
    exact hparent
  · intro k h hat
    exact (hc.headerAt_eq_some.mp hat).2.2
  · refine hc.headerAt_eq_some.mpr ⟨?_, ?_, ?_⟩
    · rw [hbest]
      exact hc.above _ _ htipStored
    · have hlast := htip.getElem?_last
      have hplace : c.bestHeight - first.height = c.best.length - 1 := by omega
      rw [hplace]
      exact hlast
    · rw [hbest]
      exact htipStored

end TwoWayPeg.HeaderChain
