import Mathlib.Data.List.Perm.Basic
import TwoWayPeg.Release.Queue

/-!
# Passes over the queue

A pass takes requests from the front of the queue and puts those that are kept at its back, into the
same list that it is taking from. As it looks at no more requests than there were at first, it never
comes to those that it has put back: it is a walk along the queue as it was, and it leaves the part
that it has not looked at in front of what was kept.

To say which requests a handler gets to see, and in which order, a handler is given a record to
write. The record does not change what a pass does, and it holds every call.

* `ReleaseQueue.recording`: a handler that records its calls.
* `ReleaseQueue.passRounds_recording`: the record changes nothing.
* `ReleaseQueue.passRounds_walks`: a pass is a walk along the queue, whatever stands behind it.
* `ReleaseQueue.passRounds_append`: what a pass leaves of the queue.
* `ReleaseQueue.pass_in_order`: which requests the handler gets, what is left of the queue, and that
  no request is lost or doubled.
-/

namespace TwoWayPeg.ReleaseQueue

variable {ε σ : Type}

/-! ### Records -/

/-- A handler that also writes down each request that it gets and what it answers. -/
def recording (handler : ReleaseRequest → σ → Except ε Bool × σ) (r : ReleaseRequest)
    (s : σ × List (ReleaseRequest × Except ε Bool)) :
    Except ε Bool × (σ × List (ReleaseRequest × Except ε Bool)) :=
  let (answer, state) := handler r s.1
  (answer, (state, s.2 ++ [(r, answer)]))

/-- The record of requests that were answered, each with yes or no. -/
def answered (answers : List (ReleaseRequest × Bool)) : List (ReleaseRequest × Except ε Bool) :=
  answers.map fun a => (a.1, .ok a.2)

/-- The requests that were released. -/
def released (answers : List (ReleaseRequest × Bool)) : List ReleaseRequest :=
  (answers.filter fun a => a.2).map Prod.fst

/-- The requests that were kept. -/
def kept (answers : List (ReleaseRequest × Bool)) : List ReleaseRequest :=
  (answers.filter fun a => !a.2).map Prod.fst

/-- The first answer and the others. -/
theorem released_cons (a : ReleaseRequest × Bool) (answers : List (ReleaseRequest × Bool)) :
    released (a :: answers) = released [a] ++ released answers := by
  rw [released, released, released, ← List.map_append, ← List.filter_append, List.singleton_append]

/-- The first answer and the others. -/
theorem kept_cons (a : ReleaseRequest × Bool) (answers : List (ReleaseRequest × Bool)) :
    kept (a :: answers) = kept [a] ++ kept answers := by
  rw [kept, kept, kept, ← List.map_append, ← List.filter_append, List.singleton_append]

/-- Every request that was answered was either released or kept. -/
theorem released_append_kept_perm (answers : List (ReleaseRequest × Bool)) :
    (released answers ++ kept answers).Perm (answers.map Prod.fst) := by
  rw [released, kept, ← List.map_append]
  exact (List.filter_append_perm _ answers).map Prod.fst

/-- Nothing is lost or doubled when what was kept goes behind the rest. -/
theorem released_append_perm {answers : List (ReleaseRequest × Bool)} {rest q : ReleaseQueue}
    (h : answers.map Prod.fst ++ rest = q) :
    (released answers ++ (rest ++ kept answers)).Perm q := by
  have hanswers := (released_append_kept_perm answers).append_right rest
  rw [h, List.append_assoc] at hanswers
  exact (List.perm_append_comm.append_left _).trans hanswers

section Rounds

variable {handler : ReleaseRequest → σ → Except ε Bool × σ} {r : ReleaseRequest} {s after : σ}

/-- A round in which the request is released. -/
theorem passRounds_of_released (hcall : handler r s = (.ok true, after)) (rounds count : Nat)
    (q : ReleaseQueue) :
    passRounds handler (rounds + 1) count (r :: q) s =
      passRounds handler rounds (count + 1) q after := by
  rw [passRounds, hcall]

/-- A round in which the request goes to the back. -/
theorem passRounds_of_kept (hcall : handler r s = (.ok false, after)) (rounds count : Nat)
    (q : ReleaseQueue) :
    passRounds handler (rounds + 1) count (r :: q) s =
      passRounds handler rounds count (q ++ [r]) after := by
  rw [passRounds, hcall]

/-- A round in which the handler answers: the request is released, or it goes to the back. -/
theorem passRounds_of_answer {answer : Bool} (hcall : handler r s = (.ok answer, after))
    (rounds count : Nat) (q : ReleaseQueue) :
    passRounds handler (rounds + 1) count (r :: q) s =
      passRounds handler rounds (count + (released [(r, answer)]).length)
        (q ++ kept [(r, answer)]) after := by
  cases answer with
  | false => exact passRounds_of_kept hcall rounds count q
  | true =>
    rw [passRounds_of_released hcall rounds count q, kept, List.filter_cons_of_neg (by simp)]
    rw [List.filter_nil, List.map_nil, List.append_nil]
    rfl

/-- A round in which the handler fails is the last one, and the request stays in front. -/
theorem passRounds_of_error {e : ε} (hcall : handler r s = (.error e, after))
    (rounds count : Nat) (q : ReleaseQueue) :
    passRounds handler (rounds + 1) count (r :: q) s = ⟨.error e, r :: q, after⟩ := by
  rw [passRounds, hcall]

/-- A call of the recording handler is a call of the handler. -/
theorem recording_eq {answer : Except ε Bool} (hcall : handler r s = (answer, after))
    (record : List (ReleaseRequest × Except ε Bool)) :
    recording handler r (s, record) = (answer, (after, record ++ [(r, answer)])) := by
  rw [recording, hcall]

end Rounds

variable {handler : ReleaseRequest → σ → Except ε Bool × σ}

/-- A pass relates the handler's state before it to the one behind it, as each call does. -/
theorem passRounds_induct {R : σ → σ → Prop} (hrefl : ∀ s, R s s)
    (htrans : ∀ {s t u}, R s t → R t u → R s u) (hstep : ∀ r s, R s (handler r s).2)
    (rounds count : Nat) (q : ReleaseQueue) (s : σ) :
    R s (passRounds handler rounds count q s).state := by
  induction rounds generalizing count q s with
  | zero => exact hrefl s
  | succ rounds ih =>
    cases q with
    | nil => exact hrefl s
    | cons r q =>
      have hr := hstep r s
      rcases hcall : handler r s with ⟨e | answer, after⟩
      · rw [hcall] at hr
        rw [passRounds_of_error hcall]
        exact hr
      · rw [hcall] at hr
        rw [passRounds_of_answer hcall]
        exact htrans hr (ih _ _ _)

/-- **The record changes nothing** but the record. -/
theorem passRounds_recording (rounds count : Nat) (q : ReleaseQueue) (s : σ)
    (record : List (ReleaseRequest × Except ε Bool)) :
    let plain := passRounds handler rounds count q s
    let recorded := passRounds (recording handler) rounds count q (s, record)
    plain = ⟨recorded.result, recorded.queue, recorded.state.1⟩ := by
  induction rounds generalizing count q s record with
  | zero => rfl
  | succ rounds ih =>
    cases q with
    | nil => rfl
    | cons r q =>
      rcases hcall : handler r s with ⟨e | answer, after⟩
      · rw [passRounds_of_error hcall, passRounds_of_error (recording_eq hcall record)]
      · rw [passRounds_of_answer hcall, passRounds_of_answer (recording_eq hcall record)]
        exact ih _ _ _ _

/-! ### The walk -/

/-- **A pass is a walk along the queue**, as long as it has no more rounds than there are requests.
What stands behind these is not looked at and comes before what is kept. -/
theorem passRounds_walks (handler : ReleaseRequest → σ → Except ε Bool × σ) {rounds : Nat}
    {q : ReleaseQueue} (hrounds : rounds ≤ q.length) (count : Nat) (behind : ReleaseQueue)
    (s : σ) (record : List (ReleaseRequest × Except ε Bool)) :
    ∃ (answers : List (ReleaseRequest × Bool)) (state : σ),
      (answers.map Prod.fst = q.take rounds ∧
        passRounds (recording handler) rounds count (q ++ behind) (s, record) =
          ⟨.ok (count + (released answers).length), q.drop rounds ++ behind ++ kept answers,
            (state, record ++ answered answers)⟩) ∨
      ∃ r e, answers.length < rounds ∧
        answers.map Prod.fst ++ [r] = q.take (answers.length + 1) ∧
        passRounds (recording handler) rounds count (q ++ behind) (s, record) =
          ⟨.error e, r :: q.drop (answers.length + 1) ++ behind ++ kept answers,
            (state, record ++ answered answers ++ [(r, .error e)])⟩ := by
  induction rounds generalizing count q behind s record with
  | zero => exact ⟨[], s, .inl ⟨rfl, by simp [passRounds, released, kept, answered]⟩⟩
  | succ rounds ih =>
    cases q with
    | nil => cases hrounds
    | cons r q =>
      rcases hcall : handler r s with ⟨e | answer, after⟩
      · refine ⟨[], after, .inr ⟨r, e, Nat.succ_pos rounds, rfl, ?_⟩⟩
        rw [List.cons_append, passRounds_of_error (recording_eq hcall record)]
        simp [kept, answered]
      · -- a request that is kept goes behind the others, so this walk does not come to it again
        obtain ⟨answers, state, hwalk⟩ := ih (Nat.le_of_succ_le_succ hrounds)
          (count + (released [(r, answer)]).length) (behind ++ kept [(r, answer)]) after
          (record ++ [(r, .ok answer)])
        refine ⟨(r, answer) :: answers, state, ?_⟩
        rw [List.cons_append, passRounds_of_answer (recording_eq hcall record), List.append_assoc]
        rcases hwalk with ⟨hanswers, hpass⟩ | ⟨r', e, hearly, hanswers, hpass⟩
        · refine .inl ⟨by rw [List.map_cons, hanswers, List.take_succ_cons], ?_⟩
          rw [hpass, released_cons _ answers, kept_cons _ answers]
          simp [answered, Nat.add_assoc]
        · refine .inr ⟨r', e, Nat.succ_lt_succ hearly, ?_, ?_⟩
          · rw [List.map_cons, List.cons_append, hanswers]
            rfl
          · rw [hpass, kept_cons _ answers]
            simp [answered]

/-- **What a pass leaves of the queue**: the requests that it has not looked at, and behind them
those that were kept, in their order. More requests may stand behind those that it could look at. -/
theorem passRounds_append {rounds : Nat} {q : ReleaseQueue} (hrounds : rounds ≤ q.length)
    (count : Nat) (behind : ReleaseQueue) (s : σ) :
    ∃ looked kept, looked ≤ rounds ∧ kept.Sublist (q.take looked) ∧
      (passRounds handler rounds count (q ++ behind) s).queue =
        q.drop looked ++ behind ++ kept := by
  obtain ⟨answers, state, hwalk⟩ := passRounds_walks handler hrounds count behind s []
  have hkept : (kept answers).Sublist (answers.map Prod.fst) := List.filter_sublist.map Prod.fst
  rw [passRounds_recording rounds count (q ++ behind) s []]
  rcases hwalk with ⟨hanswers, hpass⟩ | ⟨r, e, hearly, hanswers, hpass⟩
  · rw [hanswers] at hkept
    exact ⟨rounds, kept answers, Nat.le_refl rounds, hkept, by rw [hpass]⟩
  · have hq : q = answers.map Prod.fst ++ r :: q.drop (answers.length + 1) := by
      rw [List.append_cons, hanswers, List.take_append_drop]
    have hlength : (answers.map Prod.fst).length = answers.length := List.length_map Prod.fst
    refine ⟨answers.length, kept answers, Nat.le_of_lt hearly, ?_, ?_⟩
    · rw [hq, List.take_left' hlength]
      exact hkept
    · have hrest : q.drop answers.length = r :: q.drop (answers.length + 1) := by
        conv_lhs => rw [hq, List.drop_left' hlength]
      rw [hpass, hrest]

/-- A request that is not released is still queued when the pass is over: it stands behind those
that have not been looked at and before those that were kept after it. -/
theorem exists_queue_of_kept {rounds count : Nat} {r : ReleaseRequest} {q : ReleaseQueue}
    {s after : σ} (hcall : handler r s = (.ok false, after)) (hrounds : rounds ≤ q.length) :
    ∃ looked kept, looked ≤ rounds ∧ kept.Sublist (q.take looked) ∧
      (passRounds handler (rounds + 1) count (r :: q) s).queue = q.drop looked ++ r :: kept := by
  obtain ⟨looked, kept, hlooked, hlater, hqueue⟩ := passRounds_append hrounds count [r] after
  refine ⟨looked, kept, hlooked, hlater, ?_⟩
  rw [passRounds_of_kept hcall, hqueue, List.append_assoc, List.singleton_append]

/-! ### All requests -/

/-- **A pass over the queue in order.** The handler gets the requests from the front of the queue,
each of them once and in their order. If it answers for as many as the pass may look at, then the
result is the number of those that were released, and the queue is the rest with what was kept
behind it. If it fails at one of them, then its failure is the result, and the queue is that request,
the rest, and what was kept before the failure. Those that were released and those in the queue are
always the requests that there were. -/
theorem pass_in_order (handler : ReleaseRequest → σ → Except ε Bool × σ) (q : ReleaseQueue)
    (most : Nat) (s : σ) :
    ∃ (answers : List (ReleaseRequest × Bool)) (state : σ),
      (released answers ++ (pass q most handler s).queue).Perm q ∧
      ((answers.length = min most q.length ∧
        answers.map Prod.fst = q.take answers.length ∧
        (pass q most (recording handler) (s, [])).state = (state, answered answers) ∧
        pass q most handler s =
          ⟨.ok (released answers).length, q.drop answers.length ++ kept answers, state⟩) ∨
      ∃ r e, answers.length < min most q.length ∧
        answers.map Prod.fst ++ [r] = q.take (answers.length + 1) ∧
        (pass q most (recording handler) (s, [])).state =
          (state, answered answers ++ [(r, .error e)]) ∧
        pass q most handler s =
          ⟨.error e, r :: q.drop (answers.length + 1) ++ kept answers, state⟩) := by
  have hrounds : min most q.length ≤ q.length := Nat.min_le_right _ _
  obtain ⟨answers, state, hwalk⟩ := passRounds_walks handler hrounds 0 [] s []
  have hrecord : pass q most handler s = ⟨(pass q most (recording handler) (s, [])).result,
      (pass q most (recording handler) (s, [])).queue,
      (pass q most (recording handler) (s, [])).state.1⟩ := passRounds_recording _ 0 q s []
  rw [List.append_nil, ← pass] at hwalk
  refine ⟨answers, state, ?_⟩
  rcases hwalk with ⟨hanswers, hpass⟩ | ⟨r, e, hearly, hanswers, hpass⟩
  · have hlength : answers.length = min most q.length := by
      rw [← List.length_map Prod.fst, hanswers, List.length_take, Nat.min_eq_left hrounds]
    rw [← hlength] at hanswers
    rw [hpass, List.append_nil, Nat.zero_add, ← hlength] at hrecord
    rw [hrecord, hpass]
    refine ⟨released_append_perm ?_, .inl ⟨hlength, hanswers, rfl, rfl⟩⟩
    rw [hanswers, List.take_append_drop]
  · rw [hpass, List.append_nil] at hrecord
    rw [hrecord, hpass]
    refine ⟨released_append_perm ?_, .inr ⟨r, e, hearly, hanswers, rfl, rfl⟩⟩
    rw [List.append_cons, hanswers, List.take_append_drop]

end TwoWayPeg.ReleaseQueue
