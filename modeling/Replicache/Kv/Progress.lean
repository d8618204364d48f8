import Replicache.Kv.Termination

set_option relaxedAutoImplicit false
set_option autoImplicit false

/-!
# Every run without new calls ends

The client of a `WriteTransaction` may keep calling `put`, `has` and `get` while the
transaction is open, so the protocol has infinite runs. Once it stops making new calls,
every run is finite: each call that was made returns, the backend executes or discards what
was placed, and the spawned tasks run. A finite run need not end well: `commit` may stop in
`join_all`, waiting for an acknowledgement that no step will deliver. This file gives one rank
that every step other than a new call lowers, and describes the states in which such a run
stops.

## Main definitions

* `Replicache.Kv.QuietStep` — a step that is not a new call.
* `Replicache.Kv.World.rank` — a bound on the steps left once no new call is made.

## Main results

* `Replicache.Kv.Step.rank_lt` — every step other than a new call lowers the rank.
* `Replicache.Kv.quiet_final` — where a run without new calls stops, every call has
  returned, and either `commit` or `rollback` has returned or the transaction was dropped,
  or `commit` waits in `join_all` for a put of a transaction that aborted, leaving the
  database as it was.
* `Replicache.Kv.quiet_runs_end` — every run without new calls, continued while a step is
  enabled, stops within `rank` steps in such a state.

## Implementation notes

The rank counts three for a call still waiting for the pending lock (it may suspend on its
read, and its put may add an entry), two for a suspended read (its return, and the `error`
event of a failed request reaching the transaction), one for that event while it is on its
way, two per pending entry and three more before `commit` or `rollback` is called (`commit`
places one request per entry), the acknowledgements `join_all` still waits for, the queued
requests, one while the transaction is active, and the spawned tasks and still callable
`tx_callback` closures, which a transaction event trades one for the other.

## References

* `src/kv/idbstore.rs`, lines 219-367.
-/

namespace Replicache.Kv

/-! ## The rank -/

/-- What is left of a call: one segment to a suspended read, then its return and the `error`
event of a failed read. -/
def CallState.rank : CallState → Nat
  | .waiting _ _ => 3
  | .reading _ _ _ => 2
  | .returned _ _ => 0

/-- What is left of the calls made. -/
def CallState.ranks : List CallState → Nat
  | [] => 0
  | s :: l => s.rank + ranks l

/-- What is left of `commit` or `rollback`, with `entries` entries in the pending map. -/
def Op.rank (entries : Nat) : Op → Nat
  | .staging => 2 * entries + 3
  | .awaitPuts order acked => order.length - acked + 2
  | .awaitCommit _ | .awaitAbort => 1
  | .committed _ | .rolledBack _ | .dropped => 0

/-- A `tx_callback` closure counts while an event can still call it. -/
def Handler.rank : Handler → Nat
  | .live => 1
  | .spent | .dropped => 0

/-- The `tx_callback` closures that an event can still call. -/
def World.liveHandlers (w : World) : Nat :=
  (w.handlers .complete).rank + (w.handlers .abort).rank + (w.handlers .error).rank

/-- A bound on the steps left once no new call is made. -/
def World.rank (w : World) : Nat :=
  CallState.ranks w.calls + w.op.rank w.pending.entries.length + w.tx.rank +
    w.tasks.length + w.liveHandlers + if w.bubbling = none then 0 else 1

/-- A step that is not a new call. -/
def QuietStep (w w' : World) : Prop := Step w w' ∧ w'.calls.length = w.calls.length

namespace World

variable (w : World)

/-- An event trades a live closure for a spawned task. -/
lemma fire_tasks_liveHandlers (ev : TxEvent) :
    (w.fire ev).tasks.length + (w.fire ev).liveHandlers = w.tasks.length + w.liveHandlers := by
  by_cases h : w.handlers ev = .live
  · simp only [fire_tasks, fire_handlers, if_pos h, liveHandlers, List.length_append,
      List.length_singleton]
    cases ev <;> simp [Function.update_apply, h, Handler.rank] <;> omega
  · simp only [fire_tasks, fire_handlers, if_neg h, liveHandlers]

@[simp] lemma release_liveHandlers : w.release.liveHandlers = 0 := by
  simp [liveHandlers, release, Handler.rank]

lemma abortTx_tasks_liveHandlers (e : Option DomException) :
    (w.abortTx e).tasks.length + (w.abortTx e).liveHandlers = w.tasks.length + w.liveHandlers := by
  unfold abortTx
  rw [fire_tasks_liveHandlers]
  split_ifs
  · rfl
  · exact fire_tasks_liveHandlers w .error

/-- An event trades a live closure for a spawned task, which leaves the rank alone. -/
lemma rank_fire (ev : TxEvent) : (w.fire ev).rank = w.rank := by
  have := w.fire_tasks_liveHandlers ev
  simp only [rank, liveHandlers, fire_calls, fire_op, fire_pending, fire_tx, fire_bubbling] at *
  omega

/-- An abort of the running transaction discards its queue and ends it. -/
lemma rank_abortTx_lt {w : World} (ha : w.tx.state = .active) (e : Option DomException) :
    (w.abortTx e).rank < w.rank := by
  have := w.tx.rank_abort ha e
  have := w.abortTx_tasks_liveHandlers e
  simp only [World.rank, World.liveHandlers, World.abortTx_calls, World.abortTx_tx,
    World.abortTx_pending, World.abortTx_op, World.abortTx_bubbling] at *
  omega

end World

/-- The ranks of the calls after one of them moves from `y` to `x`. -/
lemma CallState.ranks_set {l : List CallState} {i : Nat} {x y : CallState}
    (h : l[i]? = some y) : ranks (l.set i x) + y.rank = ranks l + x.rank := by
  induction l generalizing i with
  | nil => simp at h
  | cons a l ih =>
    cases i with
    | zero =>
      simp only [List.getElem?_cons_zero, Option.some.injEq] at h
      subst h; simp [ranks]; omega
    | succ i =>
      have := ih (by simpa using h)
      simp only [List.set_cons_succ, ranks]
      omega

/-- The critical section of a call adds at most one entry to the pending map. -/
lemma Call.stage_entries_le (p : Pending) (c : Call) :
    (c.stage p).entries.length ≤ p.entries.length + 1 := by
  cases c with
  | put k v =>
    simp only [Call.stage, Pending.put, AList.insert_entries, List.length_cons]
    exact Nat.succ_le_succ (List.kerase_sublist _ _).length_le
  | has k | get k => exact Nat.le_succ _

lemma Op.rank_ack (n : Nat) (op : Op) : op.ack.rank n ≤ op.rank n := by
  cases op <;> simp only [Op.ack, Op.rank] <;> omega

variable {w w' : World}

/-- **Every step other than a new call lowers the rank.** -/
theorem Step.rank_lt (hs : Step w w') (hlen : w'.calls.length = w.calls.length) :
    w'.rank < w.rank := by
  rcases hs with hs | hs | hs | hs
  · cases hs with
    | invoke c _ => simp at hlen
    | run i c t pl hop hi =>
      have := CallState.ranks_set (x := .returned c (c.answer w.pending w.db pl)) hi
      have := Call.stage_entries_le w.pending c
      simp only [World.rank, World.finish_calls, World.finish_op, World.finish_pending,
        World.finish_tx, World.finish_tasks, World.liveHandlers, World.finish_handlers,
        World.finish_bubbling, hop, Op.rank, CallState.rank] at *
      omega
    | suspend i c t o hop hi =>
      have := CallState.ranks_set (x := .reading c t o) hi
      simp only [World.rank, World.liveHandlers, CallState.rank] at *
      omega
    | respond i c t o hop hi _ hb =>
      have := CallState.ranks_set (x := .returned c (c.answer w.pending w.db (.placed o))) hi
      simp only [World.rank, World.finish_calls, World.finish_op, World.finish_pending,
        World.finish_tx, World.finish_tasks, World.liveHandlers, World.finish_handlers,
        World.finish_bubbling, hb, CallState.rank] at *
      split_ifs <;> omega
  · cases hs with
    | commitPutThrows order i e hi _ _ hperm hlt =>
      have := hperm.length_eq
      simp only [World.rank, World.liveHandlers, World.release_bubbling, World.placePuts_bubbling,
        World.abortTx_bubbling, World.release_calls, World.release_tx,
        World.release_tasks, World.release_handlers, World.placePuts_calls, World.placePuts_tx,
        World.placePuts_tasks, Tx.rank_dropHandlers, Tx.rank_place, List.length_map,
        List.length_take, hi.1, Op.rank, Handler.rank] at *
      omega
    | commitIssue order hi _ _ hperm =>
      have := hperm.length_eq
      simp only [World.rank, World.liveHandlers, World.release_bubbling, World.placePuts_bubbling,
        World.abortTx_bubbling, World.placePuts_calls, World.placePuts_tx,
        World.placePuts_tasks, World.placePuts_handlers, World.placePuts_pending,
        Tx.rank_place, List.length_map, hi.1, Op.rank] at *
      omega
    | rollbackAbort hi _ _ _ ha =>
      have := w.tx.rank_abort ha none
      have := w.abortTx_tasks_liveHandlers none
      simp only [World.rank, World.liveHandlers, World.release_bubbling, World.placePuts_bubbling,
        World.abortTx_bubbling, World.abortTx_calls, World.abortTx_tx,
        World.abortTx_pending, hi.1, Op.rank] at *
      omega
    | putsJoined order hop | commitOutcome order hop _ | rollbackOutcome hop _ =>
      simp only [World.rank, World.liveHandlers, World.release_bubbling, World.placePuts_bubbling,
        World.abortTx_bubbling, World.release_calls, World.release_tx,
        World.release_tasks, World.release_handlers, Tx.rank_dropHandlers, hop, Op.rank,
        Nat.sub_self, Handler.rank]
      omega
    | commitEmpty hi _ | commitStoreThrows _ hi _ _ | rollbackEmpty hi _ | rollbackSettled hi _ _
      | rollbackAbortThrows _ hi _ _ _ _ | drop hi =>
      simp only [World.rank, World.liveHandlers, World.release_bubbling, World.placePuts_bubbling,
        World.abortTx_bubbling, World.release_calls, World.release_tx,
        World.release_tasks, World.release_handlers, Tx.rank_dropHandlers, hi.1, Op.rank,
        Handler.rank]
      omega
  · cases hs with
    | exec r rest _ hr _ =>
      have := w.tx.rank_exec hr
      have := w.op.rank_ack w.pending.entries.length
      simp only [World.rank, World.liveHandlers] at *
      omega
    | execThrows _ _ _ ha | abort _ ha => exact World.rank_abortTx_lt ha _
    | fail r rest e ha hr =>
      calc _ < ({ w with tx := { w.tx with queue := rest } }.fire .error).rank :=
            World.rank_abortTx_lt (by simpa using ha) _
        _ = { w with tx := { w.tx with queue := rest } }.rank := World.rank_fire _ _
        _ < w.rank := by simp [World.rank, World.liveHandlers, Tx.rank, hr]
    | autoCommit ha hr _ =>
      have := w.tx.rank_commit ha hr
      rw [World.rank_fire]
      simp only [World.rank, World.liveHandlers] at *
      omega
    | bubble e hb =>
      have hlt : { w with bubbling := none }.rank < w.rank := by
        simp [World.rank, World.liveHandlers, hb]
      unfold World.bubble
      split_ifs with ha
      · calc _ < ({ w with bubbling := none }.fire .error).rank :=
              World.rank_abortTx_lt (by simpa using ha) _
          _ = { w with bubbling := none }.rank := World.rank_fire _ _
          _ < w.rank := hlt
      · exact (World.rank_fire _ _).trans_lt hlt
  · cases hs with
    | run v hv =>
      have := List.length_erase_of_mem hv
      have := List.length_pos_of_mem hv
      simp only [World.rank, World.liveHandlers]
      omega

/-! ## Where a run without new calls stops -/

/-- Before `commit` or `rollback` no step makes the calls list shorter or longer, except a
new call; afterwards every step is quiet. -/
lemma Step.quiet_of_not_staging (hs : Step w w') (hop : w.op ≠ .staging) : QuietStep w w' := by
  refine ⟨hs, ?_⟩
  rcases hs with hs | hs | hs | hs
  · cases hs <;> simp_all
  · cases hs <;> simp [World.placePuts]
  · cases hs <;> simp
  · cases hs; rfl

/-- A transaction that committed while `commit` waited in `join_all` had every put
acknowledged: it commits only once its queue is empty, and every put executed while it was
active fired its live `onsuccess`. -/
def AckInv (w : World) : Prop :=
  ∀ order n, w.op = .awaitPuts order n → w.tx.state = .committed → n = order.length

lemma AckInv.step (h : AckInv w) (hp : PhaseInv w) (hs : Step w w') : AckInv w' := by
  intro order n hop hc
  rcases hs with hs | hs | hs | hs
  · cases hs <;> simp_all
  · cases hs <;> simp_all [World.placePuts]
  · cases hs with
    | exec _ _ ha => simp [ha] at hc
    | autoCommit ha hq _ =>
      simp only [World.fire_op] at hop
      simp only [PhaseInv, hop] at hp
      have hd := (hp.2.2.2.1 ha).1
      rw [hq] at hd
      have := List.drop_eq_nil_iff.1 (List.map_eq_nil_iff.1 hd.symm)
      exact le_antisymm hp.2.2.1 this
    | bubble e _ =>
      rw [World.bubble_tx] at hc
      split_ifs at hc
      · simp at hc
      · exact h order n (by simpa using hop) hc
    | _ => simp at hc
  · cases hs; exact h order n hop hc

lemma ackInv_reachable {S : Contents} (h : Reachable S w) : AckInv w := by
  induction h with
  | refl => intro _ _ h; cases h
  | tail hr hs ih => exact ih.step (commitInv_reachable hr).phase hs

/-- Before `commit` or `rollback`, some call can always go on, or the transaction can be
dropped. -/
lemma exists_quietStep_of_staging (hl : LockInv w) (hop : w.op = .staging) :
    ∃ w', QuietStep w w' := by
  by_cases hidle : ∀ s ∈ w.calls, s.isReturned
  · exact ⟨_, .adapter (.drop w ⟨hop, hidle⟩), by simp⟩
  push_neg at hidle
  obtain ⟨s, hs, hns⟩ := hidle
  obtain ⟨i, hi⟩ := List.mem_iff_getElem?.1 hs
  cases hlock : w.lock with
  | some j =>
    obtain ⟨c, t, o, hr⟩ := hl.held j hlock
    cases hb : w.bubbling with
    | some e => exact ⟨_, .backend (.bubble w e hb), by simp⟩
    | none => exact ⟨_, .call (.respond w j c t o hop hr hlock hb), by simp⟩
  | none =>
    cases s with
    | waiting c t =>
      exact ⟨_, .call (.run w i c t (.throws ⟨"", ""⟩) hop hi hlock (by cases c <;> rfl)),
        by simp⟩
    | reading c t o => exact absurd hi (hl.not_reading hlock)
    | returned => simp [CallState.isReturned] at hns

/-- A reachable state with no quiet step left: every call returned, and the operation
returned, or `commit` waits on an aborted transaction. -/
lemma final_of_quiet_stuck {S : Contents} (h : Reachable S w) (hq : ∀ w', ¬ QuietStep w w') :
    (∀ s ∈ w.calls, s.isReturned) ∧
      (w.op.Done ∨ w.tx.state = .aborted ∧ w.db = S ∧
        ∃ order n, w.op = .awaitPuts order n ∧ n < order.length) := by
  have hop : w.op ≠ .staging := fun hop =>
    let ⟨w', hs⟩ := exists_quietStep_of_staging (lockInv_reachable h) hop
    hq w' hs
  have hstuck : w.Stuck := fun w' hs => hq w' (hs.quiet_of_not_staging hop)
  obtain ⟨hna, -, -, hfin⟩ := (stuck_iff h).1 hstuck
  refine ⟨returned_of_not_staging h hop, hfin.imp_right ?_⟩
  rintro ⟨order, n, hon, hn⟩
  have hc : w.tx.state ≠ .committed := fun hc => hn (ackInv_reachable h order n hon hc)
  have hp := (commitInv_reachable h).phase
  simp only [PhaseInv, hon] at hp
  refine ⟨?_, (commitInv_reachable h).db.of_not_committed hc, order, n, hon,
    lt_of_le_of_ne hp.2.2.1 hn⟩
  cases hs : w.tx.state <;> simp_all

/-- **Where a run without new calls stops.** In a reachable state from which no step other
than a new call is enabled, every call made has returned, and either `commit` or `rollback`
has returned or the transaction was dropped, or `commit` waits in `join_all` for a put that
was never acknowledged, of a transaction that aborted and left the database holding `S`. -/
theorem quiet_final {S : Contents} (h : Reachable S w) (hq : ∀ w', ¬ QuietStep w w') :
    (∀ s ∈ w.calls, s.isReturned) ∧
      (w.op.Done ∨ w.tx.state = .aborted ∧ w.db = S ∧
        ∃ order n, w.op = .awaitPuts order n ∧ n < order.length) :=
  final_of_quiet_stuck h hq

/-- The run stops where `failedPutRun` ends: `commit` waits in `join_all` for the put whose
request failed, on the aborted transaction, and the store is still empty. -/
theorem quiet_final_failedPut :
    Reachable (fun _ => none) (World.trace (fun _ => none) failedPutRun) ∧
      (∀ w', ¬ QuietStep (World.trace (fun _ => none) failedPutRun) w') ∧
      ((∀ s ∈ (World.trace (fun _ => none) failedPutRun).calls, s.isReturned) ∧
        ((World.trace (fun _ => none) failedPutRun).op.Done ∨
          (World.trace (fun _ => none) failedPutRun).tx.state = .aborted ∧
          (World.trace (fun _ => none) failedPutRun).db = (fun _ => none) ∧
          ∃ order n, (World.trace (fun _ => none) failedPutRun).op = .awaitPuts order n ∧
            n < order.length)) :=
  have h := World.reachable_trace (by decide)
  have hop : (World.trace (fun _ => none) failedPutRun).op = .awaitPuts [⟨"k", [1]⟩] 0 := by
    decide
  have hq : ∀ w', ¬ QuietStep (World.trace (fun _ => none) failedPutRun) w' := fun w' hs =>
    (stuck_iff h).2 ⟨by decide, by decide, by decide, .inr ⟨_, 0, hop, by decide⟩⟩ w' hs.1
  ⟨h, hq, quiet_final h hq⟩

/-- **Every run without new calls ends.** Whatever the backend and the scheduler do, every
run from a reachable state that makes no new call, continued while a step is enabled, stops
within `w.rank` steps in all. Where it stops every call has returned, and either `commit` or
`rollback` has returned or the transaction was dropped, or `commit` waits in `join_all`
forever for a put of a transaction that aborted, with the database holding `S`. -/
theorem quiet_runs_end {S : Contents} (h : Reachable S w) {ws : List World}
    (hc : List.Chain QuietStep w ws) :
    ∃ ws' u, List.Chain QuietStep w (ws ++ ws') ∧ (w :: (ws ++ ws')).getLast? = some u ∧
      (ws ++ ws').length ≤ w.rank ∧ (∀ w', ¬ QuietStep u w') ∧
      (∀ s ∈ u.calls, s.isReturned) ∧
      (u.op.Done ∨ u.tx.state = .aborted ∧ u.db = S ∧
        ∃ order n, u.op = .awaitPuts order n ∧ n < order.length) := by
  have hR : ∀ a b, QuietStep a b → b.rank < a.rank := fun _ _ hs => hs.1.rank_lt hs.2
  obtain ⟨ws', u, hc', hu, hq⟩ := chain_extends_to_end hR hc
  have hr : Reachable S u := h.trans ((reflTransGen_of_chain hc' hu).mono fun _ _ hs => hs.1)
  exact ⟨ws', u, hc', hu, chain_length_le_rank hR hc', hq, final_of_quiet_stuck hr hq⟩

/-- The transaction of a store with no key, from `WriteTransaction::new`. -/
theorem quiet_runs_end_init :
    ∃ ws' u, List.Chain QuietStep (World.init (fun _ => none)) ([] ++ ws') ∧
      (World.init (fun _ => none) :: ([] ++ ws')).getLast? = some u ∧
      ([] ++ ws').length ≤ (World.init (fun _ => none)).rank ∧ (∀ w', ¬ QuietStep u w') ∧
      (∀ s ∈ u.calls, s.isReturned) ∧
      (u.op.Done ∨ u.tx.state = .aborted ∧ u.db = (fun _ => none) ∧
        ∃ order n, u.op = .awaitPuts order n ∧ n < order.length) :=
  quiet_runs_end .refl .nil

end Replicache.Kv
