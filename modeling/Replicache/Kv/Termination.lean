import Replicache.Kv.Commit
import Replicache.Kv.StorePut

set_option relaxedAutoImplicit false
set_option autoImplicit false

/-!
# How `commit`, `rollback` and `IdbStore::put` end

`commit` registers only an `onsuccess` listener on each of its put requests, and
`join_all(puts)` completes only when every listener has sent. A request that fails fires its
`error` event instead, so its oneshot never receives, and since the closure lives in
`commit`'s `callbacks` vector the receiver is never cancelled either: `commit` waits forever.
`IdbStore::put` registers only `oncomplete` on its transaction, so it waits forever on a
transaction that aborts.

## Main definitions

* `Replicache.Kv.OwnedInv` — while the adapter owns the `tx_callback` closures, a finished
  transaction has left its outcome in the cell or in a pending task.
* `Replicache.Kv.World.Stuck` — no step is enabled.

## Main results

* `Replicache.Kv.commit_waits_of_unacked` — once a put of `commit` is missing its
  acknowledgement and the transaction has finished, `commit` never returns.
* `Replicache.Kv.stuck_iff` — the reachable states with no enabled step: the operation
  returned, or `commit` waits in `join_all` for a put that was never acknowledged.
* `Replicache.Kv.commit_and_put_wait_after_failed_request`,
  `Replicache.Kv.store_put_override_waits` — runs that show each behaviour.

## References

* `src/kv/idbstore.rs`, lines 90-118 and 301-340.
* `src/kv/mod.rs`, lines 22-40.
-/

namespace Replicache.Kv

open World

variable {w w' : World} {order : List (Σ _ : String, Bytes)} {n : Nat}

/-- While `commit` waits in `join_all` for a put that was not acknowledged and the
transaction has finished, no step moves `commit` or the transaction. -/
lemma Step.awaitPuts_stays (hs : Step w w') (hop : w.op = .awaitPuts order n)
    (hn : n ≠ order.length) (ha : w.tx.state ≠ .active) :
    w'.op = w.op ∧ w'.tx.state = w.tx.state := by
  rcases hs with hs | hs | hs | hs
  · cases hs <;> simp_all
  · cases hs with
    | putsJoined _ h =>
      obtain ⟨rfl, rfl⟩ : _ ∧ _ := Op.awaitPuts.inj (h.symm.trans hop)
      exact absurd rfl hn
    | _ => simp_all [Idle]
  · cases hs <;> simp_all [World.bubble_tx]
  · cases hs; exact ⟨rfl, rfl⟩

/-- **`commit` never returns once a put went unacknowledged.** When the transaction has
finished while `commit` waits in `join_all` with fewer acknowledgements than puts, every
later state has `commit` waiting there still. -/
theorem commit_waits_of_unacked (hop : w.op = .awaitPuts order n) (hn : n ≠ order.length)
    (ha : w.tx.state ≠ .active) (hs : Relation.ReflTransGen Step w w') :
    w'.op = .awaitPuts order n := by
  suffices w'.op = w.op ∧ w'.tx.state = w.tx.state from this.1.trans hop
  induction hs with
  | refl => exact ⟨rfl, rfl⟩
  | tail _ hs ih =>
    obtain ⟨h₁, h₂⟩ := hs.awaitPuts_stays (ih.1.trans hop) hn (ih.2 ▸ ha)
    exact ⟨h₁.trans ih.1, h₂.trans ih.2⟩

/-! ## Where the protocol can stop -/

/-- `Op.ack` keeps whether the adapter's operation has returned. -/
@[simp] lemma Op.ack_done (op : Op) : op.ack.Done ↔ op.Done := by
  cases op <;> rfl

/-- Firing an event leaves the other events' closures alone. -/
lemma World.fire_handlers_of_ne (w : World) {ev ev' : TxEvent} (h : ev' ≠ ev) :
    (w.fire ev).handlers ev' = w.handlers ev' := by
  simp only [World.fire_handlers]
  split_ifs <;> simp [Function.update_noteq h]

/-- Firing an event whose closure is live spawns a task. -/
lemma World.fire_tasks_ne_nil (w : World) {ev : TxEvent} (h : w.handlers ev = .live) :
    (w.fire ev).tasks ≠ [] := by
  simp [h]

/-- Aborting a transaction whose `onabort` closure is live spawns a task. -/
lemma World.abortTx_tasks_ne_nil (w : World) (e : Option DomException)
    (h : w.handlers .abort = .live) : (w.abortTx e).tasks ≠ [] := by
  unfold World.abortTx
  apply World.fire_tasks_ne_nil
  split_ifs
  · exact h
  · exact (w.fire_handlers_of_ne (by decide)).trans h

/-- While `commit` or `rollback` has not returned and the transaction was not dropped, the
adapter owns the `tx_callback` closures: a running transaction has fired none of its events,
and a finished one has left its outcome in the cell or in a pending task. -/
structure OwnedInv (w : World) : Prop where
  live : w.tx.state = .active → ¬ w.op.Done → ∀ ev, w.handlers ev = .live
  fired : w.tx.state ≠ .active → ¬ w.op.Done → w.cell ≠ .open ∨ w.tasks ≠ []

/-- **`OwnedInv` is preserved by every step.** -/
theorem OwnedInv.step (h : OwnedInv w) (hc : CellInv w) (hs : Step w w') : OwnedInv w' := by
  rcases hs with hs | hs | hs | hs
  · cases hs <;> exact ⟨h.live, h.fired⟩
  · cases hs with
    | commitIssue _ hi _ ha _ =>
      exact ⟨fun ha' _ => h.live (by simpa using ha') (by simp [hi.1, Op.Done]),
        fun ha' => absurd ha (by simpa using ha')⟩
    | putsJoined _ hop =>
      exact ⟨fun ha _ => h.live ha (by simp [hop, Op.Done]),
        fun ha _ => h.fired ha (by simp [hop, Op.Done])⟩
    | rollbackAbort hi _ _ _ ha =>
      exact ⟨fun ha' => absurd ha' (by simp),
        fun _ _ => .inr ((w.abortTx_tasks_ne_nil none (h.live ha (by simp [hi.1, Op.Done]) _)))⟩
    | _ =>
      exact ⟨fun _ hd => (hd (by simp [Op.Done])).elim, fun _ hd => (hd (by simp [Op.Done])).elim⟩
  · cases hs with
    | exec =>
      exact ⟨fun ha hd => h.live ha (by simpa using hd),
        fun ha hd => h.fired ha (by simpa using hd)⟩
    | execThrows _ _ _ ha | abort _ ha =>
      exact ⟨fun ha' => absurd ha' (by simp),
        fun _ hd => .inr (w.abortTx_tasks_ne_nil _ (h.live ha (by simpa using hd) _))⟩
    | fail r rest e ha =>
      refine ⟨fun ha' => absurd ha' (by simp), fun _ hd => .inr (World.abortTx_tasks_ne_nil _ _ ?_)⟩
      exact (World.fire_handlers_of_ne _ (by decide)).trans (h.live ha (by simpa using hd) _)
    | autoCommit ha =>
      exact ⟨fun ha' => absurd ha' (by simp),
        fun _ hd => .inr (World.fire_tasks_ne_nil _ (h.live ha (by simpa using hd) _))⟩
    | bubble e _ =>
      by_cases ha : w.tx.state = .active
      · refine ⟨fun ha' => absurd ha' (by simp [World.bubble_tx, ha]), fun _ hd => .inr ?_⟩
        simp only [World.bubble, if_pos ha]
        exact World.abortTx_tasks_ne_nil _ _ ((World.fire_handlers_of_ne _ (by decide)).trans
          (h.live ha (by simpa using hd) _))
      · refine ⟨fun ha' => by simp [World.bubble_tx, ha] at ha', fun _ hd => ?_⟩
        rcases h.fired ha (by simpa using hd) with hc | ht
        · exact .inl (by simpa using hc)
        · refine .inr ?_
          simp only [World.bubble, if_neg ha, World.fire_tasks]
          split_ifs <;> simp [ht]
  · cases hs with
    | run v hv =>
      exact ⟨h.live, fun _ _ => .inl fun ho => hc.not_open (ho ▸ hv)⟩

lemma ownedInv_reachable {S : Contents} (h : Reachable S w) : OwnedInv w := by
  induction h with
  | refl => exact ⟨fun _ _ _ => rfl, fun ha => absurd rfl ha⟩
  | tail hr hs ih => exact ih.step (cellInv_reachable hr) hs

/-- `commit`, `rollback` and the drop take an idle transaction, and calls are made only
before them, so afterwards every call has returned. -/
lemma Step.returned_of_not_staging (hs : Step w w')
    (h : w.op ≠ .staging → ∀ s ∈ w.calls, s.isReturned) :
    w'.op ≠ .staging → ∀ s ∈ w'.calls, s.isReturned := by
  intro hop'
  rcases hs with hs | hs | hs | hs
  · cases hs <;> simp_all
  · cases hs with
    | putsJoined _ hop | commitOutcome _ hop _ | rollbackOutcome hop _ =>
      simpa using h (by simp [hop])
    | commitEmpty hi _ | commitStoreThrows _ hi _ _ | commitPutThrows _ _ _ hi _ _ _ _
      | commitIssue _ hi _ _ _ | rollbackEmpty hi _ | rollbackSettled hi _ _
      | rollbackAbortThrows _ hi _ _ _ _ | rollbackAbort hi _ _ _ _ | drop hi =>
      simpa [World.placePuts] using hi.2
  · cases hs with
    | exec => exact h (by cases hop : w.op <;> simp_all [Op.ack])
    | _ => simpa using h (by simpa using hop')
  · cases hs; exact h hop'

lemma returned_of_not_staging {S : Contents} (h : Reachable S w) :
    w.op ≠ .staging → ∀ s ∈ w.calls, s.isReturned := by
  induction h with
  | refl => simp
  | tail _ hs ih => exact hs.returned_of_not_staging ih

/-- No step is enabled: the calls, the adapter, the backend and the spawned tasks all wait. -/
def World.Stuck (w : World) : Prop := ∀ w', ¬ Step w w'

namespace World.Stuck

/-- With no step left, no failed read's `error` event is on its way. -/
lemma bubbling_eq_none (hst : w.Stuck) : w.bubbling = none := by
  cases hb : w.bubbling with
  | none => rfl
  | some e => exact absurd (.backend (.bubble w e hb)) (hst _)

/-- With no step left, every spawned task has run. -/
lemma tasks_eq_nil (hst : w.Stuck) : w.tasks = [] := by
  cases hq : w.tasks with
  | nil => rfl
  | cons v _ => exact absurd (.task (.run w v (by simp [hq]))) (hst _)

/-- With no step left, the transaction has finished: an active one can fail its first queued
request, abort on its own, or answer the read that holds the lock. -/
lemma not_active (hst : w.Stuck) {S : Contents} (h : Reachable S w) :
    w.tx.state ≠ .active := by
  intro ha
  have hb := hst.bubbling_eq_none
  cases hq : w.tx.queue with
  | cons r rest => exact hst _ (.backend (.fail w r rest ⟨"AbortError", ""⟩ ha hq hb))
  | nil =>
    cases hl : w.lock with
    | none => exact hst _ (.backend (.abort w ⟨"AbortError", ""⟩ ha hl hb))
    | some i =>
      obtain ⟨c, t, o, hi⟩ := (lockInv_reachable h).held i hl
      have hop : w.op = .staging := by
        by_contra hop
        have := returned_of_not_staging h hop _ (List.mem_iff_getElem?.2 ⟨i, hi⟩)
        simp [CallState.isReturned] at this
      exact hst _ (.call (.respond w i c t o hop hi hl hb))

end World.Stuck

/-- **The only hang is `commit` waiting for an unacknowledged put.** A reachable state has no
enabled step exactly when the transaction has finished, every spawned task has run, and
either `commit` or `rollback` has returned or the transaction was dropped, or `commit` waits
in `join_all` with fewer acknowledgements than puts. -/
theorem stuck_iff {S : Contents} (h : Reachable S w) :
    w.Stuck ↔ w.tx.state ≠ .active ∧ w.tasks = [] ∧ w.bubbling = none ∧
      (w.op.Done ∨ ∃ order n, w.op = .awaitPuts order n ∧ n ≠ order.length) := by
  constructor
  · intro hst
    have ha := hst.not_active h
    have ht := hst.tasks_eq_nil
    refine ⟨ha, ht, hst.bubbling_eq_none, ?_⟩
    have hc (hd : ¬ w.op.Done) : w.cell ≠ .open :=
      ((ownedInv_reachable h).fired ha hd).resolve_right (by simp [ht])
    cases hop : w.op with
    | staging => exact absurd (.call (.invoke w (.has "") hop)) (hst _)
    | awaitPuts order n =>
      exact .inr ⟨order, n, rfl, fun hn => hst _ (.adapter (.putsJoined w order (hn ▸ hop)))⟩
    | awaitCommit order =>
      exact absurd (.adapter (.commitOutcome w order hop (hc (by simp [hop, Op.Done])))) (hst _)
    | awaitAbort =>
      exact absurd (.adapter (.rollbackOutcome w hop (hc (by simp [hop, Op.Done])))) (hst _)
    | committed | rolledBack | dropped => exact .inl (by simp [Op.Done])
  · rintro ⟨ha, ht, hb, hop⟩ w' hs
    have hni : w.op ≠ .staging := by
      rcases hop with hop | ⟨o, n, hop, -⟩ <;> intro h' <;> simp [h', Op.Done] at hop
    rcases hs with hs | hs | hs | hs
    · cases hs <;> contradiction
    · cases hs
      case putsJoined order h' =>
        rcases hop with hop | ⟨o, n, hop, hn⟩
        · simp [h', Op.Done] at hop
        · obtain ⟨rfl, rfl⟩ : _ ∧ _ := Op.awaitPuts.inj (h'.symm.trans hop)
          exact hn rfl
      all_goals first
        | exact hni (by assumption : w.Idle).1
        | rcases hop with hop | ⟨o, n, hop, -⟩ <;> simp_all [Op.Done]
    · cases hs <;> simp_all
    · cases hs with | run v hv => simp [ht] at hv

/-- One put staged on an empty store and issued by `commit`; the request fails with a
`UnknownError`, the backend fires `error` and `abort`, and both spawned tasks run. -/
def failedPutRun : List Action :=
  [.invoke (.put "k" [1]), .run 0 (.placed .success), .commitIssue [⟨"k", [1]⟩],
    .fail ⟨"UnknownError", ""⟩, .runTask .errored, .runTask .aborted]

/-- After a failed put request the backend has delivered every event and every spawned task
has run, yet `commit` waits in `join_all` forever; `IdbStore::put` of the same entry, whose
request fails the same way, waits on `txdonereceiver` forever. -/
theorem commit_and_put_wait_after_failed_request :
    (trace (fun _ => none) failedPutRun).tx.state = .aborted ∧
      (trace (fun _ => none) failedPutRun).tasks = [] ∧
      (∀ w', Relation.ReflTransGen Step (trace (fun _ => none) failedPutRun) w' →
        w'.op = .awaitPuts [⟨"k", [1]⟩] 0) ∧
      ∀ w', Relation.ReflTransGen (IdbStore.PutStep "k" [1])
        (IdbStore.PutWorld.trace "k" [1] (fun _ => none)
          [.issue, .fail ⟨"UnknownError", ""⟩, .requestSettled]) w' →
        w'.pc.waiting :=
  ⟨by decide, by decide,
    fun _ hs => commit_waits_of_unacked (by decide) (by decide) (by decide) hs,
    fun _ hs => IdbStore.put_waits_of_aborted (IdbStore.PutWorld.reachable_trace (by decide))
      (by decide) (by decide) hs⟩

/-- The transaction-level error of the runs below: the backend aborts the transaction after
its put request succeeded. -/
def quotaExceeded : DomException := ⟨"QuotaExceededError", ""⟩

/-- The trait's default `put` (write, stage one put, commit) returns `Err` when the
transaction aborts after the put request succeeded; `IdbStore::put`, on the same request
outcome and the same abort, never returns. -/
theorem store_put_override_waits :
    (trace (fun _ => none) [.invoke (.put "k" [1]), .run 0 (.placed .success),
        .commitIssue [⟨"k", [1]⟩], .exec, .putsJoined, .abort quotaExceeded, .runTask .aborted,
        .commitOutcome]).op = .committed (.error (.str quotaExceeded.debug)) ∧
      ∀ w', Relation.ReflTransGen (IdbStore.PutStep "k" [1])
        (IdbStore.PutWorld.trace "k" [1] (fun _ => none)
          [.issue, .exec, .requestSettled, .abort quotaExceeded]) w' →
        w'.pc.waiting :=
  ⟨by decide, fun _ hs => IdbStore.put_waits_of_aborted
    (IdbStore.PutWorld.reachable_trace (by decide)) (by decide) (by decide) hs⟩

end Replicache.Kv
