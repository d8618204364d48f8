import Replicache.Kv.Outcome
import Replicache.Kv.Calls
import Replicache.Kv.Run

set_option relaxedAutoImplicit false
set_option autoImplicit false

/-!
# What a write transaction does to the database

`WriteTransaction::commit` writes the pending map to the backend at the end: one
`put_with_key` per entry, in the map's iteration order, then a wait for the transaction's
outcome. Nothing else in the adapter writes. This file follows the transaction's writes
through every run and derives what the database holds after `commit`, after `rollback`, and
after the transaction is dropped.

## Main definitions

* `Replicache.Kv.PhaseInv` — what the transaction has queued and executed at each point of
  the adapter's operations.
* `Replicache.Kv.DbInv` — the database holds `S` until the transaction commits, and `S` with
  the transaction's writes afterwards.

## Main results

* `Replicache.Kv.commitInv_reachable` — `PhaseInv`, `DbInv` and the invariants of the cell
  and the lock hold in every reachable state.
* `Replicache.Kv.db_all_or_nothing` — in every reachable state the database holds `S` or
  `S` with all the staged puts: never a part of the transaction's writes.
* `Replicache.Kv.db_of_commit_ok` — after `commit` returns `Ok(())` the database holds the
  staged puts replayed in staging order over `S`, whatever order `commit` wrote them in.
* `Replicache.Kv.commit_err_keeps_store` — after `commit` returns `Err` the database holds
  `S` in every later state.
* `Replicache.Kv.staged_invisible_until_commit` — until `commit` is called no put request
  is placed and other transactions read `S`; after `rollback` or a drop the database holds
  `S` for good.

## References

* `src/kv/idbstore.rs`, lines 301-367.
-/

namespace Replicache.Kv

open World

/-- What the transaction has queued and executed at each point of `commit` and `rollback`. -/
def PhaseInv (w : World) : Prop :=
  match w.op with
  | .staging => w.tx.queue = [] ∧ w.tx.writes = [] ∧ w.placed = [] ∧
      w.pending = Pending.ofStaged w.staged
  | .awaitPuts order n => order.Perm (Pending.ofStaged w.staged).entries ∧ w.placed = order ∧
      n ≤ order.length ∧
      (w.tx.state = .active →
        w.tx.queue = (order.drop n).map (.ofEntry .live) ∧ w.tx.writes = order.take n) ∧
      (w.tx.state = .committed → w.tx.writes = order)
  | .awaitCommit order => order.Perm (Pending.ofStaged w.staged).entries ∧ w.placed = order ∧
      (w.tx.state = .active → w.tx.queue = [] ∧ w.tx.writes = order) ∧
      (w.tx.state = .committed → w.tx.writes = order)
  | .committed (.ok _) => (w.staged = [] ∧ w.tx.queue = [] ∧ w.tx.writes = []) ∨
      (w.tx.state = .committed ∧ w.tx.writes.Perm (Pending.ofStaged w.staged).entries)
  | .committed (.error _) =>
      (w.tx.state = .active →
        w.tx.writes = [] ∧ ∀ r ∈ w.tx.queue, r.onSuccess ≠ .live) ∧
      (w.tx.state = .committed → w.tx.writes = [])
  | _ => w.tx.queue = [] ∧ w.tx.writes = [] ∧ w.placed = []

/-- The database holds `S` until the transaction commits, then `S` with its writes. -/
def DbInv (S : Contents) (w : World) : Prop :=
  w.db = S.putAll (if w.tx.state = .committed then w.tx.writes else [])

/-- The head of the requests left after `n` acknowledgements is the `n`-th entry. -/
lemma drop_map_eq_cons {order : List (Σ _ : String, Bytes)} {n : Nat} {r : PutRequest}
    {rest : List PutRequest} (h : (order.drop n).map (.ofEntry .live) = r :: rest) :
    ∃ hn : n < order.length, r = .ofEntry .live order[n] ∧
      rest = (order.drop (n + 1)).map (.ofEntry .live) := by
  have hn : n < order.length := by
    by_contra hn
    simp [List.drop_eq_nil_of_le (Nat.le_of_not_lt hn)] at h
  rw [List.drop_eq_getElem_cons hn, List.map_cons, List.cons.injEq] at h
  exact ⟨hn, h.1.symm, h.2.symm⟩

namespace PhaseInv

variable {w : World}

/-- `PhaseInv` only looks at the adapter's position, the transaction, the placed requests,
the staged puts and the pending map. -/
lemma frame (h : PhaseInv w) {w' : World} (h₁ : w'.op = w.op) (h₂ : w'.tx = w.tx)
    (h₃ : w'.placed = w.placed) (h₄ : w'.staged = w.staged) (h₅ : w'.pending = w.pending) :
    PhaseInv w' := by
  simp only [PhaseInv, h₁, h₂, h₃, h₄, h₅]; exact h

/-- An abort discards the transaction's writes and requests, whatever the adapter does. -/
lemma of_abort (h : PhaseInv w) {w' : World} (h₁ : w'.op = w.op) (h₃ : w'.placed = w.placed)
    (h₄ : w'.staged = w.staged) (h₅ : w'.pending = w.pending) (hq : w'.tx.queue = [])
    (hw : w'.tx.writes = []) (hs : w'.tx.state = .aborted) (ha : w.tx.state = .active) :
    PhaseInv w' := by
  unfold PhaseInv at h ⊢
  rw [h₁, h₃, h₄, h₅, hq, hw, hs]
  split at h <;> simp_all

/-- The calls only change the pending map and the staged puts, together. -/
lemma call_step (hl : LockInv w) (h : PhaseInv w) {w' : World} (hs : CallStep w w') :
    PhaseInv w' := by
  cases hs with
  | invoke c _ => exact h.frame rfl rfl rfl rfl rfl
  | run i c t pl hop _ _ _ =>
    simp only [PhaseInv, hop] at h
    simp only [PhaseInv, World.finish_op, hop, World.finish_tx, World.finish_placed,
      World.finish_pending]
    exact ⟨h.1, h.2.1, h.2.2.1, World.pending_finish_ofStaged h.2.2.2 i c t pl⟩
  | suspend => exact h.frame rfl rfl rfl rfl rfl
  | respond i c t o _ hr _ =>
    refine h.frame (by simp) (by simp) (by simp) ?_ (by simp)
    rw [World.staged_finish, hl.staged?_eq_none hr]
    split <;> simp [World.staged]

/-- The segments of `commit` and `rollback`. -/
lemma adapter_step (hc : CellInv w) (h : PhaseInv w) {w' : World} (hs : AdapterStep w w') :
    PhaseInv w' := by
  cases hs with
  | commitEmpty hi hp =>
    simp only [PhaseInv, hi.1] at h
    obtain ⟨hq, hw, -, hpe⟩ := h
    rw [hp] at hpe
    simp only [PhaseInv]
    exact .inl ⟨by simpa [World.staged] using Pending.ofStaged_eq_empty.1 hpe.symm,
      by simp [hq], by simp [hw]⟩
  | commitStoreThrows msg hi _ hna =>
    simp only [PhaseInv, hi.1] at h
    simp only [PhaseInv]
    exact ⟨fun ha => absurd (by simpa using ha) hna, fun _ => by simp [h.2.1]⟩
  | commitPutThrows order i e hi _ _ _ _ =>
    simp only [PhaseInv, hi.1] at h
    simp only [PhaseInv]
    exact ⟨fun _ => ⟨by simp [h.2.1], fun r hr => by simp [Tx.dropHandlers_onSuccess _ hr]⟩,
      fun _ => by simp [h.2.1]⟩
  | commitIssue order hi _ ha hperm =>
    simp only [PhaseInv, hi.1] at h
    obtain ⟨hq, hw, hpl, hpe⟩ := h
    simp only [PhaseInv, World.placePuts]
    refine ⟨by simpa [World.staged, hpe] using hperm, by simp [hpl], Nat.zero_le _,
      fun _ => ⟨by simp [hq], by simp [hw]⟩, fun hcm => ?_⟩
    simp [ha] at hcm
  | putsJoined order hop =>
    simp only [PhaseInv, hop] at h ⊢
    obtain ⟨h₁, h₂, -, h₄, h₅⟩ := h
    exact ⟨h₁, h₂, fun ha => by simpa using h₄ ha, h₅⟩
  | commitOutcome order hop hne =>
    simp only [PhaseInv, hop] at h
    obtain ⟨h₁, -, -, h₄⟩ := h
    have hna := hc.not_active hne
    cases he : w.tx.error with
    | some e =>
      have := hc.error (by simp [he])
      simp only [PhaseInv, commitResult, he, World.release_tx, Tx.dropHandlers_state]
      exact ⟨fun ha => absurd ha hna, fun hcm => by simp_all⟩
    | none =>
      by_cases hcm : w.cell = .committed
      · have := hc.txState_of_committed hcm
        simp only [PhaseInv, commitResult, he, hcm, if_true, World.release_tx,
          Tx.dropHandlers_state, Tx.dropHandlers_writes]
        exact .inr ⟨this, by simpa [World.staged, h₄ this] using h₁⟩
      · have := hc.txState_of_ne_committed hne hcm
        simp only [PhaseInv, commitResult, he, hcm, if_false, World.release_tx,
          Tx.dropHandlers_state]
        exact ⟨fun ha => absurd ha hna, fun hcm' => by simp_all⟩
  | rollbackEmpty hi _ | rollbackSettled hi _ _ | rollbackAbortThrows _ hi _ _ _ _
    | rollbackAbort hi _ _ _ _ | drop hi =>
    simp only [PhaseInv, hi.1] at h
    simp only [PhaseInv]
    exact ⟨by simp [h.1], by simp [h.2.1], by simp [h.2.2.1]⟩
  | rollbackOutcome hop _ =>
    simp only [PhaseInv, hop] at h
    simp only [PhaseInv]
    exact ⟨by simp [h.1], by simp [h.2.1], by simp [h.2.2]⟩

/-- The head request executes with a live listener only while `commit` waits for its puts. -/
lemma of_exec (h : PhaseInv w) {r : PutRequest} {rest : List PutRequest}
    (ha : w.tx.state = .active) (hq : w.tx.queue = r :: rest) (hl : r.onSuccess = .live) :
    PhaseInv { w with tx := w.tx.exec r rest, op := w.op.ack } := by
  cases hop : w.op
  case awaitPuts order n =>
    simp only [PhaseInv, hop] at h
    obtain ⟨h₁, h₂, -, h₄, -⟩ := h
    obtain ⟨hq', hw'⟩ := h₄ ha
    obtain ⟨hn, rfl, rfl⟩ := drop_map_eq_cons (hq'.symm.trans hq)
    simp only [PhaseInv, hop, Op.ack, Tx.exec_state, Tx.exec_queue, Tx.exec_writes]
    refine ⟨h₁, h₂, hn, fun _ => ⟨by simp, ?_⟩, fun hcm => by simp [ha] at hcm⟩
    rw [hw', List.take_succ, List.getElem?_eq_getElem hn, PutRequest.entry_ofEntry]
    rfl
  case committed res =>
    cases res with
    | ok =>
      simp only [PhaseInv, hop] at h
      rcases h with h | h
      · exact absurd (h.2.1.symm.trans hq) (by simp)
      · simp [ha] at h
    | error =>
      simp only [PhaseInv, hop] at h
      exact absurd hl ((h.1 ha).2 r (by simp [hq]))
  all_goals simp only [PhaseInv, hop] at h; simp_all

/-- The transaction commits on its own once no request is left. -/
lemma of_autoCommit (h : PhaseInv w) (ha : w.tx.state = .active) (hq : w.tx.queue = [])
    (d : Contents) : PhaseInv ({ w with db := d, tx := w.tx.commit }.fire .complete) := by
  refine (show PhaseInv { w with tx := w.tx.commit } from ?_).frame (by simp) (by simp)
    (by simp) (by simp [World.staged]) (by simp)
  cases hop : w.op
  case awaitPuts order n =>
    simp only [PhaseInv, hop] at h ⊢
    obtain ⟨h₁, h₂, h₃, h₄, -⟩ := h
    obtain ⟨hq', hw'⟩ := h₄ ha
    have hn : order.length ≤ n := by simpa [hq] using hq'.symm
    exact ⟨h₁, h₂, h₃, fun h => by simp at h, fun _ => by
      rw [Tx.commit_writes, hw', List.take_of_length_le hn]⟩
  case awaitCommit order =>
    simp only [PhaseInv, hop] at h ⊢
    exact ⟨h.1, h.2.1, fun h => by simp at h, fun _ => (h.2.2.1 ha).2⟩
  case committed res =>
    cases res with
    | ok =>
      simp only [PhaseInv, hop] at h ⊢
      rcases h with h | h
      · exact .inl h
      · simp [ha] at h
    | error =>
      simp only [PhaseInv, hop] at h ⊢
      exact ⟨fun h => by simp at h, fun _ => (h.1 ha).1⟩
  all_goals simp only [PhaseInv, hop] at h ⊢; simp_all [World.staged]

/-- **`PhaseInv` is preserved by every step.** -/
theorem step (hc : CellInv w) (hl : LockInv w) (h : PhaseInv w) {w' : World} (hs : Step w w') :
    PhaseInv w' := by
  rcases hs with hs | hs | hs | hs
  · exact h.call_step hl hs
  · exact h.adapter_step hc hs
  · cases hs with
    | exec r rest ha hq hlv => exact h.of_exec ha hq hlv
    | execThrows r rest msg ha | abort e ha =>
      exact h.of_abort (by simp) (by simp) (by simp [World.staged]) (by simp) (by simp) (by simp)
        (by simp) ha
    | fail r rest e ha =>
      exact h.of_abort (by simp) (by simp) (by simp [World.staged]) (by simp) (by simp) (by simp)
        (by simp) ha
    | autoCommit ha hq _ => exact h.of_autoCommit ha hq _
    | bubble e _ =>
      by_cases ha : w.tx.state = .active
      · exact h.of_abort (by simp) (by simp) (by simp [World.staged]) (by simp)
          (by simp [World.bubble_tx, ha]) (by simp [World.bubble_tx, ha])
          (by simp [World.bubble_tx, ha]) ha
      · exact h.frame (by simp) (by simp [World.bubble_tx, ha]) (by simp)
          (by simp [World.staged]) (by simp)
  · cases hs; exact h.frame rfl rfl rfl rfl rfl

end PhaseInv

namespace DbInv

variable {S : Contents} {w : World}

/-- `DbInv` only looks at the database and the transaction's state and writes. -/
lemma frame (h : DbInv S w) {w' : World} (h₁ : ∀ k, w'.db k = w.db k)
    (h₂ : w'.tx.state = w.tx.state) (h₃ : w'.tx.writes = w.tx.writes) : DbInv S w' := by
  unfold DbInv at h ⊢; rw [funext h₁, h₂, h₃]; exact h

/-- Before the transaction finishes, and after it aborts, the database holds `S`. -/
lemma of_not_committed (h : DbInv S w) (ha : w.tx.state ≠ .committed) : w.db = S := by
  simp [DbInv, ha] at h; exact h

/-- A running transaction may change its writes without changing the database. -/
lemma of_active (h : DbInv S w) (ha : w.tx.state = .active) {w' : World}
    (h₁ : ∀ k, w'.db k = w.db k) (h₂ : w'.tx.state ≠ .committed) : DbInv S w' := by
  simp [DbInv, h₂, funext h₁, h.of_not_committed (by simp [ha])]

/-- **`DbInv` is preserved by every step.** -/
theorem step (h : DbInv S w) {w' : World} (hs : Step w w') : DbInv S w' := by
  rcases hs with hs | hs | hs | hs
  · cases hs <;> refine h.frame ?_ ?_ ?_ <;> simp
  · cases hs with
    | rollbackAbort _ _ _ _ ha => exact h.of_active ha (by simp) (by simp)
    | _ => refine h.frame ?_ ?_ ?_ <;> simp [World.placePuts]
  · cases hs with
    | exec _ _ ha => exact h.of_active ha (fun _ => rfl) (by simp [ha])
    | execThrows _ _ _ ha | abort _ ha | fail _ _ _ ha => exact h.of_active ha (by simp) (by simp)
    | autoCommit ha =>
      unfold DbInv; ext1 k; simp [h.of_not_committed (by simp [ha])]
    | bubble e _ =>
      by_cases ha : w.tx.state = .active
      · exact h.of_active ha (by simp) (by simp [World.bubble_tx, ha])
      · exact h.frame (by simp) (by simp [World.bubble_tx, ha]) (by simp [World.bubble_tx, ha])
  · cases hs; exact h.frame (fun _ => rfl) rfl rfl

end DbInv

/-- The invariants of the cell, the lock, the phase and the database, bundled. -/
structure CommitInv (S : Contents) (w : World) : Prop where
  cell : CellInv w
  lock : LockInv w
  phase : PhaseInv w
  db : DbInv S w

/-- **The invariants hold in every reachable state.** -/
theorem commitInv_reachable {S : Contents} {w : World} (h : Reachable S w) : CommitInv S w := by
  induction h with
  | refl =>
    exact ⟨cellInv_init S, lockInv_init S, ⟨rfl, rfl, rfl, rfl⟩,
      by unfold DbInv; ext k; simp⟩
  | tail hr hs ih =>
    exact ⟨ih.cell.step (readInv_reachable hr) hs, ih.lock.step hs,
      ih.phase.step ih.cell ih.lock hs, ih.db.step hs⟩

/-! ## What the database holds -/

section Results

variable {S : Contents} {w : World}

/-- After `commit` returns `Ok(())`, the database holds `S` with the staged puts replayed one
at a time in staging order: each key holds the last value staged for it, every other key
keeps its value in `S`. This holds whatever order the map's iteration issued the puts in. -/
theorem db_of_commit_ok (h : Reachable S w) (hop : w.op = .committed (.ok ())) :
    w.db = S.putAll w.staged := by
  have hi := commitInv_reachable h
  have hp := hi.phase
  simp only [PhaseInv, hop] at hp
  rcases hp with ⟨hs, -, hw⟩ | ⟨hc, hperm⟩
  · rw [hi.db, hs, hw]; split_ifs <;> rfl
  · rw [hi.db, if_pos hc, Pending.putAll_of_perm S hperm]

/-- **Atomic visibility.** In every reachable state the database holds `S`, or `S` with all
the staged puts replayed: no other transaction ever reads a part of the transaction's
writes, although `commit` places and the backend executes them one at a time. -/
theorem db_all_or_nothing (h : Reachable S w) : w.db = S ∨ w.db = S.putAll w.staged := by
  have hi := commitInv_reachable h
  by_cases hc : w.tx.state = .committed
  · have hp := hi.phase
    have hall {order : List (Σ _ : String, Bytes)}
        (ho : order.Perm (Pending.ofStaged w.staged).entries) (hw : w.tx.writes = order) :
        w.db = S.putAll w.staged := by
      rw [hi.db, if_pos hc, hw, Pending.putAll_of_perm S ho]
    have hnone (hw : w.tx.writes = []) : w.db = S := by rw [hi.db, if_pos hc, hw]; rfl
    cases hop : w.op with
    | awaitPuts order n =>
      simp only [PhaseInv, hop] at hp; exact .inr (hall hp.1 (hp.2.2.2.2 hc))
    | awaitCommit order =>
      simp only [PhaseInv, hop] at hp; exact .inr (hall hp.1 (hp.2.2.2 hc))
    | committed r =>
      cases r with
      | ok => exact .inr (db_of_commit_ok h hop)
      | error => simp only [PhaseInv, hop] at hp; exact .inl (hnone (hp.2 hc))
    | staging | awaitAbort | rolledBack | dropped =>
      simp only [PhaseInv, hop] at hp; exact .inl (hnone hp.2.1)
  · exact .inl (hi.db.of_not_committed hc)

/-- After `commit` returns `Err`, the database holds `S`. -/
theorem db_of_commit_err (h : Reachable S w) {e : StoreError} (hop : w.op = .committed (.error e)) :
    w.db = S := by
  have hi := commitInv_reachable h
  have hp := hi.phase
  simp only [PhaseInv, hop] at hp
  rw [hi.db]
  split_ifs with hc
  · rw [hp.2 hc]; rfl
  · rfl

/-- Before `commit` is called, and after `rollback` (whatever it returned) or a drop, no put
request was ever placed and the database holds `S`. -/
theorem no_write_of_not_commit (h : Reachable S w)
    (hop : w.op = .staging ∨ w.op = .awaitAbort ∨ (∃ r, w.op = .rolledBack r) ∨
      w.op = .dropped) :
    w.placed = [] ∧ w.tx.queue = [] ∧ w.tx.writes = [] ∧ w.db = S := by
  have hi := commitInv_reachable h
  have hp := hi.phase
  have hw : w.placed = [] ∧ w.tx.queue = [] ∧ w.tx.writes = [] := by
    rcases hop with hop | hop | ⟨r, hop⟩ | hop <;> simp only [PhaseInv, hop] at hp <;>
      first | exact ⟨hp.2.2.1, hp.1, hp.2.1⟩ | exact ⟨hp.2.2, hp.1, hp.2.1⟩
  refine ⟨hw.1, hw.2.1, hw.2.2, ?_⟩
  rw [hi.db, hw.2.2]; split_ifs <;> rfl

/-- **`commit` is all-or-nothing on failure.** Once `commit` has returned `Err` (from
`object_store`, from a `put_with_key` that throws after earlier puts were placed, from the
transaction's error, or from an outcome other than `Committed`), the database holds `S` in
that state and in every state after it: no staged entry ever becomes visible. -/
theorem commit_err_keeps_store (h : Reachable S w) {e : StoreError}
    (hop : w.op = .committed (.error e)) {w' : World} (hs : Relation.ReflTransGen Step w w') :
    w'.db = S :=
  db_of_commit_err (h.trans hs) ((op_eq_of_done hs (by simp [hop, Op.Done])).trans hop)

/-- Two puts staged on an empty store; `commit` places the put of `a`, then the put of `b`
throws. -/
def putThrowsRun : List Action :=
  [.invoke (.put "a" [1]), .run 0 (.placed .success), .invoke (.put "b" [2]),
    .run 1 (.placed .success),
    .commitPutThrows [⟨"a", [1]⟩, ⟨"b", [2]⟩] 1 ⟨"DataError", ""⟩]

/-- After the failed `commit` the backend runs the placed put of `a`, whose `onsuccess`
closure `commit` has already dropped; the store keeps its contents. -/
theorem commit_err_keeps_store_witness :
    Reachable (fun _ => none) (trace (fun _ => none) putThrowsRun) ∧
      (trace (fun _ => none) putThrowsRun).op =
        .committed (.error (.ofJs ⟨"DataError", ""⟩)) ∧
      Relation.ReflTransGen Step (trace (fun _ => none) putThrowsRun)
        (trace (fun _ => none) (putThrowsRun ++ [.execThrows ""])) ∧
      (trace (fun _ => none) (putThrowsRun ++ [.execThrows ""])).db = fun _ => none :=
  have h := reachable_trace (by decide)
  have hop : (trace (fun _ => none) putThrowsRun).op = _ := by decide
  have hs := trace_append (by decide)
  ⟨h, hop, hs, commit_err_keeps_store h hop hs⟩

/-- **Staged values stay private until `commit`.** Until `commit` is called, whatever calls
were made on the transaction, no put request has been placed on the backend and every other
transaction's `has` and `get` read `S`; after `rollback` (whatever it returned) or a drop,
the database holds `S` in every later state. -/
theorem staged_invisible_until_commit (h : Reachable S w) :
    (w.op = .staging → w.placed = [] ∧
      ∀ k env, Store.has w.db k env = Store.has S k env ∧
        Store.get w.db k env = Store.get S k env) ∧
    ((∃ r, w.op = .rolledBack r) ∨ w.op = .dropped →
      ∀ w', Relation.ReflTransGen Step w w' → w'.db = S) := by
  refine ⟨fun hop => ?_, fun hop w' hs => ?_⟩
  · obtain ⟨hp, -, -, hd⟩ := no_write_of_not_commit h (.inl hop)
    exact ⟨hp, fun _ _ => by rw [hd]; exact ⟨rfl, rfl⟩⟩
  · have hd : w.op.Done := by rcases hop with ⟨r, hop⟩ | hop <;> simp [hop, Op.Done]
    have hop' := op_eq_of_done hs hd
    refine (no_write_of_not_commit (h.trans hs) ?_).2.2.2
    rcases hop with ⟨r, hop⟩ | hop
    · exact .inr (.inr (.inl ⟨r, hop' ▸ hop⟩))
    · exact .inr (.inr (.inr (hop' ▸ hop)))

/-- One put of `k` staged on an empty store. -/
def stagedPutRun : List Action := [.invoke (.put "k" [1]), .run 0 (.placed .success)]

/-- With the put of `k` staged, every other transaction's `get` of `k` reads the store's
value. -/
theorem staged_invisible_until_commit_witness :
    (trace (fun _ => none) stagedPutRun).pending.lookup "k" = some [1] ∧
      ∀ env, Store.get (trace (fun _ => none) stagedPutRun).db "k" env =
        Store.get (fun _ => none) "k" env :=
  ⟨by decide, fun env =>
    (((staged_invisible_until_commit (reachable_trace (by decide))).1 (by decide)).2 "k" env).2⟩

end Results

end Replicache.Kv
