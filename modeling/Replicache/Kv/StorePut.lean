import Mathlib.Data.List.Chain
import Mathlib.Logic.Relation
import Replicache.Kv.Idb

set_option relaxedAutoImplicit false
set_option autoImplicit false

/-!
# `IdbStore::put`

`IdbStore` overrides the `Store` trait's `put`, which would open a write transaction, stage
one put and commit it. The override opens a read-write transaction, registers a
`Closure::once` on its `oncomplete`, places one `put_with_key` request with a second closure
as both its `onsuccess` and its `onerror`, and then awaits two oneshot receivers: first the
request's, then the transaction's.

The synchronous part, from `transaction_with_str_and_mode` to the placed request, runs
without yielding, so the backend acts only after it. Each closure sends on its oneshot when
the backend invokes it; both are owned by the future until it returns.

## Main definitions

* `Replicache.Kv.IdbStore.PutWorld` — the call, its transaction and the database.
* `Replicache.Kv.IdbStore.PutStep` — one step of the call or of the backend.

## Main results

* `Replicache.Kv.IdbStore.put_returns_ok`, `Replicache.Kv.IdbStore.put_returns_err` — a
  return of `Ok(())` means the put is in the database, a return of `Err` that it is not.
* `Replicache.Kv.IdbStore.put_waits_of_aborted` — once the transaction aborted the call never
  returns.
* `Replicache.Kv.IdbStore.put_final` — where no step is left, the call returned, or waits on
  a transaction that aborted.
* `Replicache.Kv.IdbStore.put_runs_end` — every run, continued while a step is enabled, stops
  within `rank` steps in such a state.

## Implementation notes

When one of the three JavaScript calls of the synchronous part throws, the call returns
`Err`; the model keeps a transaction with no request for it, which changes nothing when it
commits.

## References

* `src/kv/idbstore.rs`, lines 90-118.
-/

namespace Replicache.Kv

/-! ## Runs along a rank -/

section RankRuns

variable {α : Type} {R : α → α → Prop} {rank : α → Nat}

/-- A run whose every step lowers `rank` has at most `rank` steps. -/
lemma chain_length_le_rank (hR : ∀ a b, R a b → rank b < rank a) {a : α} {l : List α}
    (h : List.Chain R a l) : l.length ≤ rank a := by
  induction h with
  | nil => exact Nat.zero_le _
  | cons hs _ ih => exact Nat.succ_le_of_lt (lt_of_le_of_lt ih (hR _ _ hs))

/-- From every state, a run whose every step lowers `rank` reaches a state with no step
left. -/
lemma exists_chain_end (hR : ∀ a b, R a b → rank b < rank a) (a : α) :
    ∃ l u, List.Chain R a l ∧ (a :: l).getLast? = some u ∧ ∀ b, ¬ R u b := by
  induction' hn : rank a using Nat.strong_induction_on with n ih generalizing a
  by_cases hs : ∃ b, R a b
  · obtain ⟨b, hab⟩ := hs
    obtain ⟨l, u, hc, hu, hend⟩ := ih (rank b) (hn ▸ hR a b hab) b rfl
    exact ⟨b :: l, u, .cons hab hc, by rwa [List.getLast?_cons_cons], hend⟩
  · exact ⟨[], a, .nil, rfl, fun b hb => hs ⟨b, hb⟩⟩

/-- Such a run, however it began, can be continued until no step is left. -/
lemma chain_extends_to_end (hR : ∀ a b, R a b → rank b < rank a) {a : α} {l : List α}
    (h : List.Chain R a l) :
    ∃ l' u, List.Chain R a (l ++ l') ∧ (a :: (l ++ l')).getLast? = some u ∧ ∀ b, ¬ R u b := by
  induction h with
  | nil => exact exists_chain_end hR _
  | cons hab _ ih =>
    obtain ⟨l', u, hc, hu, hend⟩ := ih
    exact ⟨l', u, .cons hab hc, by rwa [List.cons_append, List.getLast?_cons_cons], hend⟩

/-- The state a run ends in is reachable from where it began. -/
lemma reflTransGen_of_chain {a u : α} {l : List α} (h : List.Chain R a l)
    (hu : (a :: l).getLast? = some u) : Relation.ReflTransGen R a u :=
  List.relationReflTransGen_of_exists_chain l h
    (Option.some.inj ((List.getLast?_eq_getLast _ (List.cons_ne_nil _ _)).symm.trans hu))

end RankRuns

namespace IdbStore

/-- Where `IdbStore::put` is. -/
inductive PutPc where
  /-- Before the synchronous part. -/
  | start
  /-- Suspended on the request's `receiver`. -/
  | awaitRequest
  /-- Suspended on `txdonereceiver`. -/
  | awaitComplete
  /-- Returned. -/
  | returned (r : Result Unit)
  deriving DecidableEq

/-- `IdbStore::put` with its transaction and the backend's database. -/
structure PutWorld where
  db : Contents
  tx : Tx
  /-- `putcallback` has sent on the request's oneshot. -/
  putSent : Bool
  /-- The `oncomplete` closure has sent on the transaction's oneshot. -/
  txDoneSent : Bool
  pc : PutPc

/-- The call, about to start, on a database holding `S`. -/
def PutWorld.init (S : Contents) : PutWorld := ⟨S, .fresh, false, false, .start⟩

/-- The transaction aborts with `e`. A request still queued fails with it, and its `error`
event invokes `putcallback`. -/
def PutWorld.abortTx (w : PutWorld) (e : DomException) : PutWorld :=
  { w with tx := w.tx.abort (some e), putSent := w.putSent || !w.tx.queue.isEmpty }

/-- The request was placed: the call did not return from its synchronous part. -/
def PutPc.placed : PutPc → Bool
  | .start | .returned (.error _) => false
  | _ => true

/-- One step of `IdbStore::put(key, value)` or of the backend. -/
inductive PutStep (key : String) (value : Bytes) : PutWorld → PutWorld → Prop
  /-- `transaction_with_str_and_mode`, `object_store` or `put_with_key` throws. -/
  | throws (w : PutWorld) (e : DomException) :
      w.pc = .start → PutStep key value w { w with pc := .returned (.error (.ofJs e)) }
  /-- The request is placed, with `putcallback` as its `onsuccess` and `onerror`. -/
  | issue (w : PutWorld) :
      w.pc = .start →
      PutStep key value w
        { w with tx := w.tx.place [.ofEntry .live ⟨key, value⟩], pc := .awaitRequest }
  /-- `receiver.await` returns. -/
  | requestSettled (w : PutWorld) :
      w.pc = .awaitRequest → w.putSent = true →
      PutStep key value w { w with pc := .awaitComplete }
  /-- `txdonereceiver.await` returns. -/
  | completed (w : PutWorld) :
      w.pc = .awaitComplete → w.txDoneSent = true →
      PutStep key value w { w with pc := .returned (.ok ()) }
  /-- The request executes and `putcallback` sends. -/
  | exec (w : PutWorld) (r : PutRequest) (rest : List PutRequest) :
      w.pc ≠ .start → w.tx.state = .active → w.tx.queue = r :: rest →
      PutStep key value w { w with tx := w.tx.exec r rest, putSent := true }
  /-- The request fails: `putcallback` sends, and the `error` event aborts the transaction. -/
  | fail (w : PutWorld) (r : PutRequest) (rest : List PutRequest) (e : DomException) :
      w.pc ≠ .start → w.tx.state = .active → w.tx.queue = r :: rest →
      PutStep key value w ({ w with tx := { w.tx with queue := rest }, putSent := true }.abortTx e)
  /-- With no request outstanding the transaction commits; the `oncomplete` closure sends. -/
  | autoCommit (w : PutWorld) :
      w.pc ≠ .start → w.tx.state = .active → w.tx.queue = [] →
      PutStep key value w
        { w with db := w.db.putAll w.tx.writes, tx := w.tx.commit, txDoneSent := true }
  /-- The backend aborts the transaction; nothing listens to its `abort` event. -/
  | abort (w : PutWorld) (e : DomException) :
      w.pc ≠ .start → w.tx.state = .active → PutStep key value w (w.abortTx e)

/-- The states some run of `IdbStore::put(key, value)` reaches on a database holding `S`. -/
def PutReachable (key : String) (value : Bytes) (S : Contents) (w : PutWorld) : Prop :=
  Relation.ReflTransGen (PutStep key value) (PutWorld.init S) w

namespace PutWorld

variable (w : PutWorld) (e : DomException)

@[simp] lemma abortTx_db : (w.abortTx e).db = w.db := rfl
@[simp] lemma abortTx_tx : (w.abortTx e).tx = w.tx.abort (some e) := rfl
@[simp] lemma abortTx_txDoneSent : (w.abortTx e).txDoneSent = w.txDoneSent := rfl
@[simp] lemma abortTx_pc : (w.abortTx e).pc = w.pc := rfl

end PutWorld

/-- What holds along every run of `IdbStore::put(key, value)` on a database holding `S`. -/
structure PutInv (key : String) (value : Bytes) (S : Contents) (w : PutWorld) : Prop where
  /-- The database changes only when the transaction commits, by its writes. -/
  db : w.db = S.putAll (if w.tx.state = .committed then w.tx.writes else [])
  /-- The `oncomplete` closure has sent exactly when the transaction committed. -/
  sent : w.txDoneSent = true ↔ w.tx.state = .committed
  /-- Once the placed request left the queue, `putcallback` has sent. -/
  settled : w.pc.placed → w.tx.queue = [] → w.putSent = true
  start : w.pc = .start → w.tx = .fresh
  /-- Unless it aborted, the transaction holds the one put, queued or executed, exactly when
  the request was placed. -/
  entries : w.tx.state ≠ .aborted →
    w.tx.queue.map PutRequest.entry ++ w.tx.writes = if w.pc.placed then [⟨key, value⟩] else []
  queue : w.tx.state ≠ .active → w.tx.queue = []
  ok : w.pc = .returned (.ok ()) → w.tx.state = .committed

/-- Suspended on one of the two receivers. -/
def PutPc.waiting : PutPc → Bool
  | .awaitRequest | .awaitComplete => true
  | _ => false

section Runs

variable {key : String} {value : Bytes} {S : Contents} {w w' : PutWorld}

namespace PutInv

lemma init : PutInv key value S (PutWorld.init S) := by
  constructor <;> simp [PutWorld.init, PutPc.placed]

/-- **`PutInv` is preserved by every step.** -/
theorem step (h : PutInv key value S w) (hs : PutStep key value w w') : PutInv key value S w' := by
  obtain ⟨h₁, h₂, h₇, h₃, h₄, h₅, h₆⟩ := h
  cases hs with
  | throws e hp =>
    exact ⟨h₁, h₂, fun h => by simp [hp, PutPc.placed] at h, nofun,
      fun _ => by simp [h₃ hp, PutPc.placed], h₅, nofun⟩
  | issue hp =>
    exact ⟨by simpa [h₃ hp] using h₁, by simpa [h₃ hp] using h₂, fun _ h => by simp at h,
      nofun, fun _ => by simp [h₃ hp, PutPc.placed], fun h => by simp [h₃ hp] at h,
      nofun⟩
  | requestSettled hp _ =>
    exact ⟨h₁, h₂, fun _ => h₇ (by simp [hp, PutPc.placed]), nofun,
      fun ha => by simpa [hp, PutPc.placed] using h₄ ha, h₅, nofun⟩
  | completed hp hd =>
    exact ⟨h₁, h₂, fun _ => h₇ (by simp [hp, PutPc.placed]), nofun,
      fun ha => by simpa [hp, PutPc.placed] using h₄ ha, h₅, fun _ => h₂.1 hd⟩
  | exec r rest hp ha hq =>
    have h₈ := h₄ (by simp [ha])
    rw [hq] at h₈
    split_ifs at h₈ with hpl
    · simp only [List.map_cons, List.cons_append, List.cons.injEq, List.append_eq_nil,
        List.map_eq_nil_iff] at h₈
      obtain ⟨hr, rfl, hw⟩ := h₈
      exact ⟨by simpa [ha] using h₁, h₂, fun _ _ => rfl, fun h => absurd h hp,
        fun _ => by simp [hw, hr, hpl], fun h => absurd ha h, h₆⟩
    · simp at h₈
  | fail r rest e hp ha _ =>
    exact ⟨by simpa [ha] using h₁, by simpa [ha] using h₂, fun _ _ => by simp [PutWorld.abortTx],
      fun h => absurd h hp, fun h => absurd rfl h, fun _ => rfl,
      fun h => absurd (h₆ h) (by simp [ha])⟩
  | autoCommit hp ha hq =>
    exact ⟨by simpa [ha] using congrArg (·.putAll w.tx.writes) h₁, by simp, h₇,
      fun h => absurd h hp, fun _ => h₄ (by simp [ha]), fun _ => hq, fun _ => rfl⟩
  | abort e hp ha =>
    refine ⟨by simpa [ha] using h₁, by simpa [ha] using h₂, fun hpl _ => ?_,
      fun h => absurd h hp, fun h => absurd rfl h, fun _ => rfl,
      fun h => absurd (h₆ h) (by simp [ha])⟩
    by_cases hq : w.tx.queue = [] <;> simp [PutWorld.abortTx, hq, h₇ hpl]

/-- Once the transaction finished, it holds the one put exactly when it committed after the
request was placed. -/
lemma writes_of_committed (h : PutInv key value S w) (hc : w.tx.state = .committed) :
    w.tx.writes = if w.pc.placed then [⟨key, value⟩] else [] := by
  simpa [h.queue (by simp [hc])] using h.entries (by simp [hc])

end PutInv

theorem putInv_reachable (h : PutReachable key value S w) : PutInv key value S w := by
  induction h with
  | refl => exact PutInv.init
  | tail _ hs ih => exact ih.step hs

/-- **A return of `Ok(())` means the put is in the database.** -/
theorem put_returns_ok (h : PutReachable key value S w) (hr : w.pc = .returned (.ok ())) :
    w.db = S.putAll [⟨key, value⟩] := by
  have hi := putInv_reachable h
  have hc := hi.ok hr
  rw [hi.db, if_pos hc, hi.writes_of_committed hc, hr]
  rfl

/-- A return of `Err` leaves the database as it was. -/
theorem put_returns_err (h : PutReachable key value S w) {e : StoreError}
    (hr : w.pc = .returned (.error e)) : w.db = S := by
  have hi := putInv_reachable h
  rw [hi.db]
  split_ifs with hc
  · rw [hi.writes_of_committed hc, hr]; rfl
  · rfl

/-- Once the transaction aborted, a waiting call stays waiting: nothing sends on
`txdonereceiver` any more. -/
lemma PutStep.waiting_of_aborted (hs : PutStep key value w w') (hw : w.pc.waiting)
    (ha : w.tx.state = .aborted) (hd : w.txDoneSent = false) :
    w'.pc.waiting ∧ w'.tx.state = .aborted ∧ w'.txDoneSent = false := by
  cases hs <;> simp_all [PutPc.waiting]

/-- **Once its transaction aborted, `IdbStore::put` never returns.** A failed request, or an
abort after the request succeeded, fires no `complete` event, and the call waits on
`txdonereceiver` in every later state. -/
theorem put_waits_of_aborted (h : PutReachable key value S w) (hw : w.pc.waiting)
    (ha : w.tx.state = .aborted) {w' : PutWorld}
    (hs : Relation.ReflTransGen (PutStep key value) w w') :
    w'.pc.waiting := by
  have hd : w.txDoneSent = false := by
    simpa [ha] using mt (putInv_reachable h).sent.1
  suffices w'.pc.waiting ∧ w'.tx.state = .aborted ∧ w'.txDoneSent = false from this.1
  induction hs with
  | refl => exact ⟨hw, ha, hd⟩
  | tail _ hs ih => exact hs.waiting_of_aborted ih.1 ih.2.1 ih.2.2

lemma PutPc.placed_of_waiting {pc : PutPc} (h : pc.waiting) : pc.placed := by
  cases pc <;> simp_all [waiting, placed]

end Runs

/-! ## Running the call -/

/-- One step of `IdbStore::put` or of the backend, by the choices it takes. -/
inductive PutAction where
  | throws (e : DomException)
  | issue
  | requestSettled
  | completed
  | exec
  | fail (e : DomException)
  | autoCommit
  | abort (e : DomException)

namespace PutWorld

/-- Perform one action of `IdbStore::put(key, value)`, if its step is enabled. -/
def act (key : String) (value : Bytes) (w : PutWorld) : PutAction → Option PutWorld
  | .throws e => if w.pc = .start then some { w with pc := .returned (.error (.ofJs e)) } else none
  | .issue =>
    if w.pc = .start then
      some { w with tx := w.tx.place [.ofEntry .live ⟨key, value⟩], pc := .awaitRequest }
    else none
  | .requestSettled =>
    if w.pc = .awaitRequest ∧ w.putSent = true then some { w with pc := .awaitComplete } else none
  | .completed =>
    if w.pc = .awaitComplete ∧ w.txDoneSent = true then some { w with pc := .returned (.ok ()) }
    else none
  | .exec =>
    match w.tx.queue with
    | r :: rest =>
      if w.pc ≠ .start ∧ w.tx.state = .active then
        some { w with tx := w.tx.exec r rest, putSent := true }
      else none
    | [] => none
  | .fail e =>
    match w.tx.queue with
    | _ :: rest =>
      if w.pc ≠ .start ∧ w.tx.state = .active then
        some ({ w with tx := { w.tx with queue := rest }, putSent := true }.abortTx e)
      else none
    | [] => none
  | .autoCommit =>
    if w.pc ≠ .start ∧ w.tx.state = .active ∧ w.tx.queue = [] then
      some { w with db := w.db.putAll w.tx.writes, tx := w.tx.commit, txDoneSent := true }
    else none
  | .abort e => if w.pc ≠ .start ∧ w.tx.state = .active then some (w.abortTx e) else none

/-- Every action `act` performs is a step. -/
theorem act_sound {key : String} {value : Bytes} {w w' : PutWorld} {a : PutAction}
    (h : w.act key value a = some w') : PutStep key value w w' := by
  cases a <;> simp only [act] at h
  case exec =>
    split at h <;> [skip; cases h]
    rename_i r rest hq
    split_ifs at h with h₁; cases h; exact .exec w r rest h₁.1 h₁.2 hq
  case fail e =>
    split at h <;> [skip; cases h]
    rename_i r rest hq
    split_ifs at h with h₁; cases h; exact .fail w r rest e h₁.1 h₁.2 hq
  case throws e => split_ifs at h with h₁; cases h; exact .throws w e h₁
  case issue => split_ifs at h with h₁; cases h; exact .issue w h₁
  case requestSettled => split_ifs at h with h₁; cases h; exact .requestSettled w h₁.1 h₁.2
  case completed => split_ifs at h with h₁; cases h; exact .completed w h₁.1 h₁.2
  case autoCommit =>
    split_ifs at h with h₁; cases h; exact .autoCommit w h₁.1 h₁.2.1 h₁.2.2
  case abort e => split_ifs at h with h₁; cases h; exact .abort w e h₁.1 h₁.2

/-- Perform the actions of a list one after another, while their steps are enabled. -/
def runActions (key : String) (value : Bytes) : PutWorld → List PutAction → Option PutWorld
  | w, [] => some w
  | w, a :: as => (w.act key value a).bind fun w' => runActions key value w' as

theorem runActions_sound {key : String} {value : Bytes} {w w' : PutWorld} {as : List PutAction}
    (h : runActions key value w as = some w') : Relation.ReflTransGen (PutStep key value) w w' := by
  induction as generalizing w with
  | nil => cases h; exact .refl
  | cons a as ih =>
    simp only [runActions, Option.bind_eq_some] at h
    obtain ⟨w₁, h₁, h₂⟩ := h
    exact .head (act_sound h₁) (ih h₂)

/-- The state a list of actions ends in from the start of the call on `S`, or that initial
state when one of the actions is not enabled. -/
def trace (key : String) (value : Bytes) (S : Contents) (as : List PutAction) : PutWorld :=
  (runActions key value (init S) as).getD (init S)

theorem reachable_trace {key : String} {value : Bytes} {S : Contents} {as : List PutAction}
    (h : (runActions key value (init S) as).isSome) :
    PutReachable key value S (trace key value S as) := by
  obtain ⟨w, hw⟩ := Option.isSome_iff_exists.1 h
  rw [trace, hw]
  exact runActions_sound hw

end PutWorld

/-! ## How a run of `IdbStore::put` ends -/

section Ends

variable {key : String} {value : Bytes} {S : Contents} {w w' : PutWorld}

/-- What is left of `IdbStore::put`: its synchronous part, then its two awaits. -/
def PutPc.rank : PutPc → Nat
  | .start => 4
  | .awaitRequest => 2
  | .awaitComplete => 1
  | .returned _ => 0

/-- A bound on the steps left to a run of `IdbStore::put`. -/
def PutWorld.rank (w : PutWorld) : Nat := w.pc.rank + w.tx.rank

lemma PutWorld.rank_abortTx_lt {w : PutWorld} (ha : w.tx.state = .active) (e : DomException) :
    (w.abortTx e).rank < w.rank := by
  have := w.tx.rank_abort ha (some e)
  simp only [PutWorld.rank, PutWorld.abortTx_tx, PutWorld.abortTx_pc]
  omega

/-- Every step of `IdbStore::put` or of the backend lowers the rank. -/
lemma PutStep.rank_lt (hs : PutStep key value w w') : w'.rank < w.rank := by
  cases hs with
  | throws e hp | issue hp | requestSettled hp _ | completed hp _ =>
    simp only [PutWorld.rank, hp, PutPc.rank, Tx.rank_place, List.length_singleton]
    omega
  | exec r rest _ _ hq =>
    have := w.tx.rank_exec hq
    simp only [PutWorld.rank]
    omega
  | fail r rest e _ ha hq =>
    refine lt_of_lt_of_le (PutWorld.rank_abortTx_lt ha e) ?_
    simp only [PutWorld.rank, Tx.rank, hq, List.length_cons]
    omega
  | autoCommit _ ha hq =>
    have := w.tx.rank_commit ha hq
    simp only [PutWorld.rank]
    omega
  | abort e _ ha => exact PutWorld.rank_abortTx_lt ha e

/-- A reachable state with no step left: the call returned, or waits on an aborted
transaction. -/
lemma final_of_stuck (h : PutReachable key value S w) (hf : ∀ w', ¬ PutStep key value w w') :
    (w.pc = .returned (.ok ()) ∧ w.db = S.putAll [⟨key, value⟩]) ∨
      (∃ e, w.pc = .returned (.error e) ∧ w.db = S) ∨
      (w.pc.waiting ∧ w.tx.state = .aborted ∧ w.db = S) := by
  have hi := putInv_reachable h
  have hwait (hw : w.pc.waiting) : w.tx.state = .aborted := by
    have hs : w.pc ≠ .start := by rintro hp; simp [hp, PutPc.waiting] at hw
    cases ha : w.tx.state with
    | active =>
      cases hq : w.tx.queue with
      | nil => exact absurd (.autoCommit w hs ha hq) (hf _)
      | cons r rest => exact absurd (.exec w r rest hs ha hq) (hf _)
    | committed =>
      have hd := hi.sent.2 ha
      have hp := hi.settled (PutPc.placed_of_waiting hw) (hi.queue (by simp [ha]))
      cases hpc : w.pc with
      | awaitRequest => exact absurd (.requestSettled w hpc hp) (hf _)
      | awaitComplete => exact absurd (.completed w hpc hd) (hf _)
      | _ => simp [hpc, PutPc.waiting] at hw
    | aborted => rfl
  cases hpc : w.pc with
  | start => exact absurd (.issue w hpc) (hf _)
  | returned r =>
    cases r with
    | ok => exact .inl ⟨rfl, put_returns_ok h hpc⟩
    | error e => exact .inr (.inl ⟨e, rfl, put_returns_err h hpc⟩)
  | awaitRequest | awaitComplete =>
    have ha := hwait (by simp [hpc, PutPc.waiting])
    exact .inr (.inr ⟨by simp [PutPc.waiting], ha, by simpa [ha] using hi.db⟩)

/-- **How `IdbStore::put` ends.** In a reachable state with no step left, the call returned
`Ok(())` with the put in the database, returned `Err` with the database as it was, or waits
on a receiver of a transaction that aborted, with the database as it was. -/
theorem put_final (h : PutReachable key value S w) (hf : ∀ w', ¬ PutStep key value w w') :
    (w.pc = .returned (.ok ()) ∧ w.db = S.putAll [⟨key, value⟩]) ∨
      (∃ e, w.pc = .returned (.error e) ∧ w.db = S) ∨
      (w.pc.waiting ∧ w.tx.state = .aborted ∧ w.db = S) :=
  final_of_stuck h hf

/-- A put of `k` on a store with no key whose request fails; the call then waits on
`txdonereceiver`. -/
def failedPutWorld : PutWorld :=
  PutWorld.trace "k" [1] (fun _ => none) [.issue, .fail ⟨"UnknownError", ""⟩, .requestSettled]

/-- No step is left there, and the call waits on the aborted transaction. -/
theorem put_final_failed :
    PutReachable "k" [1] (fun _ => none) failedPutWorld ∧
      (∀ w', ¬ PutStep "k" [1] failedPutWorld w') ∧
      ((failedPutWorld.pc = .returned (.ok ()) ∧
          failedPutWorld.db = Contents.putAll (fun _ => none) [⟨"k", [1]⟩]) ∨
        (∃ e, failedPutWorld.pc = .returned (.error e) ∧ failedPutWorld.db = fun _ => none) ∨
        (failedPutWorld.pc.waiting ∧ failedPutWorld.tx.state = .aborted ∧
          failedPutWorld.db = fun _ => none)) :=
  have h : PutReachable "k" [1] (fun _ => none) failedPutWorld :=
    PutWorld.reachable_trace (by decide)
  have hf : ∀ w', ¬ PutStep "k" [1] failedPutWorld w' := by
    have hpc : failedPutWorld.pc = .awaitComplete := by decide
    have ha : failedPutWorld.tx.state = .aborted := by decide
    have hd : failedPutWorld.txDoneSent = false := by decide
    intro w' hs
    cases hs <;> simp_all
  ⟨h, hf, put_final h hf⟩

/-- **Every run of `IdbStore::put` ends.** Whatever the backend does, every run of the call
from a reachable state, continued while a step is enabled, stops within `w.rank` steps in
all, in a state where the call returned `Ok(())` with the put in the database, returned `Err`
with the database as it was, or waits on `txdonereceiver` of a transaction that aborted,
with the database as it was. -/
theorem put_runs_end (h : PutReachable key value S w) {ws : List PutWorld}
    (hc : List.Chain (PutStep key value) w ws) :
    ∃ ws' u, List.Chain (PutStep key value) w (ws ++ ws') ∧
      (w :: (ws ++ ws')).getLast? = some u ∧ (ws ++ ws').length ≤ w.rank ∧
      (∀ w', ¬ PutStep key value u w') ∧
      ((u.pc = .returned (.ok ()) ∧ u.db = S.putAll [⟨key, value⟩]) ∨
        (∃ e, u.pc = .returned (.error e) ∧ u.db = S) ∨
        (u.pc.waiting ∧ u.tx.state = .aborted ∧ u.db = S)) := by
  have hR : ∀ a b, PutStep key value a b → b.rank < a.rank := fun _ _ hs => hs.rank_lt
  obtain ⟨ws', u, hc', hu, hf⟩ := chain_extends_to_end hR hc
  exact ⟨ws', u, hc', hu, chain_length_le_rank hR hc', hf,
    final_of_stuck (Relation.ReflTransGen.trans h (reflTransGen_of_chain hc' hu)) hf⟩

/-- A call on a store with no key, from its start. -/
theorem put_runs_end_init :
    ∃ ws' u, List.Chain (PutStep "k" [1]) (PutWorld.init (fun _ => none)) ([] ++ ws') ∧
      (PutWorld.init (fun _ => none) :: ([] ++ ws')).getLast? = some u ∧
      ([] ++ ws').length ≤ (PutWorld.init (fun _ => none)).rank ∧
      (∀ w', ¬ PutStep "k" [1] u w') ∧
      ((u.pc = .returned (.ok ()) ∧ u.db = Contents.putAll (fun _ => none) [⟨"k", [1]⟩]) ∨
        (∃ e, u.pc = .returned (.error e) ∧ u.db = fun _ => none) ∨
        (u.pc.waiting ∧ u.tx.state = .aborted ∧ u.db = fun _ => none)) :=
  put_runs_end .refl .nil

end Ends

end IdbStore

end Replicache.Kv
