import Mathlib.Logic.Relation
import Replicache.Kv.Pending
import Replicache.Kv.Idb

set_option relaxedAutoImplicit false
set_option autoImplicit false

/-!
# The write-transaction protocol

One `WriteTransaction` of `src/kv/idbstore.rs` from the moment `WriteTransaction::new`
returns, together with its IndexedDB transaction and the database it writes to, as a
transition system. A state (`World`) holds

* the committed contents of the object store, which every other transaction reads;
* the IndexedDB transaction (`Tx`) and the three `tx_callback` listeners registered on it;
* the outcome cell `pair.0` and the tasks `tx_callback` spawned but that have not run yet;
* the pending map, its lock, and the calls (`put`, `has`, `get`) made on the transaction;
* where `commit` or `rollback` is, once one of them consumed the transaction.

A step is one atomic segment of the single-threaded cooperative scheduler: a segment of a
call, of `commit` or of `rollback` between two `await` points, one action of the backend,
or one spawned task. Steps of different parties interleave arbitrarily.

## Main definitions

* `Replicache.Kv.World`, `Replicache.Kv.World.init` — states, and the state right after
  `WriteTransaction::new` on a database holding `S`.
* `Replicache.Kv.CallStep`, `AdapterStep`, `BackendStep`, `TaskStep`, `Step` — the steps.
* `Replicache.Kv.Reachable` — the states some run reaches.

## Design

The model keeps three ghost fields that the code does not have: a clock and a log of the
calls that returned `Ok` (in the order of their linearization points), and the list of put
requests ever placed on the backend. They only record what happened, and no step reads
them.

The iteration order of the pending map in `commit` is a parameter of the step, any
permutation of the map's entries. Everything the backend decides (a request failing, the
transaction aborting on its own, a call throwing) is a separate step or a step parameter.

A failed read's `error` event runs the read's `onerror` listener, whose continuation is the
call's next segment, and then bubbles to the transaction: it fires the transaction's
`onerror` and aborts the transaction if it is still active. `bubbling` holds that event
between the two steps, and no other backend step comes between them.

A task spawned by a `tx_callback` closure may wait behind any later step and the pending
tasks may run in any order, more than the browser allows: `spawn_local` runs them in spawn
order in the microtask checkpoint right after the listener. Every result over `Reachable`
holds of those extra runs too; `Replicache.Kv.PromptStep` (in `Replicache.Kv.Prompt`) is the
step in the browser's order, for the results that need it.

## References

* `src/kv/idbstore.rs`, lines 211-367; `src/kv/mod.rs`, lines 42-57.
-/

namespace Replicache.Kv

/-- `WriteState`, the value of the outcome cell. -/
inductive WriteState where
  | «open»
  | committed
  | aborted
  | errored
  deriving DecidableEq, Repr

/-- The error a request's `error` event carries, if it failed. -/
def RequestOutcome.failure : RequestOutcome → Option DomException
  | .success => none
  | .error e => some e

/-- The state `tx_callback` writes for each event, as `WriteTransaction::new` registers the
listeners. -/
def TxEvent.newState : TxEvent → WriteState
  | .complete => .committed
  | .abort => .aborted
  | .error => .errored

@[simp] lemma TxEvent.newState_ne_open (ev : TxEvent) : ev.newState ≠ .open := by
  cases ev <;> decide

/-! ## Calls on the transaction -/

/-- A call on the write transaction, made directly or through `as_read`. -/
inductive Call where
  | put (key : String) (value : Bytes)
  | has (key : String)
  | get (key : String)
  deriving DecidableEq, Repr

/-- The `Ok` value of a call. -/
inductive Reply where
  | unit
  | bool (b : Bool)
  | value (v : Option Bytes)
  deriving DecidableEq, Repr

namespace Call

/-- The pending map after the call's critical section. -/
def stage (p : Pending) : Call → Pending
  | put k v => p.put k v
  | _ => p

/-- The staged put a call makes, if it is a put. -/
def staged? : Call → Option (Σ _ : String, Bytes)
  | put k v => some ⟨k, v⟩
  | _ => none

/-- What the call returns, for a pending map, backend contents and backend behaviour: the
code of `Write::put`, `Read::has` and `Read::get` of `WriteTransaction`. -/
def answer (p : Pending) (c : Contents) (pl : Placement) : Call → Result Reply
  | put _ _ => .ok .unit
  | has k => .bool <$> WriteTransaction.has p c k pl
  | get k => .value <$> WriteTransaction.get p c k pl

/-- Whether the call suspends while holding the pending lock: a read of a key that is not
staged, whose count or get request the backend accepts. -/
def suspends (p : Pending) : Call → Placement → Bool
  | has k, .placed _ => k ∉ p
  | get k, .placed _ => k ∉ p
  | _, _ => false

end Call

/-- Where a call is. -/
inductive CallState where
  /-- Invoked at the given time, suspended on `self.pending.lock()`. -/
  | waiting (c : Call) (invoked : Nat)
  /-- Holding the pending lock, suspended on its backend read, which will end with `o`. -/
  | reading (c : Call) (invoked : Nat) (o : RequestOutcome)
  | returned (c : Call) (r : Result Reply)
  deriving DecidableEq, Repr

/-- Whether a call has returned. -/
def CallState.isReturned : CallState → Bool
  | .returned _ _ => true
  | _ => false

/-- A call that returned `Ok`, at its linearization point. -/
structure LinEntry where
  id : Nat
  call : Call
  reply : Reply
  invoked : Nat
  returned : Nat
  /-- The call read the backend and the backend's request failed. -/
  failed : Bool
  deriving DecidableEq, Repr

/-- Where `commit` or `rollback` is, once one of them took the transaction. -/
inductive Op where
  /-- Neither was called; calls can be made. -/
  | staging
  /-- `commit` placed one put per entry, in `order`, and waits in `join_all(puts)`;
  `acked` of the requests' `onsuccess` listeners have fired. -/
  | awaitPuts (order : List (Σ _ : String, Bytes)) (acked : Nat)
  /-- `commit` waits in `cv.wait_until(.., |s| *s != Open)`. -/
  | awaitCommit (order : List (Σ _ : String, Bytes))
  /-- `rollback` called `abort()` and waits in `cv.wait_until`. -/
  | awaitAbort
  | committed (r : Result Unit)
  | rolledBack (r : Result Unit)
  /-- The transaction was dropped without `commit` or `rollback`. -/
  | dropped
  deriving DecidableEq

/-- One state of the protocol. -/
structure World where
  /-- Committed contents of `chunks`: what every other transaction reads. -/
  db : Contents
  tx : Tx
  cell : WriteState
  /-- Tasks spawned by `tx_callback` that have not run, each writing its state. -/
  tasks : List WriteState
  /-- The `oncomplete`, `onabort` and `onerror` closures in `wt.callbacks`. -/
  handlers : TxEvent → Handler
  pending : Pending
  /-- The call holding the pending lock across its backend read. -/
  lock : Option Nat
  /-- The error of a failed read whose `error` event ran the read's listener and has yet to
  reach the transaction's `onerror`. -/
  bubbling : Option DomException
  /-- The calls made so far, by id. -/
  calls : List CallState
  op : Op
  clock : Nat
  lin : List LinEntry
  placed : List (Σ _ : String, Bytes)

namespace World

/-- The state right after `WriteTransaction::new` on a database holding `S`. -/
@[simps]
def init (S : Contents) : World where
  db := S
  tx := Tx.fresh
  cell := .open
  tasks := []
  handlers := fun _ => .live
  pending := ∅
  lock := none
  bubbling := none
  calls := []
  op := .staging
  clock := 0
  lin := []
  placed := []

variable (w : World)

/-- The puts staged so far, in the order their critical sections ran. -/
def staged : List (Σ _ : String, Bytes) := w.lin.filterMap (·.call.staged?)

/-- Dispatch a transaction event to its `tx_callback` closure: a live closure spawns the
task that will write the event's state into the cell; a spent or dropped one throws, and
the backend reports the exception and goes on. -/
@[simps]
def fire (ev : TxEvent) : World :=
  { w with tasks := if w.handlers ev = .live then w.tasks ++ [ev.newState] else w.tasks,
           handlers := if w.handlers ev = .live then Function.update w.handlers ev .spent
             else w.handlers }

/-- `abort a transaction`: its queued requests fail (their `error` events bubble to the
transaction), its writes are discarded, and `abort` fires. -/
def abortTx (e : Option DomException) : World :=
  { (if w.tx.queue = [] then w else w.fire .error) with tx := w.tx.abort e }.fire .abort

section AbortTx

variable (e : Option DomException)

@[simp] lemma abortTx_db : (w.abortTx e).db = w.db := by unfold abortTx; split_ifs <;> rfl
@[simp] lemma abortTx_tx : (w.abortTx e).tx = w.tx.abort e := by unfold abortTx; split_ifs <;> rfl
@[simp] lemma abortTx_cell : (w.abortTx e).cell = w.cell := by unfold abortTx; split_ifs <;> rfl
@[simp] lemma abortTx_pending : (w.abortTx e).pending = w.pending := by
  unfold abortTx; split_ifs <;> rfl
@[simp] lemma abortTx_lock : (w.abortTx e).lock = w.lock := by unfold abortTx; split_ifs <;> rfl
@[simp] lemma abortTx_calls : (w.abortTx e).calls = w.calls := by
  unfold abortTx; split_ifs <;> rfl
@[simp] lemma abortTx_op : (w.abortTx e).op = w.op := by unfold abortTx; split_ifs <;> rfl
@[simp] lemma abortTx_clock : (w.abortTx e).clock = w.clock := by
  unfold abortTx; split_ifs <;> rfl
@[simp] lemma abortTx_lin : (w.abortTx e).lin = w.lin := by unfold abortTx; split_ifs <;> rfl
@[simp] lemma abortTx_placed : (w.abortTx e).placed = w.placed := by
  unfold abortTx; split_ifs <;> rfl
@[simp] lemma abortTx_bubbling : (w.abortTx e).bubbling = w.bubbling := by
  unfold abortTx; split_ifs <;> rfl

end AbortTx

/-- The `error` event of a failed read, after the read's own listener and the microtasks it
woke, reaches the transaction: `onerror` fires, and since nothing cancels the event the
transaction aborts with the request's error, unless it has already finished. -/
def bubble (e : DomException) : World :=
  if w.tx.state = .active then ({ w with bubbling := none }.fire .error).abortTx (some e)
  else { w with bubbling := none }.fire .error

section Bubble

variable (e : DomException)

@[simp] lemma bubble_db : (w.bubble e).db = w.db := by
  unfold bubble; split_ifs
  · rw [abortTx_db]; rfl
  · rfl
@[simp] lemma bubble_cell : (w.bubble e).cell = w.cell := by unfold bubble; split_ifs <;> simp
@[simp] lemma bubble_pending : (w.bubble e).pending = w.pending := by
  unfold bubble; split_ifs <;> simp
@[simp] lemma bubble_lock : (w.bubble e).lock = w.lock := by unfold bubble; split_ifs <;> simp
@[simp] lemma bubble_bubbling : (w.bubble e).bubbling = none := by
  unfold bubble; split_ifs <;> simp
@[simp] lemma bubble_calls : (w.bubble e).calls = w.calls := by
  unfold bubble; split_ifs <;> simp
@[simp] lemma bubble_op : (w.bubble e).op = w.op := by unfold bubble; split_ifs <;> simp
@[simp] lemma bubble_clock : (w.bubble e).clock = w.clock := by
  unfold bubble; split_ifs <;> simp
@[simp] lemma bubble_lin : (w.bubble e).lin = w.lin := by unfold bubble; split_ifs <;> simp
@[simp] lemma bubble_placed : (w.bubble e).placed = w.placed := by
  unfold bubble; split_ifs <;> simp
lemma bubble_tx : (w.bubble e).tx = if w.tx.state = .active then w.tx.abort (some e) else w.tx := by
  unfold bubble; split_ifs <;> simp

end Bubble

/-- The adapter drops its closures: the `tx_callback` closures go with the transaction, the
`onsuccess` closures of `commit`'s requests with `commit`'s frame. -/
@[simps]
def release : World :=
  { w with handlers := fun _ => .dropped, tx := w.tx.dropHandlers }

/-- `commit`'s loop places one put per entry of `order`, each with a live `onsuccess`
closure. -/
@[simps]
def placePuts (order : List (Σ _ : String, Bytes)) : World :=
  { w with tx := w.tx.place (order.map (.ofEntry .live)), placed := w.placed ++ order }

/-- No call is outstanding, so the transaction can be consumed by `commit` or `rollback`, or
dropped. -/
def Idle : Prop := w.op = .staging ∧ ∀ s ∈ w.calls, s.isReturned

/-- A call returns `r`; an `Ok` reply is logged at this point. -/
@[simps]
def finish (i : Nat) (c : Call) (invoked : Nat) (r : Result Reply) (failed : Bool) : World :=
  { w with calls := w.calls.set i (.returned c r), clock := w.clock + 1,
           lin := match r with
             | .ok rep => w.lin ++ [⟨i, c, rep, invoked, w.clock, failed⟩]
             | .error _ => w.lin }

/-- What `commit` returns once the cell left `Open`. -/
def commitResult (error : Option DomException) (cell : WriteState) : Result Unit :=
  match error with
  | some e => .error (.str e.debug)
  | none => if cell = .committed then .ok () else .error (.str "Transaction aborted")

/-- What `rollback` returns once the cell left `Open` after its `abort()`. -/
def rollbackResult (error : Option DomException) (cell : WriteState) : Result Unit :=
  match error with
  | some e => .error (.str e.debug)
  | none => if cell = .aborted then .ok () else .error (.str "Transaction abort failed")

end World

/-- One more acknowledged put, for `commit` waiting in `join_all`. -/
def Op.ack : Op → Op
  | .awaitPuts o n => .awaitPuts o (n + 1)
  | op => op

/-! ## Steps -/

open World

/-- A segment of a call on the transaction. -/
inductive CallStep : World → World → Prop
  /-- A call is made. -/
  | invoke (w : World) (c : Call) :
      w.op = .staging →
      CallStep w { w with calls := w.calls ++ [.waiting c w.clock], clock := w.clock + 1 }
  /-- A call takes the pending lock and runs to its return: a put, a read of a staged key,
  or a read whose request throws. -/
  | run (w : World) (i : Nat) (c : Call) (t : Nat) (pl : Placement) :
      w.op = .staging → w.calls[i]? = some (.waiting c t) → w.lock = none →
      c.suspends w.pending pl = false →
      CallStep w ({ w with pending := c.stage w.pending }.finish i c t
        (c.answer w.pending w.db pl) false)
  /-- A read of a key that is not staged takes the lock and places its request, which the
  backend accepts only on a transaction that has not finished. -/
  | suspend (w : World) (i : Nat) (c : Call) (t : Nat) (o : RequestOutcome) :
      w.op = .staging → w.calls[i]? = some (.waiting c t) → w.lock = none →
      c.suspends w.pending (.placed o) = true → w.tx.state = .active →
      CallStep w { w with lock := some i, calls := w.calls.set i (.reading c t o) }
  /-- The request of a suspended read is answered; the read's listener wakes the read, which
  returns and drops the lock. A failed request's `error` event has yet to reach the
  transaction. -/
  | respond (w : World) (i : Nat) (c : Call) (t : Nat) (o : RequestOutcome) :
      w.op = .staging → w.calls[i]? = some (.reading c t o) → w.lock = some i →
      w.bubbling = none →
      CallStep w ({ w with lock := none, bubbling := o.failure }.finish i c t
        (c.answer w.pending w.db (.placed o)) (o != .success))

/-- A segment of `commit`, `rollback`, or the drop of the transaction. -/
inductive AdapterStep : World → World → Prop
  /-- `commit` with nothing staged returns at once. -/
  | commitEmpty (w : World) :
      w.Idle → w.pending = ∅ → AdapterStep w { w.release with op := .committed (.ok ()) }
  /-- `object_store` throws on a finished transaction. -/
  | commitStoreThrows (w : World) (msg : String) :
      w.Idle → w.pending ≠ ∅ → w.tx.state ≠ .active →
      AdapterStep w { w.release with op := .committed (.error (.ofJs (.invalidState msg))) }
  /-- The `i`-th `put_with_key` of the loop throws after `i` requests were placed. -/
  | commitPutThrows (w : World) (order : List (Σ _ : String, Bytes)) (i : Nat)
      (e : DomException) :
      w.Idle → w.pending ≠ ∅ → w.tx.state = .active → order.Perm w.pending.entries →
      i < order.length →
      AdapterStep w { release (w.placePuts (order.take i)) with
                      op := .committed (.error (.ofJs e)) }
  /-- The loop places one put per entry, in the map's iteration order `order`. -/
  | commitIssue (w : World) (order : List (Σ _ : String, Bytes)) :
      w.Idle → w.pending ≠ ∅ → w.tx.state = .active → order.Perm w.pending.entries →
      AdapterStep w { w.placePuts order with op := .awaitPuts order 0 }
  /-- `join_all(puts)` completes. -/
  | putsJoined (w : World) (order : List (Σ _ : String, Bytes)) :
      w.op = .awaitPuts order order.length → AdapterStep w { w with op := .awaitCommit order }
  /-- `wait_until` returns and `commit` reads `tx.error()` and the cell. -/
  | commitOutcome (w : World) (order : List (Σ _ : String, Bytes)) :
      w.op = .awaitCommit order → w.cell ≠ .open →
      AdapterStep w { w.release with op := .committed (commitResult w.tx.error w.cell) }
  /-- `rollback` with nothing staged returns at once. -/
  | rollbackEmpty (w : World) :
      w.Idle → w.pending = ∅ → AdapterStep w { w.release with op := .rolledBack (.ok ()) }
  /-- `rollback` finds the cell already `Committed` or `Aborted`. -/
  | rollbackSettled (w : World) :
      w.Idle → w.pending ≠ ∅ → (w.cell = .committed ∨ w.cell = .aborted) →
      AdapterStep w { w.release with op := .rolledBack (.ok ()) }
  /-- `abort()` throws on a finished transaction. -/
  | rollbackAbortThrows (w : World) (msg : String) :
      w.Idle → w.pending ≠ ∅ → w.cell ≠ .committed → w.cell ≠ .aborted →
      w.tx.state ≠ .active →
      AdapterStep w { w.release with op := .rolledBack (.error (.ofJs (.invalidState msg))) }
  /-- `abort()` aborts the running transaction; `rollback` waits. -/
  | rollbackAbort (w : World) :
      w.Idle → w.pending ≠ ∅ → w.cell ≠ .committed → w.cell ≠ .aborted →
      w.tx.state = .active → AdapterStep w { w.abortTx none with op := .awaitAbort }
  /-- `wait_until` returns and `rollback` reads `tx.error()` and the cell. -/
  | rollbackOutcome (w : World) :
      w.op = .awaitAbort → w.cell ≠ .open →
      AdapterStep w { w.release with op := .rolledBack (rollbackResult w.tx.error w.cell) }
  /-- The transaction is dropped. -/
  | drop (w : World) : w.Idle → AdapterStep w { w.release with op := .dropped }

/-- An action of the backend on the transaction. While a failed read's `error` event is still
being dispatched, the backend does nothing but finish that dispatch. -/
inductive BackendStep : World → World → Prop
  /-- The head request executes and its live `onsuccess` closure acknowledges it. -/
  | exec (w : World) (r : PutRequest) (rest : List PutRequest) :
      w.tx.state = .active → w.tx.queue = r :: rest → r.onSuccess = .live →
      w.bubbling = none → BackendStep w { w with tx := w.tx.exec r rest, op := w.op.ack }
  /-- The head request executes but its `onsuccess` closure was dropped and throws, so the
  transaction aborts. -/
  | execThrows (w : World) (r : PutRequest) (rest : List PutRequest) (msg : String) :
      w.tx.state = .active → w.tx.queue = r :: rest → r.onSuccess ≠ .live →
      w.bubbling = none → BackendStep w (w.abortTx (some (.abortError msg)))
  /-- The head request fails; its `error` event bubbles to the transaction, which aborts. -/
  | fail (w : World) (r : PutRequest) (rest : List PutRequest) (e : DomException) :
      w.tx.state = .active → w.tx.queue = r :: rest → w.bubbling = none →
      BackendStep w (({ w with tx := { w.tx with queue := rest } }.fire .error).abortTx (some e))
  /-- With no request outstanding the transaction commits on its own. -/
  | autoCommit (w : World) :
      w.tx.state = .active → w.tx.queue = [] → w.lock = none → w.bubbling = none →
      BackendStep w ({ w with db := w.db.putAll w.tx.writes, tx := w.tx.commit }.fire .complete)
  /-- The backend aborts the transaction with an error. A read's request still outstanding
  fails first, and its `error` event precedes the `abort` event: that is a failing read
  followed by `bubble`. -/
  | abort (w : World) (e : DomException) :
      w.tx.state = .active → w.lock = none → w.bubbling = none →
      BackendStep w (w.abortTx (some e))
  /-- A failed read's `error` event reaches the transaction. -/
  | bubble (w : World) (e : DomException) : w.bubbling = some e → BackendStep w (w.bubble e)

/-- A task spawned by `tx_callback` runs: it writes its state into the cell. Any pending task
may run, after any later step; `PromptStep` keeps the browser's order. -/
inductive TaskStep : World → World → Prop
  | run (w : World) (v : WriteState) :
      v ∈ w.tasks → TaskStep w { w with cell := v, tasks := w.tasks.erase v }

/-- One step of the protocol. -/
inductive Step : World → World → Prop
  | call {w w' : World} : CallStep w w' → Step w w'
  | adapter {w w' : World} : AdapterStep w w' → Step w w'
  | backend {w w' : World} : BackendStep w w' → Step w w'
  | task {w w' : World} : TaskStep w w' → Step w w'

/-- The states some run reaches from `WriteTransaction::new` on a database holding `S`. -/
def Reachable (S : Contents) (w : World) : Prop := Relation.ReflTransGen Step (World.init S) w

/-- `commit` or `rollback` returned, or the transaction was dropped. -/
def Op.Done : Op → Prop
  | .committed _ | .rolledBack _ | .dropped => True
  | _ => False

/-- Once `commit` or `rollback` returned, or the transaction was dropped, no step changes the
adapter's position: only the backend and the spawned tasks still act. -/
lemma Step.op_eq_of_done {w w' : World} (hs : Step w w') (hd : w.op.Done) : w'.op = w.op := by
  have hni : ¬ w.Idle := fun hi => by simp [hi.1, Op.Done] at hd
  rcases hs with hs | hs | hs | hs
  · cases hs <;> simp_all [Op.Done]
  · cases hs <;> simp_all [Op.Done]
  · cases hs with
    | exec => cases h : w.op <;> simp_all [Op.ack, Op.Done]
    | _ => simp
  · cases hs; rfl

/-- The run form of `Step.op_eq_of_done`. -/
lemma op_eq_of_done {w w' : World} (hs : Relation.ReflTransGen Step w w') (hd : w.op.Done) :
    w'.op = w.op := by
  induction hs with
  | refl => rfl
  | tail _ hs ih => rw [hs.op_eq_of_done (ih ▸ hd), ih]

/-- A state reached from a reachable state is reachable. -/
lemma Reachable.trans {S : Contents} {w w' : World} (h : Reachable S w)
    (hs : Relation.ReflTransGen Step w w') : Reachable S w' :=
  Relation.ReflTransGen.trans h hs

end Replicache.Kv
