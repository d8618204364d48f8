import Replicache.Kv.Store

set_option relaxedAutoImplicit false
set_option autoImplicit false

/-!
# IndexedDB transactions, as the adapter drives them

The part of IndexedDB that `src/kv/idbstore.rs` depends on, for one read-write transaction
on the object store `chunks`:

* requests are placed in order and executed in order; a put that executes adds its write
  to the transaction, and each execution fires the request's `success` event, or its `error`
  event when it fails;
* a failed request's `error` event bubbles to the transaction, and since the adapter never
  cancels it the transaction is then aborted with the request's error;
* when a request's `success` listener throws, the transaction is aborted with an
  `AbortError`;
* a transaction with no request left commits on its own; `abort()` (or a failure of the
  backend) aborts it; commit applies its writes, abort discards them and fails its queued
  requests, and either fires the transaction's `complete` or `abort` event once.

Listeners are wasm-bindgen closures made by `Closure::once`. Invoking one a second time, or
after its Rust owner dropped it, throws a JavaScript exception; the model records this in
`Handler`.

## Main definitions

* `Replicache.Kv.Tx` — one transaction: queued requests, executed writes, state, error.
* `Replicache.Kv.Handler` — the state of a `Closure::once` listener.
* `Replicache.Kv.TxEvent` — the transaction-level events `complete`, `abort`, `error`.

## References

* `src/kv/idbstore.rs`, lines 211-367.
-/

namespace Replicache.Kv

/-- The lifecycle of an IndexedDB transaction. -/
inductive TxState where
  /-- Running: it accepts requests and executes them in order. -/
  | active
  /-- Finished by committing its writes. -/
  | committed
  /-- Finished by discarding its writes. -/
  | aborted
  deriving DecidableEq, Repr

/-- A listener registered by the adapter, a `Closure::once`: still callable, already called,
or dropped with its Rust owner. Calling a spent or dropped closure throws. -/
inductive Handler where
  | live
  | spent
  | dropped
  deriving DecidableEq, Repr

/-- The transaction-level events, in the order `WriteTransaction::new` registers their
listeners: `oncomplete`, `onabort`, `onerror`. -/
inductive TxEvent where
  | complete
  | abort
  | error
  deriving DecidableEq, Repr

/-- A put request placed by `put_with_key`, and its `onsuccess` listener. -/
structure PutRequest where
  key : String
  value : Bytes
  onSuccess : Handler
  deriving DecidableEq, Repr

namespace PutRequest

/-- The write a request performs. -/
def entry (r : PutRequest) : Σ _ : String, Bytes := ⟨r.key, r.value⟩

/-- A put request for an entry, with the given listener. -/
def ofEntry (h : Handler) (e : Σ _ : String, Bytes) : PutRequest := ⟨e.1, e.2, h⟩

/-- The request once its listener's owner is dropped. -/
def drop (r : PutRequest) : PutRequest := { r with onSuccess := .dropped }

@[simp] lemma entry_ofEntry (h : Handler) (e : Σ _ : String, Bytes) : (ofEntry h e).entry = e :=
  rfl

@[simp] lemma ofEntry_onSuccess (h : Handler) (e : Σ _ : String, Bytes) :
    (ofEntry h e).onSuccess = h := rfl

@[simp] lemma drop_onSuccess (r : PutRequest) : r.drop.onSuccess = .dropped := rfl

end PutRequest

/-- One read-write IndexedDB transaction. -/
structure Tx where
  /-- Placed requests not yet executed, in order. -/
  queue : List PutRequest
  /-- The writes of the executed requests, in order. -/
  writes : List (Σ _ : String, Bytes)
  state : TxState
  /-- `IDBTransaction.error`. -/
  error : Option DomException

namespace Tx

/-- A transaction just opened. -/
def fresh : Tx := ⟨[], [], .active, none⟩

/-- Place requests after those already queued. -/
def place (t : Tx) (rs : List PutRequest) : Tx := { t with queue := t.queue ++ rs }

/-- Execute the head request `r` of the queue `r :: rest`. -/
def exec (t : Tx) (r : PutRequest) (rest : List PutRequest) : Tx :=
  { t with queue := rest, writes := t.writes ++ [r.entry] }

/-- `abort a transaction`: discard the writes and the queued requests, record the error. -/
def abort (t : Tx) (e : Option DomException) : Tx :=
  { t with queue := [], writes := [], state := .aborted, error := e }

/-- `commit a transaction`. -/
def commit (t : Tx) : Tx := { t with state := .committed }

/-- The queued requests once their listeners' owner is dropped. -/
def dropHandlers (t : Tx) : Tx := { t with queue := t.queue.map PutRequest.drop }

variable (t : Tx)

@[simp] lemma fresh_queue : fresh.queue = [] := rfl
@[simp] lemma fresh_writes : fresh.writes = [] := rfl
@[simp] lemma fresh_state : fresh.state = .active := rfl
@[simp] lemma fresh_error : fresh.error = none := rfl
@[simp] lemma place_queue (rs : List PutRequest) : (t.place rs).queue = t.queue ++ rs := rfl
@[simp] lemma place_writes (rs : List PutRequest) : (t.place rs).writes = t.writes := rfl
@[simp] lemma place_state (rs : List PutRequest) : (t.place rs).state = t.state := rfl
@[simp] lemma place_error (rs : List PutRequest) : (t.place rs).error = t.error := rfl
@[simp] lemma exec_queue (r : PutRequest) (rest : List PutRequest) :
    (t.exec r rest).queue = rest := rfl
@[simp] lemma exec_writes (r : PutRequest) (rest : List PutRequest) :
    (t.exec r rest).writes = t.writes ++ [r.entry] := rfl
@[simp] lemma exec_state (r : PutRequest) (rest : List PutRequest) :
    (t.exec r rest).state = t.state := rfl
@[simp] lemma exec_error (r : PutRequest) (rest : List PutRequest) :
    (t.exec r rest).error = t.error := rfl
@[simp] lemma abort_queue (e : Option DomException) : (t.abort e).queue = [] := rfl
@[simp] lemma abort_writes (e : Option DomException) : (t.abort e).writes = [] := rfl
@[simp] lemma abort_state (e : Option DomException) : (t.abort e).state = .aborted := rfl
@[simp] lemma abort_error (e : Option DomException) : (t.abort e).error = e := rfl
@[simp] lemma commit_queue : t.commit.queue = t.queue := rfl
@[simp] lemma commit_writes : t.commit.writes = t.writes := rfl
@[simp] lemma commit_state : t.commit.state = .committed := rfl
@[simp] lemma commit_error : t.commit.error = t.error := rfl
@[simp] lemma dropHandlers_queue : t.dropHandlers.queue = t.queue.map PutRequest.drop := rfl
@[simp] lemma dropHandlers_writes : t.dropHandlers.writes = t.writes := rfl
@[simp] lemma dropHandlers_state : t.dropHandlers.state = t.state := rfl
@[simp] lemma dropHandlers_error : t.dropHandlers.error = t.error := rfl

/-- Once their owner is dropped, no queued request has a live listener. -/
lemma dropHandlers_onSuccess {r : PutRequest} (h : r ∈ t.dropHandlers.queue) :
    r.onSuccess = .dropped := by
  obtain ⟨a, -, rfl⟩ := List.mem_map.1 h
  rfl

/-! ### What is left of a transaction -/

/-- What is left of the transaction: its queued requests, and its end while it is active. -/
def rank (t : Tx) : Nat := t.queue.length + if t.state = .active then 1 else 0

lemma rank_exec {r : PutRequest} {rest : List PutRequest} (hq : t.queue = r :: rest) :
    (t.exec r rest).rank + 1 = t.rank := by
  simp [rank, hq]; omega

lemma rank_abort (ha : t.state = .active) (e : Option DomException) :
    (t.abort e).rank + t.queue.length + 1 = t.rank := by
  simp [rank, ha]

lemma rank_commit (ha : t.state = .active) (hq : t.queue = []) : t.commit.rank + 1 = t.rank := by
  simp [rank, ha, hq]

@[simp] lemma rank_place (rs : List PutRequest) : (t.place rs).rank = t.rank + rs.length := by
  simp [rank]; omega

@[simp] lemma rank_dropHandlers : t.dropHandlers.rank = t.rank := by simp [rank]

end Tx

end Replicache.Kv
