import Mathlib.Data.List.Sigma

set_option relaxedAutoImplicit false
set_option autoImplicit false

/-!
# Values, errors and backend reads of the key-value store

The data model shared by every part of `src/kv`: values are byte vectors, every failure is a
`StoreError::Str` carrying a diagnostic string, and the backend's object store `chunks` maps
string keys to stored values. A read (`has`, `get`) places one request on the backend and,
once the request's success or error event has fired, decodes the request's `result`.

The backend is IndexedDB. Two of its rules decide what a read returns: the `result` getter of
a request that failed returns `undefined` rather than throwing, and a count request produces
a number. Requests are therefore modelled by what the backend does with them
(`Placement`, `RequestOutcome`), and reads are functions of that choice, so that every result
below holds for every behaviour of the backend.

## Main definitions

* `Replicache.Kv.StoreError`, `Replicache.Kv.Result` — `kv::StoreError`, `kv::Result`.
* `Replicache.Kv.Contents`, `Replicache.Kv.Contents.putAll` — the contents of the object
  store, and the contents after a list of puts executed in order.
* `Replicache.Kv.ReadTransaction.has`, `Replicache.Kv.ReadTransaction.get` — the reads of
  `impl Read for ReadTransaction`.
* `Replicache.Kv.Store.has`, `Replicache.Kv.Store.get` — the `Store` trait's default
  `has`/`get`; `Replicache.Kv.IdbStore.has`, `Replicache.Kv.IdbStore.get` — the overrides.

## Main results

* `Replicache.Kv.Contents.putAll_apply` — after a list of puts a key holds the value of its
  last put, else its old value.
* `Replicache.Kv.ReadTransaction.get_success`, `has_success` — a read whose request succeeds
  returns the stored bytes exactly (an empty value is `some []`), and `has` agrees with it.
* `Replicache.Kv.ReadTransaction.get_error`, `has_error` — a read whose request fails returns
  `Ok(None)` and `Ok(false)`: the failure is not reported.
* `Replicache.Kv.IdbStore.has_eq`, `Replicache.Kv.IdbStore.get_eq` — the overrides agree with
  the defaults for every backend behaviour.

## References

* `src/kv/mod.rs` (`StoreError`, `Store`, `Read`), `src/kv/idbstore.rs` (lines 13-30 and
  120-209).
-/

namespace Replicache.Kv

/-- Results compare by constructor and payload, so that runs of the model evaluate. -/
instance instDecidableEqExcept {ε α : Type} [DecidableEq ε] [DecidableEq α] :
    DecidableEq (Except ε α)
  | .ok a, .ok b => decidable_of_iff (a = b) (by simp)
  | .error a, .error b => decidable_of_iff (a = b) (by simp)
  | .ok _, .error _ => isFalse (by simp)
  | .error _, .ok _ => isFalse (by simp)

/-- A stored value, `Vec<u8>`. -/
abbrev Bytes := List UInt8

/-- `kv::StoreError`: one variant carrying a diagnostic string. -/
inductive StoreError where
  | str (s : String)
  deriving DecidableEq, Repr

/-- `kv::Result`. -/
abbrev Result (α : Type) := Except StoreError α

/-! ## Backend exceptions -/

/-- A `DOMException` the backend throws or reports, by name and message. -/
structure DomException where
  name : String
  message : String
  deriving DecidableEq, Repr

namespace DomException

/-- The rendering of the thrown `JsValue` by its `Debug` implementation. -/
def jsDebug (e : DomException) : String :=
  "JsValue(" ++ e.name ++ ": " ++ e.message ++ ")"

/-- The rendering of a `web_sys::DomException` by its derived `Debug` implementation, as
`commit` and `rollback` format `tx.error()`. -/
def debug (e : DomException) : String :=
  "DomException \x7b obj: Object \x7b obj: " ++ e.jsDebug ++ " \x7d \x7d"

/-- The exception IndexedDB throws from a call on a transaction that has finished. -/
def invalidState (message : String) : DomException := ⟨"InvalidStateError", message⟩

/-- The error IndexedDB gives a transaction it aborts because a listener threw. -/
def abortError (message : String) : DomException := ⟨"AbortError", message⟩

end DomException

/-- `impl From<JsValue> for StoreError`: the `?` on a failed `web_sys` call. -/
def StoreError.ofJs (e : DomException) : StoreError := .str e.jsDebug

/-- The `?` operator on a `web_sys` call that throws `e`, or returns normally on `none`. -/
def jsTry : Option DomException → Result Unit
  | none => .ok ()
  | some e => .error (.ofJs e)

@[simp] lemma jsTry_none : jsTry none = .ok () := rfl

@[simp] lemma jsTry_some (e : DomException) : jsTry (some e) = .error (.ofJs e) := rfl

/-! ## The object store's contents -/

/-- The contents of the object store `chunks`: the value stored under each key. -/
abbrev Contents := String → Option Bytes

/-- The contents after the puts of a list are executed one after another. -/
def Contents.putAll (c : Contents) : List (Σ _ : String, Bytes) → Contents
  | [] => c
  | e :: rest => Contents.putAll (Function.update c e.1 (some e.2)) rest

namespace Contents

variable (c : Contents)

@[simp] lemma putAll_nil : c.putAll [] = c := rfl

@[simp] lemma putAll_cons (e : Σ _ : String, Bytes) (l : List (Σ _ : String, Bytes)) :
    c.putAll (e :: l) = Contents.putAll (Function.update c e.1 (some e.2)) l := rfl

/-- **Last put wins.** After the puts of `l`, a key holds the value of its last put in `l`
(the first in `l.reverse`), and otherwise its old value. -/
lemma putAll_apply (l : List (Σ _ : String, Bytes)) (k : String) :
    c.putAll l k = (l.reverse.dlookup k).or (c k) := by
  induction l generalizing c with
  | nil => rfl
  | cons e l ih =>
    obtain ⟨a, b⟩ := e
    rw [putAll_cons, ih, List.reverse_cons, List.dlookup_append]
    cases l.reverse.dlookup k with
    | some v => rfl
    | none =>
      by_cases hk : k = a
      · subst hk; simp [List.dlookup_cons_eq]
      · simp [Function.update_noteq hk,
          List.dlookup_cons_ne [] (⟨a, b⟩ : Σ _ : String, Bytes) hk]

/-- In a list of distinct keys, the last entry of a key is its only one. -/
lemma dlookup_reverse {l : List (Σ _ : String, Bytes)} (h : l.NodupKeys) (k : String) :
    l.reverse.dlookup k = l.dlookup k :=
  List.perm_dlookup k ((List.perm_nodupKeys (List.reverse_perm _)).2 h) h (List.reverse_perm _)

/-- Puts of distinct keys commute: two orders of one list of distinct keys give the same
contents. -/
lemma putAll_perm {l₁ l₂ : List (Σ _ : String, Bytes)} (hp : l₁.Perm l₂)
    (hnd : l₁.NodupKeys) : c.putAll l₁ = c.putAll l₂ := by
  have hnd₂ : l₂.NodupKeys := (List.perm_nodupKeys hp).1 hnd
  funext k
  rw [putAll_apply, putAll_apply, dlookup_reverse hnd, dlookup_reverse hnd₂,
    List.perm_dlookup k hnd hnd₂ hp]

end Contents

/-! ## Reads -/

/-- The values a request's `result` getter hands back to the adapter. -/
inductive JsValue where
  | undefined
  | number (n : Nat)
  | uint8Array (bytes : Bytes)
  deriving DecidableEq, Repr

/-- How the backend answers a request it accepted: with its success event, or with its error
event and the error it reports. -/
inductive RequestOutcome where
  | success
  | error (e : DomException)
  deriving DecidableEq, Repr

/-- What the backend does with a request the adapter makes: it throws from the call that
would place it, or accepts it and answers it later. -/
inductive Placement where
  | throws (e : DomException)
  | placed (o : RequestOutcome)
  deriving DecidableEq, Repr

/-- `IDBRequest.result` once the request is done: what the request produced after its success
event, `undefined` after its error event. -/
def requestResult (produced : JsValue) : RequestOutcome → JsValue
  | .success => produced
  | .error _ => .undefined

/-- What `count_with_key` produces: the number of records under the key. -/
def countOf (c : Contents) (key : String) : JsValue :=
  .number (if (c key).isSome then 1 else 0)

/-- What `get` produces: `undefined` for a missing key, else the stored `Uint8Array`. -/
def getOf (c : Contents) (key : String) : JsValue :=
  match c key with
  | none => .undefined
  | some v => .uint8Array v

/-- `match request.result()?.as_f64() { Some(v) if v >= 1.0 => true, _ => false }`. -/
def decodeHas : JsValue → Bool
  | .number n => 1 ≤ n
  | _ => false

/-- `match request.result()? { v if v.is_undefined() => None, v => Some(...to_vec()) }`;
`Uint8Array::new` of a number is a zero-filled array of that length. -/
def decodeGet : JsValue → Option Bytes
  | .undefined => none
  | .number n => some (List.replicate n 0)
  | .uint8Array v => some v

namespace ReadTransaction

/-- `ReadTransaction::has`: place a count request on the transaction's object store, await
the callback fired by its success or its error event, decode the result. -/
def has (c : Contents) (key : String) : Placement → Result Bool
  | .throws e => .error (.ofJs e)
  | .placed o => .ok (decodeHas (requestResult (countOf c key) o))

/-- `ReadTransaction::get`: as `has`, with a get request. -/
def get (c : Contents) (key : String) : Placement → Result (Option Bytes)
  | .throws e => .error (.ofJs e)
  | .placed o => .ok (decodeGet (requestResult (getOf c key) o))

variable (c : Contents) (key : String)

/-- A get whose request succeeds returns the stored bytes exactly; an empty value is
`some []`, never `none`. -/
@[simp] lemma get_success : get c key (.placed .success) = .ok (c key) := by
  cases h : c key <;> simp [get, requestResult, getOf, decodeGet, h]

/-- A `has` whose request succeeds agrees with `get`. -/
@[simp] lemma has_success : has c key (.placed .success) = .ok (c key).isSome := by
  cases h : c key <;> simp [has, requestResult, countOf, decodeHas, h]

/-- A get whose request fails returns `Ok(None)`: `result` is `undefined` after an error
event, and the error is not looked at. -/
@[simp] lemma get_error (e : DomException) : get c key (.placed (.error e)) = .ok none := rfl

/-- A `has` whose request fails returns `Ok(false)`. -/
@[simp] lemma has_error (e : DomException) : has c key (.placed (.error e)) = .ok false := rfl

end ReadTransaction

/-! ## One-shot reads on the store -/

/-- What the backend does with each call of a one-shot read: whether `transaction_with_str`
throws, whether `object_store` throws, and what becomes of the request. -/
structure ReadEnv where
  transaction : Option DomException
  objectStore : Option DomException
  request : Placement
  deriving DecidableEq, Repr

/-- `ReadTransaction::new`: open a read-only transaction and its object store. -/
def ReadTransaction.new (env : ReadEnv) : Result Unit := do
  jsTry env.transaction
  jsTry env.objectStore

/-- The `Store` trait's default `has`: `self.read().await?.has(key).await?`. -/
def Store.has (c : Contents) (key : String) (env : ReadEnv) : Result Bool := do
  ReadTransaction.new env
  ReadTransaction.has c key env.request

/-- The `Store` trait's default `get`: `self.read().await?.get(key).await?`. -/
def Store.get (c : Contents) (key : String) (env : ReadEnv) : Result (Option Bytes) := do
  ReadTransaction.new env
  ReadTransaction.get c key env.request

/-- `IdbStore::has`: the override, written out in place. -/
def IdbStore.has (c : Contents) (key : String) (env : ReadEnv) : Result Bool := do
  jsTry env.transaction
  jsTry env.objectStore
  match env.request with
  | .throws e => throw (.ofJs e)
  | .placed o => pure (decodeHas (requestResult (countOf c key) o))

/-- `IdbStore::get`: the override, written out in place. -/
def IdbStore.get (c : Contents) (key : String) (env : ReadEnv) : Result (Option Bytes) := do
  jsTry env.transaction
  jsTry env.objectStore
  match env.request with
  | .throws e => throw (.ofJs e)
  | .placed o => pure (decodeGet (requestResult (getOf c key) o))

/-- `IdbStore::has` agrees with the default `has` for every behaviour of the backend. -/
lemma IdbStore.has_eq (c : Contents) (key : String) (env : ReadEnv) :
    IdbStore.has c key env = Store.has c key env := by
  obtain ⟨t, s, r⟩ := env
  cases t <;> cases s <;> cases r <;> rfl

/-- `IdbStore::get` agrees with the default `get` for every behaviour of the backend. -/
lemma IdbStore.get_eq (c : Contents) (key : String) (env : ReadEnv) :
    IdbStore.get c key env = Store.get c key env := by
  obtain ⟨t, s, r⟩ := env
  cases t <;> cases s <;> cases r <;> rfl

end Replicache.Kv
