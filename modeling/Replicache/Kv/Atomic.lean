import Replicache.Kv.Linearizability
import Replicache.Kv.StorePut

set_option relaxedAutoImplicit false
set_option autoImplicit false

/-!
# A write transaction is an atomic transaction

What a `WriteTransaction` is for, seen by everyone else: while it is open, its puts are
staged one at a time and the store other transactions read is untouched; when it commits,
the store changes once, to the store with every staged put replayed. This file states that
abstract transaction as a two-step machine and shows that the protocol of
`Replicache.Kv.Protocol`, with its locks, its per-entry requests, its backend and its
spawned tasks, refines it: every step of the protocol leaves the abstract transaction as it
was, or is one of its steps.

## Main definitions

* `Replicache.Kv.AtomicTx`, `Replicache.Kv.AtomicTx.Step` — the abstract transaction: the
  store other transactions read, and the puts staged; a put is staged while the store holds
  `S`, and the commit replaces `S` by `S` with every staged put.
* `Replicache.Kv.World.abs` — the abstract transaction of a state of the protocol.
* `Replicache.Kv.LogInv` — every logged entry is a call that returned `Ok`, logged once.

## Main results

* `Replicache.Kv.refines_atomicTx` — every step of the protocol is a stutter or one step of
  the abstract transaction, and every reachable state's abstraction is reachable there.
* `Replicache.Kv.commit_ok_durable` — after `commit` returned `Ok(())`, the store holds `S`
  with every staged put in every later state.
* `Replicache.Kv.put_override_agrees` — the default `Store::put` and the override
  `IdbStore::put` leave the same store when both return `Ok(())`.

## References

* `src/kv/idbstore.rs`, lines 90-118 and 219-367.
* `src/kv/mod.rs`, lines 27-31.
-/

namespace Replicache.Kv

open Relation

/-- The transaction as everyone else sees it: the store other transactions read, and the
puts staged on it. -/
@[ext]
structure AtomicTx where
  db : Contents
  log : List (Σ _ : String, Bytes)

namespace AtomicTx

/-- The abstract transaction on a store holding `S`: while the store holds `S` a put is
staged; the commit replaces `S` by `S` with every staged put, in one step. -/
inductive Step (S : Contents) : AtomicTx → AtomicTx → Prop
  | stage (log : List (Σ _ : String, Bytes)) (e : Σ _ : String, Bytes) :
      Step S ⟨S, log⟩ ⟨S, log ++ [e]⟩
  | commit (log : List (Σ _ : String, Bytes)) : Step S ⟨S, log⟩ ⟨S.putAll log, log⟩

variable {S : Contents} {t t' : AtomicTx}

lemma Step.commit_of (hd : t.db = S) (hl : t'.log = t.log) (h : t'.db = S.putAll t.log) :
    Step S t t' := by
  obtain ⟨d, l⟩ := t
  obtain ⟨d', l'⟩ := t'
  simp only at hd hl h
  subst hd hl h
  exact .commit _

end AtomicTx

/-- The abstract transaction of a state: the store other transactions read, and the puts
logged so far. -/
def World.abs (w : World) : AtomicTx := ⟨w.db, w.staged⟩

variable {S : Contents} {w w' : World}

/-- A returning call adds its put, if it is a put that returned `Ok`, to the log. -/
lemma World.abs_finish (i : Nat) (c : Call) (t : Nat) (r : Result Reply) (f : Bool) :
    (w.finish i c t r f).abs = ⟨w.db, w.staged ++ match r with
      | .ok _ => c.staged?.toList
      | .error _ => []⟩ := by
  rw [World.abs, World.staged_finish]; rfl

/-- **Each step of the protocol is a stutter or one step of the atomic transaction.** A put
is staged while the store holds `S`; the store changes only when the transaction commits
on its own, from `S` to `S` with every staged put. -/
lemma Step.refines (h : Reachable S w) (hs : Step w w') :
    w'.abs = w.abs ∨ AtomicTx.Step S w.abs w'.abs := by
  rcases hs with hs | hs | hs | hs
  · cases hs with
    | invoke | suspend => exact .inl rfl
    | run i c t pl hop =>
      have hd : w.db = S := (no_write_of_not_commit h (.inl hop)).2.2.2
      rw [World.abs_finish]
      cases c with
      | put k v => exact .inr (by rw [World.abs, hd]; exact .stage _ _)
      | has k | get k => exact .inl (by split <;> simp [World.abs, World.staged, Call.staged?])
    | respond i c t o _ hr =>
      rw [World.abs_finish, (lockInv_reachable h).staged?_eq_none hr]
      exact .inl (by split <;> simp [World.abs, World.staged])
  · exact .inl (by cases hs <;> simp [World.abs, World.staged, World.placePuts, World.release])
  · cases hs with
    | autoCommit ha hq hl hb =>
      have hd : w.db = S := (commitInv_reachable h).db.of_not_committed (by simp [ha])
      rcases db_all_or_nothing (h.tail (.backend (.autoCommit w ha hq hl hb))) with h₁ | h₁
      · exact .inl (AtomicTx.ext (h₁.trans hd.symm) rfl)
      · exact .inr (AtomicTx.Step.commit_of hd rfl h₁)
    | _ => exact .inl (by simp [World.abs, World.staged, World.fire])
  · cases hs; exact .inl rfl

/-- Every reachable state's abstraction is reachable in the atomic transaction. -/
lemma abs_reachable (h : Reachable S w) : ReflTransGen (AtomicTx.Step S) ⟨S, []⟩ w.abs := by
  induction h with
  | refl => exact .refl
  | tail hr hs ih =>
    rcases hs.refines hr with he | hstep
    · rwa [he]
    · exact ih.tail hstep

/-- **The write transaction refines the atomic transaction.** From every reachable state,
every step of the protocol leaves the store and the staged puts as they were, stages one put
while the store holds `S`, or replaces `S` by `S` with every staged put; and the abstraction
of every reachable state is reachable in the atomic transaction. -/
theorem refines_atomicTx (h : Reachable S w) :
    (∀ w', Step w w' → w'.abs = w.abs ∨ AtomicTx.Step S w.abs w'.abs) ∧
      ReflTransGen (AtomicTx.Step S) ⟨S, []⟩ w.abs :=
  ⟨fun _ hs => hs.refines h, abs_reachable h⟩

/-- The state after a committed put of `k` on a store with no key. -/
theorem refines_atomicTx_committed :
    Reachable (fun _ => none) (World.trace (fun _ => none) committedPutRun) ∧
      (∀ w', Step (World.trace (fun _ => none) committedPutRun) w' →
        w'.abs = (World.trace (fun _ => none) committedPutRun).abs ∨
          AtomicTx.Step (fun _ => none) (World.trace (fun _ => none) committedPutRun).abs
            w'.abs) ∧
      ReflTransGen (AtomicTx.Step (fun _ => none)) ⟨fun _ => none, []⟩
        (World.trace (fun _ => none) committedPutRun).abs :=
  have h := World.reachable_trace (by decide)
  ⟨h, refines_atomicTx h⟩

/-- Once `commit` or `rollback` took the transaction no call runs, so the log is fixed. -/
lemma Step.lin_eq (hs : Step w w') (hop : w.op ≠ .staging) : w'.lin = w.lin := by
  rcases hs with hs | hs | hs | hs
  · cases hs <;> simp_all
  · cases hs <;> simp [World.placePuts]
  · cases hs <;> simp
  · cases hs; rfl

/-- **`commit` returning `Ok(())` is durable.** After `commit` returned `Ok(())`, the store
holds `S` with the staged puts replayed in staging order, in that state and in every later
one, whatever the backend and the spawned tasks still do. -/
theorem commit_ok_durable (h : Reachable S w) (hop : w.op = .committed (.ok ()))
    (hs : ReflTransGen Step w w') : w'.db = S.putAll w.staged := by
  have hd : w.op.Done := by simp [hop, Op.Done]
  have hlin : w'.lin = w.lin := by
    induction hs with
    | refl => rfl
    | tail hs₁ hs₂ ih => rw [hs₂.lin_eq (by rw [op_eq_of_done hs₁ hd, hop]; simp), ih]
  rw [db_of_commit_ok (h.trans hs) ((op_eq_of_done hs hd).trans hop), World.staged, hlin]
  rfl

/-- `commit` with nothing staged returns `Ok(())` at once, and the transaction then commits on
its own. -/
theorem commit_ok_durable_autoCommit :
    Reachable (fun _ => none) (World.trace (fun _ => none) [.commitEmpty]) ∧
      (World.trace (fun _ => none) [.commitEmpty]).op = .committed (.ok ()) ∧
      ReflTransGen Step (World.trace (fun _ => none) [.commitEmpty])
        (World.trace (fun _ => none) [.commitEmpty, .autoCommit]) ∧
      (World.trace (fun _ => none) [.commitEmpty, .autoCommit]).db =
        Contents.putAll (fun _ => none) (World.trace (fun _ => none) [.commitEmpty]).staged :=
  have h := World.reachable_trace (by decide)
  have hop : (World.trace (fun _ => none) [.commitEmpty]).op = .committed (.ok ()) := by decide
  have hs : ReflTransGen Step (World.trace (fun _ => none) [.commitEmpty])
      (World.trace (fun _ => none) [.commitEmpty, .autoCommit]) :=
    @World.trace_append (fun _ => none) [.commitEmpty] [.autoCommit] (by decide)
  ⟨h, hop, hs, commit_ok_durable h hop hs⟩

/-! ## The default `Store::put` and the override -/

/-- Every logged entry is a call that returned `Ok` with the logged reply, and no call is
logged twice. -/
structure LogInv (w : World) : Prop where
  returned : ∀ e ∈ w.lin, w.calls[e.id]? = some (.returned e.call (.ok e.reply))
  nodup : (w.lin.map (·.id)).Nodup

namespace LogInv

lemma frame (h : LogInv w) (h₁ : w'.calls = w.calls) (h₂ : w'.lin = w.lin) : LogInv w' := by
  obtain ⟨h₃, h₄⟩ := h
  exact ⟨h₁ ▸ h₂ ▸ h₃, h₂ ▸ h₄⟩

/-- A call that had not returned returns, and is logged if it returned `Ok`. -/
lemma finish (h : LogInv w) {i : Nat} {s : CallState} (hi : w.calls[i]? = some s)
    (hs : s.isReturned = false) (c : Call) (t : Nat) (r : Result Reply) (f : Bool) :
    LogInv (w.finish i c t r f) := by
  have hne : ∀ e ∈ w.lin, e.id ≠ i := fun e he hei => by
    have := h.returned e he
    rw [hei, hi] at this
    cases this
    simp [CallState.isReturned] at hs
  have hold : ∀ e ∈ w.lin,
      (w.finish i c t r f).calls[e.id]? = some (.returned e.call (.ok e.reply)) := fun e he => by
    rw [World.finish_calls, List.getElem?_set_ne (hne e he).symm]
    exact h.returned e he
  cases r with
  | error => exact ⟨hold, h.nodup⟩
  | ok rep =>
    refine ⟨fun e he => ?_, ?_⟩
    · simp only [World.finish_lin, List.mem_append, List.mem_singleton] at he
      rcases he with he | rfl
      · exact hold e he
      · simp [List.getElem?_set_self (List.getElem?_eq_some_iff.1 hi).1]
    · simp only [World.finish_lin, List.map_append, List.map_singleton]
      exact List.nodup_append.2 ⟨h.nodup, List.nodup_singleton _,
        List.disjoint_singleton.2 fun hm => by
          obtain ⟨e, he, hei⟩ := List.mem_map.1 hm
          exact hne e he hei⟩

/-- **`LogInv` is preserved by every step.** -/
theorem step (h : LogInv w) (hs : Step w w') : LogInv w' := by
  rcases hs with hs | hs | hs | hs
  · cases hs with
    | invoke c _ =>
      refine ⟨fun e he => ?_, h.nodup⟩
      have := h.returned e he
      rw [List.getElem?_append_left (List.getElem?_eq_some_iff.1 this).1]
      exact this
    | run i c t pl _ hi =>
      exact LogInv.finish (w := { w with pending := c.stage w.pending }) (h.frame rfl rfl) hi rfl
        _ _ _ _
    | suspend i c t o _ hi =>
      refine ⟨fun e he => ?_, h.nodup⟩
      have hei : e.id ≠ i := fun hei => by have := h.returned e he; rw [hei, hi] at this; cases this
      rw [List.getElem?_set_ne (Ne.symm hei)]
      exact h.returned e he
    | respond i c t o _ hi =>
      exact LogInv.finish (w := { w with lock := none, bubbling := o.failure }) (h.frame rfl rfl) hi
        rfl _ _ _ _
  · cases hs <;> exact h.frame (by simp [World.placePuts]) (by simp [World.placePuts])
  · cases hs <;> exact h.frame (by simp) (by simp)
  · cases hs; exact h.frame rfl rfl

end LogInv

lemma logInv_reachable (h : Reachable S w) : LogInv w := by
  induction h with
  | refl => exact ⟨fun _ h => by simp at h, by simp⟩
  | tail _ hs ih => exact ih.step hs

/-- When the only call made is one `put` that returned `Ok`, the log holds that put. -/
lemma staged_of_single_put (h : Reachable S w) {k : String} {v : Bytes}
    (hc : w.calls = [.returned (.put k v) (.ok .unit)]) : w.staged = [⟨k, v⟩] := by
  have hl := logInv_reachable h
  obtain ⟨e, he, he₁, he₂, -⟩ := (linInv_reachable h).logged 0 (.put k v) .unit (by simp [hc])
  have hid : ∀ e' ∈ w.lin, e'.id = 0 := fun e' he' => by
    have := (List.getElem?_eq_some_iff.1 (hl.returned e' he')).1
    simp only [hc, List.length_singleton] at this
    omega
  have hlin : w.lin = [e] := by
    match hw : w.lin, he, hl.nodup with
    | [a], he, _ => rw [List.mem_singleton.1 he]
    | a :: b :: rest, _, hn =>
      have ha := hid a (by simp [hw])
      have hb := hid b (by simp [hw])
      simp [ha, hb] at hn
  simp [World.staged, hlin, he₂, Call.staged?]

/-- **The override of `put` agrees with the default `put` when both return `Ok`.** On a
store holding `S`, a run of the trait's default `put(key, value)` (a write transaction, one
`put`, then `commit`) that returned `Ok(())`, and a run of `IdbStore::put(key, value)` that
returned `Ok(())`, leave the same store: `S` with `key` holding `value`. -/
theorem put_override_agrees {key : String} {value : Bytes} (h : Reachable S w)
    (hc : w.calls = [.returned (.put key value) (.ok .unit)]) (hop : w.op = .committed (.ok ()))
    {w₂ : IdbStore.PutWorld} (hp : IdbStore.PutReachable key value S w₂)
    (hr : w₂.pc = .returned (.ok ())) :
    w.db = Function.update S key (some value) ∧ w₂.db = Function.update S key (some value) :=
  ⟨by rw [db_of_commit_ok h hop, staged_of_single_put h hc]; rfl,
    by rw [IdbStore.put_returns_ok hp hr]; rfl⟩

/-- A run of the override that stores `[1]` under `k` and returns `Ok(())`. -/
def okPutWorld : IdbStore.PutWorld :=
  IdbStore.PutWorld.trace "k" [1] (fun _ => none) [.issue, .exec, .requestSettled, .autoCommit,
    .completed]

/-- The committed default put and the override, both of `[1]` under `k`. -/
theorem put_override_agrees_committed :
    (World.trace (fun _ => none) committedPutRun).db =
        Function.update (fun _ => none) "k" (some [1]) ∧
      okPutWorld.db = Function.update (fun _ => none) "k" (some [1]) :=
  put_override_agrees (World.reachable_trace (by decide)) (by decide) (by decide)
    (IdbStore.PutWorld.reachable_trace (by decide)) (by decide)

end Replicache.Kv
