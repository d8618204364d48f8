import Replicache.Kv.Commit

set_option relaxedAutoImplicit false
set_option autoImplicit false

/-!
# The calls on a write transaction are linearizable, failed reads apart

Each call on a `WriteTransaction` takes the pending lock, and `has` and `get` hold it across
their backend read, so the calls' critical sections run one at a time and the database does
not change while the transaction is open. A call that returns `Ok` is logged, with the
times it was invoked and returned, at the step it returns. This file shows that the log is
a linearization: it contains every call that returned `Ok`, it respects real-time order,
and each logged call returned what the overlay specification says after the puts logged
before it, except a read whose backend request failed, which reports the key as absent.

## Main definitions

* `Replicache.Kv.Call.spec` — the overlay specification of one call.
* `Replicache.Kv.LinInv` — the log invariant.

## Main results

* `Replicache.Kv.linInv_reachable` — `LinInv` holds in every reachable state.
* `Replicache.Kv.lin_realtime` — the log respects real-time order.
* `Replicache.Kv.linearizable_of_reachable` — every call that returned `Ok` is logged with its
  reply, and a logged call whose backend read did not fail replied what the puts logged before
  it give.
* `Replicache.Kv.get_misses_stored_key`, `Replicache.Kv.read_after_commit_misses_value` —
  a failed backend read returns `Ok(None)` for a key that holds a value.

## References

* `src/kv/idbstore.rs`, lines 174-209 and 270-299.
-/

namespace Replicache.Kv

open World

/-- The overlay specification of a call after the puts `σ`, on a store holding `S`: `get(k)`
returns the value of the latest put of `k`, else `S(k)`; `has(k)` returns whether some put
targeted `k` or `S` holds `k`. -/
def Call.spec (S : Contents) (σ : List (Σ _ : String, Bytes)) : Call → Reply
  | .put _ _ => .unit
  | .has k => .bool (decide (k ∈ σ.keys) || (S k).isSome)
  | .get k => .value ((σ.reverse.dlookup k).or (S k))

lemma Pending.mem_ofStaged_iff {σ : List (Σ _ : String, Bytes)} {k : String} :
    k ∈ Pending.ofStaged σ ↔ k ∈ σ.keys := by
  rw [Pending.mem_ofStaged, List.dlookup_isSome]
  simp [List.keys]

namespace Call

variable {S : Contents} {σ : List (Σ _ : String, Bytes)} {c : Call}

/-- With a succeeding backend read, a call returns what the specification says. -/
lemma answer_success (S : Contents) (σ : List (Σ _ : String, Bytes)) (c : Call) :
    c.answer (Pending.ofStaged σ) S (.placed .success) = .ok (c.spec S σ) := by
  cases c with
  | put k v => rfl
  | has k =>
    simp only [answer, WriteTransaction.has_success, Contents.putAll_apply, spec]
    cases h : σ.reverse.dlookup k <;> simp_all [← Pending.mem_ofStaged_iff, Pending.mem_ofStaged]
  | get k => simp only [answer, WriteTransaction.get_success, Contents.putAll_apply, spec]; rfl

/-- A call that does not read the backend and returns `Ok` returns what the specification
says: it is a put or a read of a staged key. -/
lemma answer_of_not_suspends {pl : Placement} {rep : Reply}
    (hs : c.suspends (Pending.ofStaged σ) pl = false)
    (ha : c.answer (Pending.ofStaged σ) S pl = .ok rep) : rep = c.spec S σ := by
  cases c with
  | put k v => cases ha; rfl
  | has k =>
    by_cases hk : k ∈ Pending.ofStaged σ
    · simp only [answer, WriteTransaction.has, if_pos hk] at ha
      cases ha
      simp [spec, ← Pending.mem_ofStaged_iff, hk]
    · cases pl <;> simp_all [suspends, answer, WriteTransaction.has, ReadTransaction.has]
  | get k =>
    cases hl : (Pending.ofStaged σ).lookup k with
    | some v =>
      simp only [answer, WriteTransaction.get, hl] at ha
      cases ha
      simp [spec, ← Pending.lookup_ofStaged, hl]
    | none =>
      have hk : k ∉ Pending.ofStaged σ := by rw [← AList.lookup_isSome, hl]; simp
      cases pl <;> simp_all [suspends, answer, WriteTransaction.get, ReadTransaction.get]

/-- A read whose backend request failed reports its key as absent. -/
lemma answer_of_error {p : Pending} {e : DomException}
    (hs : c.suspends p (.placed (.error e)) = true) :
    c.staged? = none ∧ (c.answer p S (.placed (.error e)) = .ok (.bool false) ∨
      c.answer p S (.placed (.error e)) = .ok (.value none)) := by
  cases c with
  | get k =>
    have hl : p.lookup k = none := AList.lookup_eq_none.2 (by simpa [suspends] using hs)
    simp [staged?, answer, WriteTransaction.get, hl]
  | _ => simp_all [suspends, staged?, answer, WriteTransaction.has]

end Call

/-- The log of the calls that returned `Ok`. -/
structure LinInv (S : Contents) (w : World) : Prop where
  /-- A logged call that did not see a failed backend read returned what the specification
  says after the puts logged before it. -/
  legal : ∀ (i : Nat) (e : LinEntry), w.lin[i]? = some e → e.failed = false →
    e.reply = e.call.spec S ((w.lin.take i).filterMap (·.call.staged?))
  /-- A logged call that saw a failed backend read is a read that reported absence. -/
  failed : ∀ e ∈ w.lin, e.failed = true →
    e.call.staged? = none ∧ (e.reply = .bool false ∨ e.reply = .value none)
  sorted : w.lin.Pairwise (fun a b => a.returned < b.returned)
  stamps : ∀ e ∈ w.lin, e.invoked < e.returned ∧ e.returned < w.clock
  invoked : ∀ (i : Nat) (c : Call) (t : Nat),
    (w.calls[i]? = some (.waiting c t) ∨ ∃ o, w.calls[i]? = some (.reading c t o)) →
      t < w.clock
  logged : ∀ (i : Nat) (c : Call) (rep : Reply), w.calls[i]? = some (.returned c (.ok rep)) →
    ∃ e ∈ w.lin, e.id = i ∧ e.call = c ∧ e.reply = rep

namespace LinInv

variable {S : Contents} {w : World}

/-- `LinInv` only looks at the log, the calls and the clock. -/
lemma frame (h : LinInv S w) {w' : World} (h₁ : w'.lin = w.lin) (h₂ : w'.calls = w.calls)
    (h₃ : w'.clock = w.clock) : LinInv S w' := by
  obtain ⟨h₄, h₅, h₆, h₇, h₈, h₉⟩ := h
  exact ⟨h₁ ▸ h₄, h₁ ▸ h₅, h₁ ▸ h₆, h₁ ▸ h₃ ▸ h₇, h₂ ▸ h₃ ▸ h₈,
    h₁ ▸ h₂ ▸ h₉⟩

/-- The call at `i`, invoked at `t` and waiting or reading, returns `r`; `f` records whether
it saw a failed backend read. -/
lemma finish (h : LinInv S w) {i : Nat} {c : Call} {t : Nat} {r : Result Reply} {f : Bool}
    (hi : w.calls[i]? = some (.waiting c t) ∨ ∃ o, w.calls[i]? = some (.reading c t o))
    (hr : ∀ rep, r = .ok rep → f = false → rep = c.spec S w.staged)
    (hf : ∀ rep, r = .ok rep → f = true →
      c.staged? = none ∧ (rep = .bool false ∨ rep = .value none)) :
    LinInv S (w.finish i c t r f) := by
  have ht := h.invoked i c t hi
  have hcalls : ∀ (j : Nat) (c' : Call) (t' : Nat),
      ((w.finish i c t r f).calls[j]? = some (.waiting c' t') ∨
      ∃ o, (w.finish i c t r f).calls[j]? = some (.reading c' t' o)) →
      t' < (w.finish i c t r f).clock := by
    intro j c' t' hj
    simp only [World.finish_calls, World.finish_clock] at hj ⊢
    rcases hj with hj | ⟨o, hj⟩ <;> rcases getElem?_set_eq hj with ⟨-, hj⟩ | ⟨-, hj⟩
    · cases hj
    · exact Nat.lt_succ_of_lt (h.invoked j c' t' (.inl hj))
    · cases hj
    · exact Nat.lt_succ_of_lt (h.invoked j c' t' (.inr ⟨o, hj⟩))
  cases r with
  | error =>
    refine ⟨h.legal, h.failed, h.sorted, fun e he => ?_, hcalls, fun j c' rep hj => ?_⟩
    · exact ⟨(h.stamps e he).1, Nat.lt_succ_of_lt (h.stamps e he).2⟩
    · rcases getElem?_set_eq hj with ⟨-, hj⟩ | ⟨-, hj⟩
      · cases hj
      · exact h.logged j c' rep hj
  | ok rep =>
    have hlin : (w.finish i c t (.ok rep) f).lin = w.lin ++ [⟨i, c, rep, t, w.clock, f⟩] := rfl
    refine ⟨fun j e hj hfe => ?_, fun e he hfe => ?_, ?_, fun e he => ?_, hcalls,
      fun j c' rep' hj => ?_⟩
    · rw [hlin, List.getElem?_append] at hj
      rw [hlin]
      split_ifs at hj with hlt
      · rw [List.take_append_of_le_length hlt.le]; exact h.legal j e hj hfe
      · obtain rfl : j = w.lin.length := by
          have := (List.getElem?_eq_some_iff.1 hj).1; simp at this; omega
        simp only [Nat.sub_self, List.getElem?_cons_zero, Option.some.injEq] at hj
        subst hj
        rw [List.take_left' rfl]
        exact hr rep rfl hfe
    · rw [hlin] at he
      rcases List.mem_append.1 he with he | he
      · exact h.failed e he hfe
      · rw [List.mem_singleton] at he; subst he; exact hf rep rfl hfe
    · rw [hlin]
      exact List.pairwise_append.2 ⟨h.sorted, List.pairwise_singleton _ _,
        fun a ha b hb => (List.mem_singleton.1 hb) ▸ (h.stamps a ha).2⟩
    · rw [hlin] at he
      rcases List.mem_append.1 he with he | he
      · exact ⟨(h.stamps e he).1, Nat.lt_succ_of_lt (h.stamps e he).2⟩
      · rw [List.mem_singleton] at he; subst he; exact ⟨ht, Nat.lt_succ_self _⟩
    · simp only [World.finish_calls] at hj
      rcases getElem?_set_eq hj with ⟨rfl, hx⟩ | ⟨-, hj⟩
      · obtain ⟨rfl, h₁⟩ := CallState.returned.inj hx
        cases h₁
        exact ⟨_, hlin ▸ List.mem_append_right _ (List.mem_singleton_self _), rfl, rfl, rfl⟩
      · obtain ⟨e, he, h₁⟩ := h.logged j c' rep' hj
        exact ⟨e, hlin ▸ List.mem_append_left _ he, h₁⟩

/-- **`LinInv` is preserved by every step** from a state in which, while the transaction is
open, the pending map replays the logged puts and the database holds `S`. -/
theorem step (h : LinInv S w) (hl : LockInv w)
    (hst : w.op = .staging → w.pending = Pending.ofStaged w.staged ∧ w.db = S)
    {w' : World} (hs : Step w w') : LinInv S w' := by
  rcases hs with hs | hs | hs | hs
  · cases hs with
    | invoke c _ =>
      refine ⟨h.legal, h.failed, h.sorted,
        fun e he => ⟨(h.stamps e he).1, Nat.lt_succ_of_lt (h.stamps e he).2⟩,
        fun j c' t' hj => ?_, fun j c' rep hj => ?_⟩
      · rcases hj with hj | ⟨o, hj⟩ <;> rcases getElem?_concat_eq hj with hj | hj
        · exact Nat.lt_succ_of_lt (h.invoked _ _ _ (.inl hj))
        · cases hj; exact Nat.lt_succ_self _
        · exact Nat.lt_succ_of_lt (h.invoked _ _ _ (.inr ⟨o, hj⟩))
        · cases hj
      · rcases getElem?_concat_eq hj with hj | hj
        · exact h.logged j c' rep hj
        · cases hj
    | run i c t pl hop hi _ hsus =>
      obtain ⟨hp, hd⟩ := hst hop
      refine (show LinInv S { w with pending := c.stage w.pending } from
        h.frame rfl rfl rfl).finish (.inl hi) (fun rep hr _ => ?_) (fun _ _ hf => by cases hf)
      rw [hp, hd] at hr
      rw [hp] at hsus
      exact Call.answer_of_not_suspends hsus hr
    | suspend i c t o _ hi _ _ =>
      refine ⟨h.legal, h.failed, h.sorted, h.stamps, fun j c' t' hj => ?_,
        fun j c' rep hj => ?_⟩
      · rcases hj with hj | ⟨o', hj⟩ <;>
          rcases getElem?_set_eq hj with ⟨rfl, hx⟩ | ⟨-, hj⟩
        · cases hx
        · exact h.invoked _ _ _ (.inl hj)
        · obtain ⟨-, rfl, -⟩ := CallState.reading.inj hx
          exact h.invoked _ _ _ (.inl hi)
        · exact h.invoked _ _ _ (.inr ⟨o', hj⟩)
      · rcases getElem?_set_eq hj with ⟨-, hx⟩ | ⟨-, hj⟩
        · cases hx
        · exact h.logged j c' rep hj
    | respond i c t o hop hi _ =>
      obtain ⟨hp, hd⟩ := hst hop
      refine (show LinInv S { w with lock := none, bubbling := o.failure } from
        h.frame rfl rfl rfl).finish
        (.inr ⟨o, hi⟩) (fun rep hr hfe => ?_) (fun rep hr hfe => ?_)
      · obtain rfl : o = .success := by simpa using hfe
        rw [hp, hd, Call.answer_success] at hr
        exact (Except.ok.inj hr).symm
      · cases o with
        | success => cases hfe
        | error e =>
          obtain ⟨h₁, h₂⟩ := Call.answer_of_error (S := w.db) (hl.reading i c t _ hi).2
          rw [hr] at h₂
          exact ⟨h₁, h₂.imp Except.ok.inj Except.ok.inj⟩
  · cases hs <;> refine h.frame ?_ ?_ ?_ <;> simp
  · cases hs <;> refine h.frame ?_ ?_ ?_ <;> simp
  · cases hs; exact h.frame rfl rfl rfl

end LinInv

lemma linInv_init (S : Contents) : LinInv S (World.init S) :=
  ⟨fun _ _ h => by simp at h, fun _ h => by simp at h, List.Pairwise.nil, fun _ h => by simp at h,
    fun _ _ _ h => by simp at h, fun _ _ _ h => by simp at h⟩

/-- While the transaction is open, the pending map replays the staged puts and the database
holds `S`. -/
lemma staging_of_reachable {S : Contents} {w : World} (h : Reachable S w) (hop : w.op = .staging) :
    w.pending = Pending.ofStaged w.staged ∧ w.db = S := by
  have hp := (commitInv_reachable h).phase
  simp only [PhaseInv, hop] at hp
  exact ⟨hp.2.2.2, (no_write_of_not_commit h (.inl hop)).2.2.2⟩

/-- **`LinInv` holds in every reachable state.** -/
theorem linInv_reachable {S : Contents} {w : World} (h : Reachable S w) : LinInv S w := by
  induction h with
  | refl => exact linInv_init S
  | tail hr hs ih =>
    exact ih.step (lockInv_reachable hr) (staging_of_reachable hr) hs

section Results

variable {S : Contents} {w : World}

/-- **The log respects real-time order**: a call that returned before another was invoked
is logged before it. -/
theorem lin_realtime (h : Reachable S w) {i j : Nat} {a b : LinEntry} (ha : w.lin[i]? = some a)
    (hb : w.lin[j]? = some b) (hab : a.returned < b.invoked) : i < j := by
  have hi := linInv_reachable h
  obtain ⟨hil, rfl⟩ := List.getElem?_eq_some_iff.1 ha
  obtain ⟨hjl, rfl⟩ := List.getElem?_eq_some_iff.1 hb
  have hb' := (hi.stamps _ (List.getElem_mem hjl)).1
  by_contra hji
  rcases Nat.lt_or_eq_of_le (Nat.le_of_not_lt hji) with hji | rfl
  · have := List.pairwise_iff_getElem.1 hi.sorted j i hjl hil hji
    omega
  · omega

/-- **The calls that return `Ok` are linearizable, failed backend reads apart.** In every
reachable state the log holds each call that returned `Ok`, with its reply; the log respects
real-time order; and each logged call that did not see a failed backend read returned what
the overlay specification says after the puts logged before it. -/
theorem linearizable_of_reachable (h : Reachable S w) :
    (∀ (i : Nat) (c : Call) (rep : Reply), w.calls[i]? = some (.returned c (.ok rep)) →
      ∃ e ∈ w.lin, e.id = i ∧ e.call = c ∧ e.reply = rep) ∧
    (∀ (i j : Nat) (a b : LinEntry), w.lin[i]? = some a → w.lin[j]? = some b →
      a.returned < b.invoked → i < j) ∧
    (∀ (i : Nat) (e : LinEntry), w.lin[i]? = some e → e.failed = false →
      e.reply = e.call.spec S ((w.lin.take i).filterMap (·.call.staged?))) :=
  ⟨(linInv_reachable h).logged, fun _ _ _ _ ha hb => lin_realtime h ha hb,
    (linInv_reachable h).legal⟩

/-- A put of `k` on a store with no key, then a `get("k")` that reads the staged value. -/
def putThenGetWorld : World :=
  trace (fun _ => none)
    [.invoke (.put "k" [1]), .run 0 (.placed .success), .invoke (.get "k"),
      .run 1 (.placed .success)]

/-- Both calls are logged, the `get` with the staged value. -/
theorem linearizable_of_reachable_putThenGet :
    Reachable (fun _ => none) putThenGetWorld ∧
      putThenGetWorld.calls[1]? = some (.returned (.get "k") (.ok (.value (some [1])))) ∧
      ((∀ (i : Nat) (c : Call) (rep : Reply),
          putThenGetWorld.calls[i]? = some (.returned c (.ok rep)) →
          ∃ e ∈ putThenGetWorld.lin, e.id = i ∧ e.call = c ∧ e.reply = rep) ∧
        (∀ (i j : Nat) (a b : LinEntry), putThenGetWorld.lin[i]? = some a →
          putThenGetWorld.lin[j]? = some b → a.returned < b.invoked → i < j) ∧
        (∀ (i : Nat) (e : LinEntry), putThenGetWorld.lin[i]? = some e → e.failed = false →
          e.reply = e.call.spec (fun _ => none)
            ((putThenGetWorld.lin.take i).filterMap (·.call.staged?)))) :=
  have h : Reachable (fun _ => none) putThenGetWorld := reachable_trace (by decide)
  ⟨h, by decide, linearizable_of_reachable h⟩

/-- The store `{k: [1]}`; a `get("k")` on a write transaction opened on it, whose backend
read fails with an `UnknownError`, returns `Ok(None)`, where the specification of a first
call says `Some([1])`. -/
theorem get_misses_stored_key :
    (trace (Function.update (fun _ => none) "k" (some [1]))
        [.invoke (.get "k"), .suspend 0 (.error ⟨"UnknownError", ""⟩), .respond 0]).calls[0]? =
      some (.returned (.get "k") (.ok (.value none))) ∧
      (Call.get "k").spec (Function.update (fun _ => none) "k" (some [1])) [] = .value (some [1]) :=
  ⟨by decide, by decide⟩

/-- One put of `k` staged on an empty store and committed: the request succeeds, the
transaction completes and its `Committed` task runs. -/
def committedPutRun : List Action :=
  [.invoke (.put "k" [1]), .run 0 (.placed .success), .commitIssue [⟨"k", [1]⟩], .exec,
    .putsJoined, .autoCommit, .runTask .committed, .commitOutcome]

/-- After this commit returns `Ok(())` the store holds `[1]` under `k`, yet a later
`Store::get("k")` whose request fails returns `Ok(None)`. -/
theorem read_after_commit_misses_value :
    (trace (fun _ => none) committedPutRun).op = .committed (.ok ()) ∧
      (trace (fun _ => none) committedPutRun).db "k" = some [1] ∧
      Store.get (trace (fun _ => none) committedPutRun).db "k"
        ⟨none, none, .placed (.error ⟨"UnknownError", ""⟩)⟩ = .ok none :=
  ⟨by decide, by decide, rfl⟩

end Results

end Replicache.Kv
