import Replicache.Kv.Termination

set_option relaxedAutoImplicit false
set_option autoImplicit false

/-!
# The browser's order of the spawned tasks, and `rollback` after the transaction ended

`Replicache.Kv.Step` lets a task spawned by a `tx_callback` closure wait behind any later step
and run in any order, which is more than the browser does; every result over `Reachable` holds
of those extra runs too. In the browser, `spawn_local` queues the task on the microtask queue,
and the microtask checkpoint right after the listener runs it, in spawn order, before any
other event, task or continuation: the cell lock it takes is never held across an `await`, so
it does not wait. `PromptStep` is a step taken in that order.

Under that order the cell of a transaction that is still open for calls tells how the
transaction ended as soon as the event that ended it has been delivered, so `rollback` called
after the transaction committed or aborted on its own finds the cell `Committed` or `Aborted`
and returns `Ok(())` without calling `abort()`.

## Main definitions

* `Replicache.Kv.PromptStep`, `Replicache.Kv.PromptReachable` — the steps and runs in the
  browser's order.
* `Replicache.Kv.World.promptAct`, `Replicache.Kv.World.promptRun` — runs in that order,
  written as lists of actions.
* `Replicache.Kv.World.settledCell` — the cell once the pending tasks have run.
* `Replicache.Kv.PromptInv` — while the transaction is open for calls, a finished
  transaction's settled cell tells how it finished.

## Main results

* `Replicache.Kv.PromptReachable.reachable` — every run in the browser's order is a run.
* `Replicache.Kv.World.promptAct_sound` — every action performed in that order is a step in it.
* `Replicache.Kv.promptInv_reachable` — `PromptInv` holds along every such run.
* `Replicache.Kv.rollback_ok_after_tx_ended` — `rollback` called after the transaction ended
  on its own returns `Ok(())`.

## Implementation notes

A failed read's `error` event reaches the transaction after the read's listener, and
`respond` and `bubble` are two steps for it. When the transaction aborts on its own while a
read is outstanding, the read's request fails first; the model has that as the read failing
and its `error` event aborting the transaction, since `abort` waits for the lock to be free.

## References

* `src/kv/idbstore.rs`, lines 257-267 and 342-367.
-/

namespace Replicache.Kv

open Relation

/-- A step in the browser's order: while spawned tasks are pending, the next step runs the
first of them. -/
def PromptStep (w w' : World) : Prop :=
  Step w w' ∧ ∀ v rest, w.tasks = v :: rest → w' = { w with cell := v, tasks := rest }

/-- The states a run in the browser's order reaches from `WriteTransaction::new` on `S`. -/
def PromptReachable (S : Contents) (w : World) : Prop :=
  ReflTransGen PromptStep (World.init S) w

variable {S : Contents} {w w' : World}

/-- Every run in the browser's order is a run. -/
lemma PromptReachable.reachable (h : PromptReachable S w) : Reachable S w :=
  h.mono fun _ _ hs => hs.1

/-! ## Runs in the browser's order, as lists of actions -/

namespace World

/-- Perform one action in the browser's order: while spawned tasks are pending, the only
action enabled is running the first of them. -/
def promptAct (w : World) (a : Action) : Option World :=
  match w.tasks, a with
  | [], a => w.act a
  | v :: rest, .runTask v' => if v' = v then some { w with cell := v, tasks := rest } else none
  | _ :: _, _ => none

/-- **Every action `promptAct` performs is a step in the browser's order.** -/
theorem promptAct_sound {a : Action} (h : w.promptAct a = some w') : PromptStep w w' := by
  unfold promptAct at h
  split at h
  next hts => exact ⟨act_sound h, fun _ _ h' => by simp [hts] at h'⟩
  next v rest v' hts =>
    split_ifs at h with hv
    cases h; subst hv
    have hs := Step.task (.run w v' (hts ▸ List.mem_cons_self v' rest))
    rw [hts, List.erase_cons_head] at hs
    exact ⟨hs, fun _ _ h' => by simp_all⟩
  next => cases h

/-- Perform the actions of a list one after another in the browser's order. -/
def promptRun (w : World) (as : List Action) : Option World := as.foldlM promptAct w

theorem promptRun_sound {as : List Action} (h : w.promptRun as = some w') :
    ReflTransGen PromptStep w w' := by
  induction as generalizing w with
  | nil => cases h; exact .refl
  | cons a as ih =>
    simp only [promptRun, List.foldlM_cons, bind, Option.bind_eq_some] at h
    obtain ⟨w₁, h₁, h₂⟩ := h
    exact .head (promptAct_sound h₁) (ih h₂)

/-- The state a list of actions ends in from `WriteTransaction::new` on `S`, run in the
browser's order, or that initial state when one of the actions is not enabled. -/
def promptTrace (S : Contents) (as : List Action) : World :=
  ((init S).promptRun as).getD (init S)

theorem promptReachable_trace {as : List Action} (h : ((init S).promptRun as).isSome) :
    PromptReachable S (promptTrace S as) := by
  obtain ⟨w, hw⟩ := Option.isSome_iff_exists.1 h
  rw [promptTrace, hw]
  exact promptRun_sound hw

/-- The last action of a run in the browser's order is one step in that order. -/
theorem promptTrace_step {as : List Action} {a : Action}
    (h : ((init S).promptRun (as ++ [a])).isSome) :
    PromptStep (promptTrace S as) (promptTrace S (as ++ [a])) := by
  unfold promptTrace promptRun at *
  rw [List.foldlM_append] at h ⊢
  cases h₁ : as.foldlM promptAct (init S) with
  | none => simp [h₁] at h
  | some w₁ =>
    simp only [h₁, Option.getD_some, List.foldlM_cons, List.foldlM_nil, bind, pure,
      Option.some_bind, Option.bind_some] at h ⊢
    obtain ⟨w₂, h₂⟩ := Option.isSome_iff_exists.1 h
    rw [h₂]
    exact promptAct_sound h₂

end World

/-! ## The settled cell -/

/-- The cell once the pending tasks have run, in spawn order. -/
def World.settledCell (w : World) : WriteState :=
  (w.cell :: w.tasks).getLast (List.cons_ne_nil _ _)

namespace World

variable (w : World)

lemma settledCell_fire (ev : TxEvent) :
    (w.fire ev).settledCell = if w.handlers ev = .live then ev.newState else w.settledCell := by
  unfold settledCell
  simp only [fire_cell, fire_tasks]
  split_ifs
  · exact List.getLast_append_singleton (w.cell :: w.tasks)
  · rfl

/-- Running the first pending task leaves the settled cell alone. -/
lemma settledCell_runHead {v : WriteState} {rest : List WriteState} (h : w.tasks = v :: rest) :
    { w with cell := v, tasks := rest }.settledCell = w.settledCell := by
  simp [settledCell, h]

/-- An abort with nothing queued ends with `onabort`. -/
lemma settledCell_abortTx (hq : w.tx.queue = []) (hl : w.handlers .abort = .live)
    (e : Option DomException) : (w.abortTx e).settledCell = .aborted := by
  simp [abortTx, hq, settledCell_fire, hl, TxEvent.newState]

end World

/-! ## The invariant -/

/-- While the transaction is open for calls nothing is queued on it. -/
lemma Reachable.queue_eq_nil (hr : Reachable S w) (hop : w.op = .staging) :
    w.tx.queue = [] := by
  have hp := (commitInv_reachable hr).phase
  simp only [PhaseInv, hop] at hp
  exact hp.1

/-- While the transaction is open for calls and active, its three listeners are live. -/
lemma Reachable.handlers_live (hr : Reachable S w) (hop : w.op = .staging)
    (ha : w.tx.state = .active) (ev : TxEvent) : w.handlers ev = .live :=
  (ownedInv_reachable hr).live ha (by simp [hop, Op.Done]) ev

/-- While the transaction is open for calls, a transaction that finished has its outcome as
the settled cell; and once it aborted, a read that holds the lock or whose `error` event is
on its way finds `onerror` already spent. -/
structure PromptInv (w : World) : Prop where
  committed : w.op = .staging → w.tx.state = .committed → w.settledCell = .committed
  aborted : w.op = .staging → w.tx.state = .aborted →
    w.settledCell = .aborted ∧ (w.handlers .error ≠ .live ∨ w.lock = none ∧ w.bubbling = none)

namespace PromptInv

/-- `PromptInv` only looks at the adapter's position, the transaction's state, the settled
cell, `onerror`, the lock and the failed read. -/
lemma frame (h : PromptInv w) (h₁ : w'.op = w.op) (h₂ : w'.tx.state = w.tx.state)
    (h₃ : w'.settledCell = w.settledCell) (h₄ : w'.handlers .error = w.handlers .error)
    (h₅ : w'.lock = w.lock) (h₆ : w'.bubbling = w.bubbling) : PromptInv w' := by
  obtain ⟨hc, ha⟩ := h
  exact ⟨h₁ ▸ h₂ ▸ h₃ ▸ hc, h₁ ▸ h₂ ▸ h₃ ▸ h₄ ▸ h₅ ▸ h₆ ▸ ha⟩

/-- A step that leaves the adapter's position or that of the transaction's state. -/
lemma of_ne (h₁ : w'.op ≠ .staging ∨ w'.tx.state = .active) : PromptInv w' := by
  refine ⟨fun hop hc => ?_, fun hop ha => ?_⟩ <;> rcases h₁ with h₁ | h₁ <;> simp_all

/-- A segment of a call keeps `PromptInv`: a read suspends only on an active transaction, and
a read that returns after the transaction aborted finds `onerror` spent. -/
lemma call_step (h : PromptInv w) (hr : Reachable S w) (hs : CallStep w w') :
    PromptInv w' := by
  cases hs with
  | suspend _ _ _ _ _ _ _ _ ha => exact of_ne (.inr (by simpa using ha))
  | respond i c t o hop _ hl _ =>
    refine ⟨fun _ hcm => ?_, fun _ ha => ?_⟩
    · simp [(readInv_reachable hr (by simpa using hcm)).1] at hl
    · have := h.aborted hop (by simpa using ha)
      simp only [World.finish_tx, World.finish_handlers] at ha ⊢
      refine ⟨by simpa [World.settledCell] using this.1, .inl ?_⟩
      exact this.2.resolve_right (by simp [hl])
  | invoke | run => refine h.frame ?_ ?_ ?_ ?_ ?_ ?_ <;> simp [World.settledCell]

/-- A failed read's `error` event reaching the transaction keeps `PromptInv`: on an active
transaction it fires `onerror` and then aborts it, so `onabort`'s task is the last; on an
aborted one `onerror` was already spent. -/
lemma bubble {e : DomException} (h : PromptInv w) (hr : Reachable S w)
    (hb : w.bubbling = some e) : PromptInv (w.bubble e) := by
  by_cases ha : w.tx.state = .active
  · refine ⟨fun _ h' => by simp [World.bubble_tx, ha] at h', fun hop _ => ?_⟩
    have hop : w.op = .staging := by simpa using hop
    have hl := hr.handlers_live hop ha
    simp only [World.bubble, if_pos ha]
    refine ⟨World.settledCell_abortTx _ (by simpa using hr.queue_eq_nil hop) ?_ _, .inl ?_⟩
    · exact (World.fire_handlers_of_ne _ (by decide : TxEvent.abort ≠ .error)).trans (hl _)
    · simp [World.abortTx, hr.queue_eq_nil hop, hl, Function.update_apply]
  · have hab := (readInv_reachable hr).aborted_of_bubbling hb ha
    refine ⟨fun _ h' => by simp [World.bubble_tx, ha, hab] at h', fun hop _ => ?_⟩
    obtain ⟨hc, hne⟩ := h.aborted (by simpa using hop) hab
    have hne : w.handlers .error ≠ .live := hne.resolve_right (by simp [hb])
    simp only [World.bubble, if_neg ha, World.settledCell_fire, if_neg hne]
    exact ⟨hc, .inl (by simp [hne])⟩

/-- An action of the backend keeps `PromptInv`: nothing is queued before `commit`, and the
live listeners of an active transaction write its outcome last. -/
lemma backend_step (h : PromptInv w) (hr : Reachable S w) (hs : BackendStep w w') :
    PromptInv w' := by
  cases hs with
  | exec _ _ ha => exact of_ne (.inr (by simpa using ha))
  | execThrows _ _ _ _ hq | fail _ _ _ _ hq =>
    refine of_ne (.inl fun hop => ?_)
    simp [hr.queue_eq_nil (by simpa using hop)] at hq
  | autoCommit ha _ _ _ =>
    refine ⟨fun hop _ => ?_, fun _ h' => by simp at h'⟩
    rw [World.settledCell_fire, if_pos (hr.handlers_live (by simpa using hop) ha _)]
    rfl
  | abort e ha hl hb =>
    refine ⟨fun _ h' => by simp at h', fun hop _ => ⟨?_, .inr ⟨by simpa using hl, ?_⟩⟩⟩
    · have hop : w.op = .staging := by simpa using hop
      exact World.settledCell_abortTx _ (hr.queue_eq_nil hop) (hr.handlers_live hop ha _) _
    · simpa using hb
  | bubble e hb => exact h.bubble hr hb

/-- **`PromptInv` is preserved by every step in the browser's order.** Every step but a
spawned task keeps it, and so does the first pending task, the only one that may run. -/
theorem step (h : PromptInv w) (hr : Reachable S w) (hs : PromptStep w w') : PromptInv w' := by
  cases ht : w.tasks with
  | cons v rest =>
    rw [hs.2 v rest ht]
    exact h.frame rfl rfl (w.settledCell_runHead ht) rfl rfl rfl
  | nil =>
    obtain ⟨hs, -⟩ := hs
    rcases hs with hs | hs | hs | hs
    · exact h.call_step hr hs
    · exact of_ne (.inl (by cases hs <;> simp_all [World.Idle]))
    · exact h.backend_step hr hs
    · cases hs with | run v hv => simp [ht] at hv

end PromptInv

/-- With no task pending, a transaction that finished while open for calls has its outcome in
the cell. -/
lemma PromptInv.cell_of_ended (h : PromptInv w) (hop : w.op = .staging)
    (ht : w.tx.state ≠ .active) (hts : w.tasks = []) : w.cell = .committed ∨ w.cell = .aborted := by
  have hsc : w.settledCell = w.cell := by simp [World.settledCell, hts]
  cases hst : w.tx.state with
  | active => exact absurd hst ht
  | committed => exact .inl (hsc ▸ h.committed hop hst)
  | aborted => exact .inr (hsc ▸ (h.aborted hop hst).1)

lemma promptInv_reachable (h : PromptReachable S w) : PromptInv w := by
  induction h with
  | refl => exact PromptInv.of_ne (.inr rfl)
  | tail hr hs ih => exact ih.step (PromptReachable.reachable hr) hs

/-! ## `rollback` after the transaction ended on its own -/

/-- **`rollback` after the transaction ended on its own returns `Ok(())`.** In the browser's
order, once the backend transaction has committed or aborted on its own (its `complete` or
`abort` event was delivered, and the task it spawned ran right after), a call to `rollback`
finds the cell `Committed` or `Aborted` and returns `Ok(())`: it neither calls `abort()` on the
finished transaction nor reports that the abort failed. -/
theorem rollback_ok_after_tx_ended (h : PromptReachable S w) (hi : w.Idle)
    (ht : w.tx.state ≠ .active) (hs : PromptStep w w')
    (hr : w'.op = .awaitAbort ∨ ∃ r, w'.op = .rolledBack r) : w'.op = .rolledBack (.ok ()) := by
  cases hts : w.tasks with
  | cons v rest =>
    rw [hs.2 v rest hts] at hr
    simp [hi.1] at hr
  | nil =>
    have hcell := (promptInv_reachable h).cell_of_ended hi.1 ht hts
    rcases hs.1 with hs | hs | hs | hs
    · cases hs <;> simp_all
    · cases hs with
      | rollbackEmpty | rollbackSettled => rfl
      | rollbackAbortThrows _ _ _ h₁ h₂ => rcases hcell with hc | hc <;> simp_all
      | rollbackAbort _ _ _ _ ha => exact absurd ha ht
      | _ => simp_all [World.Idle]
    · cases hs <;> simp_all [World.bubble_tx, World.Idle]
    · cases hs with | run v hv => simp [hts] at hv

/-- A put stages its entry, the backend commits the transaction on its own, and the task its
`complete` event spawned runs. -/
def autoCommittedRun : List Action :=
  [.invoke (.put "k" [1]), .run 0 (.placed .success), .autoCommit, .runTask .committed]

theorem rollback_ok_after_autoCommit :
    PromptReachable (fun _ => none) (World.promptTrace (fun _ => none) autoCommittedRun) ∧
      (World.promptTrace (fun _ => none) autoCommittedRun).Idle ∧
      (World.promptTrace (fun _ => none) autoCommittedRun).tx.state ≠ .active ∧
      PromptStep (World.promptTrace (fun _ => none) autoCommittedRun)
        (World.promptTrace (fun _ => none) (autoCommittedRun ++ [.rollbackSettled])) ∧
      (∃ r, (World.promptTrace (fun _ => none)
        (autoCommittedRun ++ [.rollbackSettled])).op = .rolledBack r) ∧
      (World.promptTrace (fun _ => none) (autoCommittedRun ++ [.rollbackSettled])).op =
        .rolledBack (.ok ()) := by
  have h : PromptReachable (fun _ => none) (World.promptTrace (fun _ => none) autoCommittedRun) :=
    World.promptReachable_trace (by decide)
  have hi : (World.promptTrace (fun _ => none) autoCommittedRun).Idle := by decide
  have ht : (World.promptTrace (fun _ => none) autoCommittedRun).tx.state ≠ .active := by decide
  have hs := World.promptTrace_step (S := fun _ => none) (a := .rollbackSettled)
    (by decide : ((World.init _).promptRun (autoCommittedRun ++ [.rollbackSettled])).isSome)
  have hr : ∃ r, (World.promptTrace (fun _ => none)
      (autoCommittedRun ++ [.rollbackSettled])).op = .rolledBack r := ⟨.ok (), by decide⟩
  exact ⟨h, hi, ht, hs, hr, rollback_ok_after_tx_ended h hi ht hs (.inr hr)⟩

end Replicache.Kv
