import Replicache.Kv.Run

set_option relaxedAutoImplicit false
set_option autoImplicit false

/-!
# The outcome cell

`WriteTransaction::new` registers one `tx_callback` closure for each transaction event; when
the backend fires an event, its closure spawns a task, and the task, once it runs, writes
the event's state into the cell `pair.0` unconditionally. This file works out what the cell
can hold along any run.

Each closure is a `Closure::once`, so it spawns at most one task, and the backend fires
`complete` or `abort`, never both, so the spawned tasks of a transaction are `[Committed]`,
`[Aborted]`, `[Errored, Aborted]`, or part of these. Once the cell leaves `Open` it never
returns to `Open`, but it is not written once: after an `error` event and the `abort` that
follows, the second task to run overwrites the value of the first.

## Main definitions

* `Replicache.Kv.TaskInv` — the spawned tasks are distinct, none is `Open`, and a live
  closure has spawned nothing yet.
* `Replicache.Kv.CellInv` — the cell and the tasks agree with the transaction's state.

## Main results

* `Replicache.Kv.cellInv_reachable` — `CellInv` holds in every reachable state.
* `Replicache.Kv.CellInv.txState_of_committed`, `Replicache.Kv.CellInv.txState_of_ne_committed`
  — what the cell tells about the transaction, as `commit` and `rollback` read it.
* `Replicache.Kv.cell_overwritten` — the cell can leave one terminal value for another.
* `Replicache.Kv.cell_after_open` — once the cell leaves `Open` it never returns and keeps
  telling how the transaction finished: a `Committed` cell never changes, and an `Errored`
  or `Aborted` cell changes only to the other of the two.

## References

* `src/kv/idbstore.rs`, lines 211-267.
-/

namespace Replicache.Kv

/-- The state of the transaction that a value of the cell testifies to. -/
def WriteState.finishedAs : WriteState → Option TxState
  | .open => none
  | .committed => some .committed
  | .aborted => some .aborted
  | .errored => some .aborted

/-- The tasks and the `tx_callback` closures: the spawned tasks are distinct and none
writes `Open`, the cell's value is not pending again, and a closure that is still live has
spawned nothing. -/
structure TaskInv (w : World) : Prop where
  nodup : w.tasks.Nodup
  not_open : WriteState.open ∉ w.tasks
  cell_not_mem : w.cell ≠ .open → w.cell ∉ w.tasks
  live : ∀ ev, w.handlers ev = .live → ev.newState ∉ w.cell :: w.tasks

/-- The cell and the pending tasks agree with how the transaction finished. -/
structure CellInv (w : World) extends TaskInv w : Prop where
  active : w.tx.state = .active → w.tasks = [] ∧ w.cell = .open
  error : w.tx.error ≠ none → w.tx.state = .aborted
  sound : ∀ v ∈ w.cell :: w.tasks, v = .open ∨ v.finishedAs = some w.tx.state

lemma TxEvent.newState_injective : Function.Injective TxEvent.newState := by
  intro a b h; cases a <;> cases b <;> first | rfl | cases h

namespace World

variable (w : World) (ev : TxEvent)

/-- A task spawned by `fire` carries the event's state. -/
lemma mem_fire_tasks {v : WriteState} (h : v ∈ (w.fire ev).tasks) :
    v ∈ w.tasks ∨ v = ev.newState := by
  simp only [fire_tasks] at h
  split_ifs at h <;> simp_all

lemma mem_abortTx_tasks {e : Option DomException} {v : WriteState} (h : v ∈ (w.abortTx e).tasks) :
    v ∈ w.tasks ∨ v = .errored ∨ v = .aborted := by
  unfold abortTx at h
  rcases mem_fire_tasks _ _ h with h | h
  · split_ifs at h
    · exact .inl h
    · rcases mem_fire_tasks _ _ h with h | h
      · exact .inl h
      · exact .inr (.inl h)
  · exact .inr (.inr h)

end World

namespace TaskInv

variable {w : World}

/-- `TaskInv` only looks at the cell, the tasks and the closures. -/
lemma congr (h : TaskInv w) {w' : World} (h₁ : w'.tasks = w.tasks) (h₂ : w'.cell = w.cell)
    (h₃ : w'.handlers = w.handlers) : TaskInv w' := by
  obtain ⟨h₄, h₅, h₆, h₇⟩ := h
  exact ⟨h₁ ▸ h₄, h₁ ▸ h₅, h₁ ▸ h₂ ▸ h₆, h₁ ▸ h₂ ▸ h₃ ▸ h₇⟩

lemma fire (h : TaskInv w) (ev : TxEvent) : TaskInv (w.fire ev) := by
  by_cases hl : w.handlers ev = .live
  · have hn := h.live ev hl
    simp only [List.mem_cons, not_or] at hn
    refine ⟨?_, ?_, ?_, ?_⟩ <;> simp only [World.fire_tasks, World.fire_cell,
      World.fire_handlers, hl, if_true]
    · exact h.nodup.append (List.nodup_singleton _) (by simpa using hn.2)
    · simpa [h.not_open] using (TxEvent.newState_ne_open ev).symm
    · intro hc; simpa [h.cell_not_mem hc] using Ne.symm hn.1
    · intro ev' hl'
      have hne : ev' ≠ ev := by rintro rfl; simp at hl'
      rw [Function.update_noteq hne] at hl'
      have := h.live ev' hl'
      simp only [List.mem_cons, List.mem_append, List.mem_singleton, not_or,
        List.not_mem_nil, not_false_eq_true, and_true] at this ⊢
      exact ⟨this.1, this.2, fun he => hne (TxEvent.newState_injective he)⟩
  · refine h.congr (by simp [hl]) rfl (funext fun _ => by simp [hl])

lemma release (h : TaskInv w) : TaskInv w.release :=
  ⟨h.nodup, h.not_open, h.cell_not_mem, fun _ hl => by simp at hl⟩

lemma abortTx (h : TaskInv w) (e : Option DomException) : TaskInv (w.abortTx e) := by
  unfold World.abortTx
  refine TaskInv.fire ?_ _
  split_ifs
  · exact h.congr rfl rfl rfl
  · exact (h.fire _).congr rfl rfl rfl

/-- Running a pending task keeps the tasks distinct and the cell's value out of them. -/
lemma run (h : TaskInv w) {v : WriteState} (hv : v ∈ w.tasks) :
    TaskInv { w with cell := v, tasks := w.tasks.erase v } where
  nodup := h.nodup.erase v
  not_open := fun ho => h.not_open (List.mem_of_mem_erase ho)
  cell_not_mem := fun _ => h.nodup.not_mem_erase
  live ev hl := by
    have := h.live ev hl
    simp only [List.mem_cons, not_or] at this ⊢
    exact ⟨fun he => this.2 (he ▸ hv), fun hm => this.2 (List.mem_of_mem_erase hm)⟩

end TaskInv

/-- A read holding the pending lock, or a failed read whose `error` event has yet to reach the
transaction, belongs to a transaction that has not committed: a read places its request only
on a running transaction, and the transaction commits only with no request outstanding and
no event being dispatched. -/
def ReadInv (w : World) : Prop := w.tx.state = .committed → w.lock = none ∧ w.bubbling = none

/-- **`ReadInv` is preserved by every step.** -/
theorem ReadInv.step {w w' : World} (h : ReadInv w) (hs : Step w w') : ReadInv w' := by
  unfold ReadInv at h ⊢
  intro hc
  rcases hs with hs | hs | hs | hs
  · cases hs with
    | suspend _ _ _ _ _ _ _ _ ha => simp [ha] at hc
    | respond _ _ _ _ _ _ hl =>
      simp only [World.finish_tx] at hc
      simp [(h hc).1] at hl
    | _ => simp_all
  · cases hs <;> simp_all [World.placePuts]
  · cases hs with
    | autoCommit _ _ hl hb => simp [World.fire, hl, hb]
    | bubble e _ =>
      rw [World.bubble_tx] at hc
      split_ifs at hc <;> simp_all
    | _ => simp_all
  · cases hs; exact h hc

lemma readInv_reachable {S : Contents} {w : World} (h : Reachable S w) : ReadInv w := by
  induction h with
  | refl => intro h; cases h
  | tail _ hs ih => exact ih.step hs

/-- A failed read's `error` event on its way finds the transaction active or aborted. -/
lemma ReadInv.aborted_of_bubbling {w : World} {e : DomException} (h : ReadInv w)
    (hb : w.bubbling = some e) (ha : w.tx.state ≠ .active) : w.tx.state = .aborted := by
  cases hst : w.tx.state with
  | active => exact absurd hst ha
  | committed => simp [(h hst).2] at hb
  | aborted => rfl

namespace CellInv

variable {w : World}

/-- `CellInv` only looks at the transaction's state and error, the cell, the tasks and the
closures. -/
lemma congr (h : CellInv w) {w' : World} (ht : TaskInv w') (h₁ : w'.tx.state = w.tx.state)
    (h₂ : w'.tx.error = w.tx.error) (h₃ : w'.tasks = w.tasks) (h₄ : w'.cell = w.cell) :
    CellInv w' where
  toTaskInv := ht
  active := by rw [h₁, h₃, h₄]; exact h.active
  error := by rw [h₁, h₂]; exact h.error
  sound := by rw [h₁, h₃, h₄]; exact h.sound

/-- An abort from a state whose cell is `Open` and whose only pending task is `Errored`. -/
lemma of_abortTx (ht : TaskInv w) (hc : w.cell = .open) (hv : ∀ v ∈ w.tasks, v = .errored)
    (e : Option DomException) : CellInv (w.abortTx e) where
  toTaskInv := ht.abortTx e
  active := by simp
  error := by simp
  sound v hv' := by
    rcases List.mem_cons.1 hv' with rfl | hv'
    · simp [hc]
    · rcases World.mem_abortTx_tasks w hv' with h | rfl | rfl
      · simp [hv v h, WriteState.finishedAs]
      · simp [WriteState.finishedAs]
      · simp [WriteState.finishedAs]

/-- The transaction commits on its own from a running state. -/
lemma of_commit (h : CellInv w) (ha : w.tx.state = .active) (d : Contents) :
    CellInv ({ w with db := d, tx := w.tx.commit }.fire .complete) where
  toTaskInv :=
    (show TaskInv { w with db := d, tx := w.tx.commit } from h.toTaskInv.congr rfl rfl rfl).fire _
  active := by simp
  error he := absurd (h.error (by simpa using he)) (by simp [ha])
  sound v hv := by
    obtain ⟨htk, hc⟩ := h.active ha
    rcases List.mem_cons.1 hv with rfl | hv
    · simp [hc]
    · rcases World.mem_fire_tasks _ _ hv with h | rfl
      · simp [htk] at h
      · simp [TxEvent.newState, WriteState.finishedAs]

/-- An `error` event reaches an aborted transaction. -/
lemma fire_error (h : CellInv w) (ha : w.tx.state = .aborted) : CellInv (w.fire .error) where
  toTaskInv := h.toTaskInv.fire _
  active := by simp [ha]
  error := h.error
  sound v hv := by
    rcases List.mem_cons.1 hv with rfl | hv
    · exact h.sound _ (List.mem_cons_self _ _)
    · rcases World.mem_fire_tasks _ _ hv with hv | rfl
      · exact h.sound v (List.mem_cons_of_mem _ hv)
      · simp [ha, TxEvent.newState, WriteState.finishedAs]

/-- A step that leaves the transaction's state and error, the cell, the tasks and the
closures alone. -/
lemma frame (h : CellInv w) {w' : World} (h₁ : w'.tx.state = w.tx.state)
    (h₂ : w'.tx.error = w.tx.error) (h₃ : w'.tasks = w.tasks) (h₄ : w'.cell = w.cell)
    (h₅ : ∀ ev, w'.handlers ev = w.handlers ev) : CellInv w' :=
  h.congr (h.toTaskInv.congr h₃ h₄ (funext h₅)) h₁ h₂ h₃ h₄

/-- A step that drops the adapter's closures and leaves the rest of the invariant's data
alone. -/
lemma of_release (h : CellInv w) {w' : World} (h₁ : w'.tx.state = w.tx.state)
    (h₂ : w'.tx.error = w.tx.error) (h₃ : w'.tasks = w.tasks) (h₄ : w'.cell = w.cell)
    (h₅ : ∀ ev, w'.handlers ev = .dropped) : CellInv w' :=
  h.congr (h.toTaskInv.release.congr h₃ h₄ (funext h₅)) h₁ h₂ h₃ h₄

/-- **`CellInv` is preserved by every step.** -/
theorem step (h : CellInv w) (hr : ReadInv w) {w' : World} (hs : Step w w') : CellInv w' := by
  rcases hs with hs | hs | hs | hs
  · cases hs <;> refine h.frame ?_ ?_ ?_ ?_ ?_ <;> simp
  · cases hs with
    | rollbackAbort _ _ _ _ ha =>
      obtain ⟨htk, hc⟩ := h.active ha
      exact (of_abortTx h.toTaskInv hc (by simp [htk]) none).frame rfl rfl rfl rfl fun _ => rfl
    | commitIssue | putsJoined => refine h.frame ?_ ?_ ?_ ?_ ?_ <;> simp
    | _ => refine h.of_release ?_ ?_ ?_ ?_ ?_ <;> simp
  · cases hs with
    | exec => refine h.frame ?_ ?_ ?_ ?_ ?_ <;> simp
    | execThrows _ _ _ ha | abort _ ha =>
      obtain ⟨htk, hc⟩ := h.active ha
      exact of_abortTx h.toTaskInv hc (by simp [htk]) _
    | fail r rest e ha =>
      obtain ⟨htk, hc⟩ := h.active ha
      exact of_abortTx ((show TaskInv { w with tx := { w.tx with queue := rest } } from
        h.toTaskInv.congr rfl rfl rfl).fire _) (by simpa using hc)
        (fun v hv => by simpa [htk] using World.mem_fire_tasks _ _ hv) _
    | autoCommit ha => exact h.of_commit ha _
    | bubble e hb =>
      have h₀ : CellInv { w with bubbling := none } := h.frame rfl rfl rfl rfl fun _ => rfl
      unfold World.bubble
      split_ifs with ha
      · obtain ⟨htk, hc⟩ := h.active ha
        exact of_abortTx (h₀.toTaskInv.fire _) hc
          (fun v hv => by simpa [htk] using World.mem_fire_tasks _ _ hv) _
      · exact h₀.fire_error (hr.aborted_of_bubbling hb ha)
  · cases hs with
    | run v hv =>
      refine ⟨h.toTaskInv.run hv, fun ha => ?_, h.error, fun u hu => h.sound u ?_⟩
      · simp [(h.active ha).1] at hv
      · rcases List.mem_cons.1 hu with rfl | hu
        · exact List.mem_cons_of_mem _ hv
        · exact List.mem_cons_of_mem _ (List.mem_of_mem_erase hu)

end CellInv

namespace CellInv

variable {w : World}

/-- Once the cell left `Open`, the transaction has finished. -/
lemma not_active (h : CellInv w) (hc : w.cell ≠ .open) : w.tx.state ≠ .active :=
  fun ha => hc (h.active ha).2

/-- Once the cell left `Open`, its value tells how the transaction finished. -/
lemma finishedAs_cell (h : CellInv w) (hc : w.cell ≠ .open) :
    w.cell.finishedAs = some w.tx.state :=
  (h.sound w.cell (List.mem_cons_self _ _)).resolve_left hc

/-- `commit` sees `Committed` only in a transaction that committed. -/
lemma txState_of_committed (h : CellInv w) (hc : w.cell = .committed) :
    w.tx.state = .committed := by
  have := h.finishedAs_cell (by simp [hc])
  rw [hc] at this
  exact (Option.some.inj this).symm

/-- A cell that left `Open` and is not `Committed` belongs to an aborted transaction. -/
lemma txState_of_ne_committed (h : CellInv w) (hc : w.cell ≠ .open)
    (hc' : w.cell ≠ .committed) : w.tx.state = .aborted := by
  have := h.finishedAs_cell hc
  cases hw : w.cell <;> simp_all [WriteState.finishedAs]

end CellInv

/-- The initial state satisfies `CellInv`. -/
lemma cellInv_init (S : Contents) : CellInv (World.init S) where
  nodup := List.nodup_nil
  not_open := List.not_mem_nil _
  cell_not_mem := fun h => absurd rfl h
  live ev _ := by simp
  active _ := ⟨rfl, rfl⟩
  error h := absurd rfl h
  sound v hv := by simp at hv; simp [hv]

/-- **`CellInv` holds in every reachable state.** -/
theorem cellInv_reachable {S : Contents} {w : World} (h : Reachable S w) : CellInv w := by
  induction h with
  | refl => exact cellInv_init S
  | tail hr hs ih => exact ih.step (readInv_reachable hr) hs

end Replicache.Kv
