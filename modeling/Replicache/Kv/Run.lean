import Replicache.Kv.Protocol

set_option relaxedAutoImplicit false
set_option autoImplicit false

/-!
# Running the protocol

An executable form of the step relation. An `Action` names one kind of step together with
the choices it takes (which call, what the backend answers, which task runs); `World.act`
performs the action when the step's guard holds, and `World.act_sound` shows that whatever
it performs is a step. A run written as a list of actions can therefore be evaluated, and
the state it ends in is reachable.

## Main definitions

* `Replicache.Kv.Action`, `Replicache.Kv.World.act`, `Replicache.Kv.World.runActions`.

## Main results

* `Replicache.Kv.World.act_sound`, `Replicache.Kv.World.reachable_of_runActions`,
  `Replicache.Kv.World.reachable_trace`.
-/

namespace Replicache.Kv

/-- One step of the protocol, by the party that acts and the choices it takes. -/
inductive Action where
  | invoke (c : Call)
  | run (i : Nat) (pl : Placement)
  | suspend (i : Nat) (o : RequestOutcome)
  | respond (i : Nat)
  | commitEmpty
  | commitStoreThrows (msg : String)
  | commitPutThrows (order : List (Σ _ : String, Bytes)) (i : Nat) (e : DomException)
  | commitIssue (order : List (Σ _ : String, Bytes))
  | putsJoined
  | commitOutcome
  | rollbackEmpty
  | rollbackSettled
  | rollbackAbortThrows (msg : String)
  | rollbackAbort
  | rollbackOutcome
  | drop
  | exec
  | execThrows (msg : String)
  | fail (e : DomException)
  | autoCommit
  | abort (e : DomException)
  | bubble
  | runTask (v : WriteState)

instance (w : World) : Decidable w.Idle := inferInstanceAs (Decidable (_ ∧ _))

/-- Emptiness of a pending map, decided on its entries so that it evaluates. -/
instance (p : Pending) : Decidable (p = ∅) :=
  decidable_of_iff (p.entries = [])
    ⟨fun h => AList.ext (h.trans AList.empty_entries.symm), fun h => h ▸ AList.empty_entries⟩

namespace World

open World

/-- Perform one action, if its step is enabled. -/
def act (w : World) : Action → Option World
  | .invoke c =>
    if w.op = .staging then
      some { w with calls := w.calls ++ [.waiting c w.clock], clock := w.clock + 1 }
    else none
  | .run i pl =>
    match w.calls[i]? with
    | some (.waiting c t) =>
      if w.op = .staging ∧ w.lock = none ∧ c.suspends w.pending pl = false then
        some ({ w with pending := c.stage w.pending }.finish i c t
          (c.answer w.pending w.db pl) false)
      else none
    | _ => none
  | .suspend i o =>
    match w.calls[i]? with
    | some (.waiting c t) =>
      if w.op = .staging ∧ w.lock = none ∧ c.suspends w.pending (.placed o) = true ∧
          w.tx.state = .active then
        some { w with lock := some i, calls := w.calls.set i (.reading c t o) }
      else none
    | _ => none
  | .respond i =>
    match w.calls[i]? with
    | some (.reading c t o) =>
      if w.op = .staging ∧ w.lock = some i ∧ w.bubbling = none then
        some ({ w with lock := none, bubbling := o.failure }.finish i c t
          (c.answer w.pending w.db (.placed o)) (o != .success))
      else none
    | _ => none
  | .commitEmpty =>
    if w.Idle ∧ w.pending = ∅ then some { w.release with op := .committed (.ok ()) } else none
  | .commitStoreThrows msg =>
    if w.Idle ∧ w.pending ≠ ∅ ∧ w.tx.state ≠ .active then
      some { w.release with op := .committed (.error (.ofJs (.invalidState msg))) }
    else none
  | .commitPutThrows order i e =>
    if w.Idle ∧ w.pending ≠ ∅ ∧ w.tx.state = .active ∧ order.Perm w.pending.entries ∧
        i < order.length then
      some { release (w.placePuts (order.take i)) with op := .committed (.error (.ofJs e)) }
    else none
  | .commitIssue order =>
    if w.Idle ∧ w.pending ≠ ∅ ∧ w.tx.state = .active ∧ order.Perm w.pending.entries then
      some { w.placePuts order with op := .awaitPuts order 0 }
    else none
  | .putsJoined =>
    match w.op with
    | .awaitPuts order n =>
      if n = order.length then some { w with op := .awaitCommit order } else none
    | _ => none
  | .commitOutcome =>
    match w.op with
    | .awaitCommit _ =>
      if w.cell ≠ .open then
        some { w.release with op := .committed (commitResult w.tx.error w.cell) }
      else none
    | _ => none
  | .rollbackEmpty =>
    if w.Idle ∧ w.pending = ∅ then some { w.release with op := .rolledBack (.ok ()) } else none
  | .rollbackSettled =>
    if w.Idle ∧ w.pending ≠ ∅ ∧ (w.cell = .committed ∨ w.cell = .aborted) then
      some { w.release with op := .rolledBack (.ok ()) }
    else none
  | .rollbackAbortThrows msg =>
    if w.Idle ∧ w.pending ≠ ∅ ∧ w.cell ≠ .committed ∧ w.cell ≠ .aborted ∧
        w.tx.state ≠ .active then
      some { w.release with op := .rolledBack (.error (.ofJs (.invalidState msg))) }
    else none
  | .rollbackAbort =>
    if w.Idle ∧ w.pending ≠ ∅ ∧ w.cell ≠ .committed ∧ w.cell ≠ .aborted ∧
        w.tx.state = .active then
      some { w.abortTx none with op := .awaitAbort }
    else none
  | .rollbackOutcome =>
    if w.op = .awaitAbort ∧ w.cell ≠ .open then
      some { w.release with op := .rolledBack (rollbackResult w.tx.error w.cell) }
    else none
  | .drop => if w.Idle then some { w.release with op := .dropped } else none
  | .exec =>
    match w.tx.queue with
    | r :: rest =>
      if w.tx.state = .active ∧ r.onSuccess = .live ∧ w.bubbling = none then
        some { w with tx := w.tx.exec r rest, op := w.op.ack }
      else none
    | [] => none
  | .execThrows msg =>
    match w.tx.queue with
    | r :: _ =>
      if w.tx.state = .active ∧ r.onSuccess ≠ .live ∧ w.bubbling = none then
        some (w.abortTx (some (.abortError msg)))
      else none
    | [] => none
  | .fail e =>
    match w.tx.queue with
    | _ :: rest =>
      if w.tx.state = .active ∧ w.bubbling = none then
        some (({ w with tx := { w.tx with queue := rest } }.fire .error).abortTx (some e))
      else none
    | [] => none
  | .autoCommit =>
    if w.tx.state = .active ∧ w.tx.queue = [] ∧ w.lock = none ∧ w.bubbling = none then
      some ({ w with db := w.db.putAll w.tx.writes, tx := w.tx.commit }.fire .complete)
    else none
  | .abort e =>
    if w.tx.state = .active ∧ w.lock = none ∧ w.bubbling = none then some (w.abortTx (some e))
    else none
  | .bubble =>
    match w.bubbling with
    | some e => some (w.bubble e)
    | none => none
  | .runTask v =>
    if v ∈ w.tasks then some { w with cell := v, tasks := w.tasks.erase v } else none

/-- **Every action `act` performs is a step.** -/
theorem act_sound {w w' : World} {a : Action} (h : w.act a = some w') : Step w w' := by
  cases a <;> simp only [act] at h
  case invoke c =>
    split_ifs at h with h₁; cases h; exact .call (.invoke w c h₁)
  case run i pl =>
    split at h <;> [skip; cases h]
    rename_i c t hi
    split_ifs at h with h₁; cases h; exact .call (.run w i c t pl h₁.1 hi h₁.2.1 h₁.2.2)
  case suspend i o =>
    split at h <;> [skip; cases h]
    rename_i c t hi
    split_ifs at h with h₁; cases h
    exact .call (.suspend w i c t o h₁.1 hi h₁.2.1 h₁.2.2.1 h₁.2.2.2)
  case respond i =>
    split at h <;> [skip; cases h]
    rename_i c t o hi
    split_ifs at h with h₁; cases h; exact .call (.respond w i c t o h₁.1 hi h₁.2.1 h₁.2.2)
  case commitEmpty =>
    split_ifs at h with h₁; cases h; exact .adapter (.commitEmpty w h₁.1 h₁.2)
  case commitStoreThrows msg =>
    split_ifs at h with h₁; cases h
    exact .adapter (.commitStoreThrows w msg h₁.1 h₁.2.1 h₁.2.2)
  case commitPutThrows order i e =>
    split_ifs at h with h₁; cases h
    obtain ⟨h₁, h₂, h₃, h₄, h₅⟩ := h₁
    exact .adapter (.commitPutThrows w order i e h₁ h₂ h₃ h₄ h₅)
  case commitIssue order =>
    split_ifs at h with h₁; cases h
    exact .adapter (.commitIssue w order h₁.1 h₁.2.1 h₁.2.2.1 h₁.2.2.2)
  case putsJoined =>
    split at h <;> [skip; cases h]
    rename_i order n hop
    split_ifs at h with h₁; cases h; subst h₁; exact .adapter (.putsJoined w order hop)
  case commitOutcome =>
    split at h <;> [skip; cases h]
    rename_i order hop
    split_ifs at h with h₁; cases h; exact .adapter (.commitOutcome w order hop h₁)
  case rollbackEmpty =>
    split_ifs at h with h₁; cases h; exact .adapter (.rollbackEmpty w h₁.1 h₁.2)
  case rollbackSettled =>
    split_ifs at h with h₁; cases h; exact .adapter (.rollbackSettled w h₁.1 h₁.2.1 h₁.2.2)
  case rollbackAbortThrows msg =>
    split_ifs at h with h₁; cases h
    exact .adapter (.rollbackAbortThrows w msg h₁.1 h₁.2.1 h₁.2.2.1 h₁.2.2.2.1 h₁.2.2.2.2)
  case rollbackAbort =>
    split_ifs at h with h₁; cases h
    exact .adapter (.rollbackAbort w h₁.1 h₁.2.1 h₁.2.2.1 h₁.2.2.2.1 h₁.2.2.2.2)
  case rollbackOutcome =>
    split_ifs at h with h₁; cases h; exact .adapter (.rollbackOutcome w h₁.1 h₁.2)
  case drop =>
    split_ifs at h with h₁; cases h; exact .adapter (.drop w h₁)
  case exec =>
    split at h <;> [skip; cases h]
    rename_i r rest hq
    split_ifs at h with h₁; cases h; exact .backend (.exec w r rest h₁.1 hq h₁.2.1 h₁.2.2)
  case execThrows msg =>
    split at h <;> [skip; cases h]
    rename_i r rest hq
    split_ifs at h with h₁; cases h
    exact .backend (.execThrows w r rest msg h₁.1 hq h₁.2.1 h₁.2.2)
  case fail e =>
    split at h <;> [skip; cases h]
    rename_i r rest hq
    split_ifs at h with h₁; cases h; exact .backend (.fail w r rest e h₁.1 hq h₁.2)
  case autoCommit =>
    split_ifs at h with h₁; cases h
    exact .backend (.autoCommit w h₁.1 h₁.2.1 h₁.2.2.1 h₁.2.2.2)
  case abort e =>
    split_ifs at h with h₁; cases h; exact .backend (.abort w e h₁.1 h₁.2.1 h₁.2.2)
  case bubble =>
    split at h <;> [skip; cases h]
    rename_i e hb
    cases h; exact .backend (.bubble w e hb)
  case runTask v =>
    split_ifs at h with h₁; cases h; exact .task (.run w v h₁)

/-- Perform the actions of a list one after another, while their steps are enabled. -/
def runActions : World → List Action → Option World
  | w, [] => some w
  | w, a :: as => (w.act a).bind fun w' => w'.runActions as

/-- A list of actions that runs to its end is a run of the protocol. -/
theorem runActions_sound {w w' : World} {as : List Action} (h : w.runActions as = some w') :
    Relation.ReflTransGen Step w w' := by
  induction as generalizing w with
  | nil => cases h; exact .refl
  | cons a as ih =>
    simp only [runActions, Option.bind_eq_some] at h
    obtain ⟨w₁, h₁, h₂⟩ := h
    exact .head (act_sound h₁) (ih h₂)

/-- The state a list of actions ends in, run from `WriteTransaction::new`, is reachable. -/
theorem reachable_of_runActions {S : Contents} {w : World} {as : List Action}
    (h : (init S).runActions as = some w) : Reachable S w :=
  runActions_sound h

lemma runActions_append (w : World) (as bs : List Action) :
    w.runActions (as ++ bs) = (w.runActions as).bind (·.runActions bs) := by
  induction as generalizing w with
  | nil => rfl
  | cons a as ih => rw [List.cons_append, runActions, runActions, Option.bind_assoc]; simp only [ih]

/-- The state a list of actions ends in from `WriteTransaction::new` on `S`, or that initial
state when one of the actions is not enabled. -/
def trace (S : Contents) (as : List Action) : World := ((init S).runActions as).getD (init S)

theorem reachable_trace {S : Contents} {as : List Action}
    (h : ((init S).runActions as).isSome) : Reachable S (trace S as) := by
  obtain ⟨w, hw⟩ := Option.isSome_iff_exists.1 h
  rw [trace, hw]
  exact reachable_of_runActions hw

/-- A run extended by more actions is a run from the state the first part ends in. -/
theorem trace_append {S : Contents} {as bs : List Action}
    (h : ((init S).runActions (as ++ bs)).isSome) :
    Relation.ReflTransGen Step (trace S as) (trace S (as ++ bs)) := by
  unfold trace
  rw [runActions_append] at h ⊢
  cases h₁ : (init S).runActions as with
  | none => simp [h₁] at h
  | some w₁ =>
    simp only [h₁, Option.some_bind, Option.getD_some] at h ⊢
    obtain ⟨w₂, h₂⟩ := Option.isSome_iff_exists.1 h
    rw [h₂]
    exact runActions_sound h₂

end World

end Replicache.Kv
