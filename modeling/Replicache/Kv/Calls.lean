import Replicache.Kv.Protocol

set_option relaxedAutoImplicit false
set_option autoImplicit false

/-!
# Calls on an open write transaction

`put`, `has` and `get` on a `WriteTransaction` (directly or through `as_read`, which returns
the transaction itself) each start with `self.pending.lock().await`. In `has` and `get` the
guard is a temporary of the `match` scrutinee, so it lives until the end of the `match`:
a read of a key that is not staged holds the lock across its backend read. Calls therefore
run their critical sections one at a time, and a suspended read sees no put until it
returns.

## Main definitions

* `Replicache.Kv.LockInv` — the lock is held exactly by the one suspended read, whose key is
  not staged.

## Main results

* `Replicache.Kv.lockInv_reachable` — `LockInv` holds in every reachable state.
* `Replicache.Kv.World.staged_finish`, `Replicache.Kv.Call.stage_ofStaged` — how a returning
  call extends the staged puts and the pending map.

## References

* `src/kv/idbstore.rs`, lines 270-299.
-/

namespace Replicache.Kv

namespace Call

/-- A call that suspends on its backend read is a read, not a put. -/
lemma staged?_of_suspends {p : Pending} {c : Call} {pl : Placement}
    (h : c.suspends p pl = true) : c.staged? = none := by
  cases c <;> cases pl <;> simp_all [suspends, staged?]

/-- The critical section of a call extends the pending map by the call's staged put. -/
lemma stage_ofStaged (σ : List (Σ _ : String, Bytes)) (c : Call) :
    c.stage (Pending.ofStaged σ) = Pending.ofStaged (σ ++ c.staged?.toList) := by
  cases c <;> simp [stage, staged?, Pending.ofStaged_append_singleton]

/-- A put always returns `Ok(())`. -/
@[simp] lemma answer_put (p : Pending) (d : Contents) (pl : Placement) (k : String) (v : Bytes) :
    (Call.put k v).answer p d pl = .ok .unit := rfl

end Call

/-- The staged puts after a call returns `r`: an `Ok` reply is logged, so a put is added. -/
lemma World.staged_finish (w : World) (i : Nat) (c : Call) (t : Nat) (r : Result Reply)
    (f : Bool) : (w.finish i c t r f).staged =
      w.staged ++ match r with
        | .ok _ => c.staged?.toList
        | .error _ => [] := by
  cases r with
  | error => simp [World.staged, World.finish]
  | ok rep =>
    simp only [World.staged, World.finish, List.filterMap_append, List.filterMap_cons,
      List.filterMap_nil]
    cases c.staged? <;> rfl

/-- After a call's critical section, the pending map is still the staged puts replayed. -/
lemma World.pending_finish_ofStaged {w : World} (h : w.pending = Pending.ofStaged w.staged)
    (i : Nat) (c : Call) (t : Nat) (pl : Placement) :
    c.stage w.pending = Pending.ofStaged ({ w with pending := c.stage w.pending }.finish i c t
      (c.answer w.pending w.db pl) false).staged := by
  rw [World.staged_finish, h, Call.stage_ofStaged]
  cases c with
  | put k v => rfl
  | has k | get k => congr 1; split <;> rfl

/-- An entry of a list extended at the end is an old entry or the new one. -/
lemma getElem?_concat_eq {α : Type} {l : List α} {x y : α} {i : Nat}
    (h : (l ++ [x])[i]? = some y) : l[i]? = some y ∨ y = x := by
  rw [List.getElem?_append] at h
  split_ifs at h with hi
  · exact .inl h
  · right
    cases hn : i - l.length <;> simp_all

/-- An entry of a list after `set` is the new value, or an old entry at another index. -/
lemma getElem?_set_eq {α : Type} {l : List α} {x y : α} {i j : Nat}
    (h : (l.set i x)[j]? = some y) : (i = j ∧ y = x) ∨ (i ≠ j ∧ l[j]? = some y) := by
  rw [List.getElem?_set] at h
  split_ifs at h with h₁
  · exact .inl ⟨h₁, (Option.some.inj h).symm⟩
  · exact .inr ⟨h₁, h⟩

/-- The pending lock: held exactly by the one call suspended on its backend read, a read of a
key that is not staged. -/
structure LockInv (w : World) : Prop where
  reading : ∀ i c t o, w.calls[i]? = some (.reading c t o) →
    w.lock = some i ∧ c.suspends w.pending (.placed o) = true
  held : ∀ i, w.lock = some i → ∃ c t o, w.calls[i]? = some (.reading c t o)

namespace LockInv

variable {w : World}

/-- `LockInv` only looks at the calls, the lock and the pending map. -/
lemma frame (h : LockInv w) {w' : World} (h₁ : w'.calls = w.calls) (h₂ : w'.lock = w.lock)
    (h₃ : w'.pending = w.pending) : LockInv w' := by
  obtain ⟨h₄, h₅⟩ := h
  exact ⟨h₁ ▸ h₂ ▸ h₃ ▸ h₄, h₁ ▸ h₂ ▸ h₅⟩

/-- With the lock free, no call is suspended on its backend read. -/
lemma not_reading (h : LockInv w) (hl : w.lock = none) {i : Nat} {c : Call} {t : Nat}
    {o : RequestOutcome} : w.calls[i]? ≠ some (.reading c t o) := fun hr => by
  simp [(h.reading i c t o hr).1] at hl

/-- **`LockInv` is preserved by every step.** -/
theorem step (h : LockInv w) {w' : World} (hs : Step w w') : LockInv w' := by
  rcases hs with hs | hs | hs | hs
  · cases hs with
    | invoke c _ =>
      refine ⟨fun i c' t o hi => ?_, fun i hi => ?_⟩
      · rcases getElem?_concat_eq hi with hi | hi
        · exact h.reading i c' t o hi
        · cases hi
      · obtain ⟨c', t, o, hr⟩ := h.held i hi
        obtain ⟨hlt, -⟩ := List.getElem?_eq_some_iff.1 hr
        exact ⟨c', t, o, by simpa [List.getElem?_append_left hlt] using hr⟩
    | run i c t pl _ _ hl _ =>
      refine ⟨fun j c' t' o hj => ?_, fun j hj => by simp [hl] at hj⟩
      rcases getElem?_set_eq hj with ⟨-, hj⟩ | ⟨-, hj⟩
      · cases hj
      · exact absurd hj (h.not_reading hl)
    | suspend i c t o _ hi hl hs =>
      obtain ⟨hlt, -⟩ := List.getElem?_eq_some_iff.1 hi
      refine ⟨fun j c' t' o' hj => ?_, fun j hj => ?_⟩
      · rcases getElem?_set_eq hj with ⟨hij, hj⟩ | ⟨-, hj⟩
        · obtain ⟨rfl, rfl, rfl⟩ := CallState.reading.inj hj
          exact ⟨by simp [hij], hs⟩
        · exact absurd hj (h.not_reading hl)
      · obtain rfl : i = j := by simpa using hj
        exact ⟨c, t, o, by simp [hlt]⟩
    | respond i c t o _ _ hl =>
      refine ⟨fun j c' t' o' hj => ?_, fun j hj => by simp at hj⟩
      rcases getElem?_set_eq hj with ⟨-, hj⟩ | ⟨hne, hj⟩
      · cases hj
      · exact absurd (hl.symm.trans (h.reading j c' t' o' hj).1) (by simpa using hne)
  · cases hs <;> refine h.frame ?_ ?_ ?_ <;> simp [World.placePuts]
  · cases hs <;> refine h.frame ?_ ?_ ?_ <;> simp
  · cases hs; exact h.frame rfl rfl rfl

end LockInv

lemma lockInv_init (S : Contents) : LockInv (World.init S) :=
  ⟨fun _ _ _ _ h => by simp at h, fun _ h => by simp at h⟩

/-- **`LockInv` holds in every reachable state.** -/
theorem lockInv_reachable {S : Contents} {w : World} (h : Reachable S w) : LockInv w := by
  induction h with
  | refl => exact lockInv_init S
  | tail _ hs ih => exact ih.step hs

/-- A suspended call is a read, not a put. -/
lemma LockInv.staged?_eq_none {w : World} (h : LockInv w) {i : Nat} {c : Call} {t : Nat}
    {o : RequestOutcome} (hr : w.calls[i]? = some (.reading c t o)) : c.staged? = none :=
  Call.staged?_of_suspends (h.reading i c t o hr).2

end Replicache.Kv
