import Mathlib.Data.List.AList
import Replicache.Kv.Store

set_option relaxedAutoImplicit false
set_option autoImplicit false

/-!
# The pending map of a write transaction

A `WriteTransaction` stages its puts in `pending: Mutex<HashMap<String, Vec<u8>>>` and its
reads look there first: `has` answers `true` for a staged key and `get` returns the staged
value; on a miss both fall through to the transaction's own `ReadTransaction`. `commit`
later writes the map's entries to the backend in the map's iteration order.

The map is an `AList`: its keys are distinct, which is all the code relies on. The
iteration order of a Rust `HashMap` is unspecified, so it is never fixed here: wherever the
code iterates the map, the model takes an arbitrary permutation of its entries.

## Main definitions

* `Replicache.Kv.Pending`, `Replicache.Kv.Pending.put` — the map and `Write::put`.
* `Replicache.Kv.Pending.ofStaged` — the map after a sequence of staged puts.
* `Replicache.Kv.WriteTransaction.has`, `Replicache.Kv.WriteTransaction.get` — the reads of
  `impl Read for WriteTransaction`, for one call.

## Main results

* `Replicache.Kv.Pending.lookup_ofStaged` — the map holds, for each key, the last value
  staged for it.
* `Replicache.Kv.Pending.putAll_of_perm` — writing the entries of the map in **any** order
  yields the staged puts replayed one at a time in staging order.
* `Replicache.Kv.WriteTransaction.get_success`, `has_success` — with a succeeding backend
  read, the reads of a write transaction return the replay of the staged puts over the
  backend contents.
* `Replicache.Kv.WriteTransaction.has_of_mem` — no value of the pending map makes `has`
  deny a key the backend holds.

## References

* `src/kv/idbstore.rs`, lines 219-299.
-/

namespace Replicache.Kv

/-- The pending map of a `WriteTransaction`, `HashMap<String, Vec<u8>>`. -/
abbrev Pending := AList (fun _ : String => Bytes)

namespace Pending

/-- `impl Write for WriteTransaction`, `put`: `pending.insert(key, value)`. -/
def put (p : Pending) (key : String) (value : Bytes) : Pending := p.insert key value

/-- The pending map after the puts of `σ`, staged in order on a fresh transaction. -/
def ofStaged (σ : List (Σ _ : String, Bytes)) : Pending :=
  σ.foldl (fun p e => p.put e.1 e.2) ∅

@[simp] lemma ofStaged_nil : ofStaged [] = ∅ := rfl

lemma ofStaged_append_singleton (σ : List (Σ _ : String, Bytes)) (e : Σ _ : String, Bytes) :
    ofStaged (σ ++ [e]) = (ofStaged σ).put e.1 e.2 := by
  simp [ofStaged]

/-- The pending map holds the value of the last put staged for each key. -/
lemma lookup_ofStaged (σ : List (Σ _ : String, Bytes)) (k : String) :
    (ofStaged σ).lookup k = σ.reverse.dlookup k := by
  induction σ using List.reverseRecOn with
  | nil => rfl
  | append_singleton σ e ih =>
    obtain ⟨a, b⟩ := e
    rw [ofStaged_append_singleton, List.reverse_append]
    by_cases hk : k = a
    · subst hk; simp [put, AList.lookup_insert, List.dlookup_cons_eq]
    · simp [put, AList.lookup_insert_ne hk,
        List.dlookup_cons_ne _ (⟨a, b⟩ : Σ _ : String, Bytes) hk, ih]

lemma mem_ofStaged {σ : List (Σ _ : String, Bytes)} {k : String} :
    k ∈ ofStaged σ ↔ (σ.reverse.dlookup k).isSome := by
  rw [← lookup_ofStaged, AList.lookup_isSome]

/-- The pending map is empty exactly when nothing was staged. -/
lemma ofStaged_eq_empty {σ : List (Σ _ : String, Bytes)} : ofStaged σ = ∅ ↔ σ = [] := by
  refine ⟨fun h => ?_, fun h => h ▸ rfl⟩
  induction σ using List.reverseRecOn with
  | nil => rfl
  | append_singleton σ e _ =>
    have : e.1 ∈ ofStaged (σ ++ [e]) := by
      rw [ofStaged_append_singleton]; exact (AList.mem_insert _).2 (.inl rfl)
    rw [h] at this
    exact absurd this (AList.not_mem_empty _)

/-- **Commit order does not matter.** Writing the entries of the pending map in any order
gives the contents obtained by replaying the staged puts one at a time in staging order. -/
theorem putAll_of_perm (c : Contents) {σ order : List (Σ _ : String, Bytes)}
    (h : order.Perm (ofStaged σ).entries) : c.putAll order = c.putAll σ := by
  rw [c.putAll_perm h ((List.perm_nodupKeys h).2 (ofStaged σ).nodupKeys)]
  funext k
  rw [Contents.putAll_apply, Contents.putAll_apply,
    Contents.dlookup_reverse (ofStaged σ).nodupKeys, ← lookup_ofStaged]
  rfl

end Pending

/-! ## Reads of a write transaction -/

namespace WriteTransaction

/-- `impl Read for WriteTransaction`, `has`: `true` for a staged key, else the read
transaction's `has`. -/
def has (p : Pending) (c : Contents) (key : String) (pl : Placement) : Result Bool :=
  if key ∈ p then .ok true else ReadTransaction.has c key pl

/-- `impl Read for WriteTransaction`, `get`: the staged value, else the read transaction's
`get`. -/
def get (p : Pending) (c : Contents) (key : String) (pl : Placement) :
    Result (Option Bytes) :=
  match p.lookup key with
  | some v => .ok (some v)
  | none => ReadTransaction.get c key pl

variable (c : Contents) (σ : List (Σ _ : String, Bytes)) (key : String)

/-- With a succeeding backend read, `get` on a write transaction returns the staged puts
replayed over the backend contents. -/
lemma get_success : get (Pending.ofStaged σ) c key (.placed .success) = .ok (c.putAll σ key) := by
  rw [Contents.putAll_apply, ← Pending.lookup_ofStaged, get]
  cases (Pending.ofStaged σ).lookup key <;> simp

/-- With a succeeding backend read, `has` on a write transaction agrees with `get`. -/
lemma has_success :
    has (Pending.ofStaged σ) c key (.placed .success) = .ok (c.putAll σ key).isSome := by
  rw [Contents.putAll_apply, ← Pending.lookup_ofStaged, has]
  cases h : (Pending.ofStaged σ).lookup key <;> simp [← AList.lookup_isSome, h]

/-- Whatever the pending map holds, `has` reports a key the backend holds: the map has no
entry that denies a key. -/
lemma has_of_mem (p : Pending) (hk : (c key).isSome) :
    has p c key (.placed .success) = .ok true := by
  unfold has; split_ifs <;> simp [hk]

/-- Whatever the pending map holds, `get` finds a value under a key the backend holds. -/
lemma get_isSome_of_mem (p : Pending) (hk : (c key).isSome) :
    ∃ v, get p c key (.placed .success) = .ok (some v) := by
  unfold get
  cases p.lookup key with
  | some v => exact ⟨v, rfl⟩
  | none => obtain ⟨v, hv⟩ := Option.isSome_iff_exists.1 hk; exact ⟨v, by simp [hv]⟩

/-- The store of `write_transaction` in `src/kv/mod.rs` after its first puts holds `k1`. No
value of the pending map, whatever a `del("k1")` might leave in it, makes the transaction's
`has("k1")` return `false` or its `get("k1")` return `None`. -/
theorem has_true_for_stored_key (p : Pending) :
    has p (Function.update (fun _ => none) "k1" (some [118, 49])) "k1" (.placed .success) =
        .ok true ∧
      ∃ v, get p (Function.update (fun _ => none) "k1" (some [118, 49])) "k1"
        (.placed .success) = .ok (some v) :=
  ⟨has_of_mem _ _ p (by simp), get_isSome_of_mem _ _ p (by simp)⟩

end WriteTransaction

end Replicache.Kv
