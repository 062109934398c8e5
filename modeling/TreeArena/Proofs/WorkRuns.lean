import TreeArena.Proofs.HandleOps
import TreeArena.Proofs.RecordMap
import TreeArena.Records.Models

/-!
# Running workspace operations

A workspace operation runs in `WorkM`, which keeps the changes made before an error, as the
handle layer does. `Workspace.Ends m w Q E` says where one run from `w` ends: with `Q` of its
result and of the workspace it leaves when it returns, and in a workspace satisfying `E` when it
stops at an error. Runs are taken apart along their binds (`Ends.bind`), and the primitive reads
and writes of models, model stores, record stores and the heap each get a run lemma.

On an open in-memory backend the store's checksum is a function of its entries
(`Store.run_checksum`): the hash of each entry's bytes in key order.
-/

namespace TreeArena

section Run

variable {ε σ α β : Type}

theorem run_bind_of_ok {x : EStateM ε σ α} {f : α → EStateM ε σ β} {s s' : σ} {a : α}
    (h : x.run s = .ok a s') : (x >>= f).run s = (f a).run s' := by
  rw [EStateM.run_bind, h]

theorem run_bind_of_error {x : EStateM ε σ α} {f : α → EStateM ε σ β} {s s' : σ} {e : ε}
    (h : x.run s = .error e s') : (x >>= f).run s = .error e s' := by
  rw [EStateM.run_bind, h]

end Run

/-! ### The checksum of an in-memory backend -/

namespace Backend

/-- In entries whose keys ascend, each key looks up its own value. -/
theorem lookup_of_mem : ∀ {es : List (String × List UInt8)}, Sorted es →
    ∀ {k : String} {v : List UInt8}, (k, v) ∈ es → es.lookup k = some v
  | [], _, _, _, h => absurd h List.not_mem_nil
  | (k', v') :: rest, hs, k, v, h => by
    rw [lookup_cons_eq]
    rcases List.mem_cons.mp h with heq | hmem
    · cases heq
      exact if_pos rfl
    · -- a later key is larger, so not the head's
      have hlt : k' < k := (List.pairwise_cons.mp hs).1 (k, v) hmem
      rw [if_neg fun h => by subst h; exact String.lt_irrefl _ hlt]
      exact lookup_of_mem (List.pairwise_cons.mp hs).2 hmem

end Backend

namespace Store

/-- The checksum of a list of entries: the hash of their bytes in turn. -/
def checksumOf (es : List (String × List UInt8)) : UInt64 :=
  Xxh64.hash (es.flatMap fun e => entryBytes e.1 e.2)

variable {b : Backend}

/-- Reading the values of keys that each look up their own value gathers their bytes in turn. -/
theorem run_gatherEntries (hb : b.Memory) :
    ∀ {es : List (String × List UInt8)}, (∀ e ∈ es, b.entries.lookup e.1 = some e.2) →
      (gatherEntries (es.map Prod.fst)).run b = .ok (es.flatMap fun e => entryBytes e.1 e.2) b
  | [], _ => rfl
  | (k, v) :: es, hl => by
    have hget : (Backend.get? k).run b = .ok v b := by
      rw [Backend.run_get? hb, hl (k, v) (List.mem_cons_self ..)]
    have hrest := run_gatherEntries hb fun e he => hl e (List.mem_cons_of_mem _ he)
    simp only [List.map_cons, gatherEntries, List.flatMap_cons]
    rw [run_bind_of_ok (run_within_ok _ hget), run_bind_of_ok hrest]
    rfl

/-- On an open in-memory backend the checksum is that of its entries, and reads nothing else. -/
theorem run_checksum (hb : b.Memory) : checksum.run b = .ok (checksumOf b.entries) b := by
  unfold checksum
  rw [run_bind_of_ok (run_within_ok _ (Backend.run_keys_all hb)),
    run_bind_of_ok (run_gatherEntries hb fun e he => Backend.lookup_of_mem hb.sorted he)]
  rfl

end Store

namespace Workspace

variable {α β : Type} {w : Workspace}

/-! ### Where a run ends -/

/-- Run from `w`, `m` returns only with `Q` of its result and of the workspace it leaves, and stops
with an error only leaving a workspace that `E` holds of. -/
def Ends (m : WorkM α) (w : Workspace) (Q : α → Workspace → Prop) (E : Workspace → Prop) : Prop :=
  match m.run w with
  | .ok a w' => Q a w'
  | .error _ w' => E w'

section Ends

variable {m x : WorkM α} {f : α → WorkM β} {Q Q' : α → Workspace → Prop} {E E' : Workspace → Prop}

theorem Ends.ok (he : Ends m w Q E) {a : α} {w' : Workspace} (hm : m.run w = .ok a w') : Q a w' := by
  unfold Ends at he
  rwa [hm] at he

theorem Ends.error (he : Ends m w Q E) {e : WorkError} {w' : Workspace}
    (hm : m.run w = .error e w') : E w' := by
  unfold Ends at he
  rwa [hm] at he

theorem ends_of_ok {a : α} {w' : Workspace} (hm : m.run w = .ok a w') (hQ : Q a w') :
    Ends m w Q E := by
  unfold Ends
  rwa [hm]

theorem ends_of_error {e : WorkError} {w' : Workspace} (hm : m.run w = .error e w') (hE : E w') :
    Ends m w Q E := by
  unfold Ends
  rwa [hm]

theorem Ends.mono (he : Ends m w Q E) (hQ : ∀ a w', Q a w' → Q' a w') (hE : ∀ w', E w' → E' w') :
    Ends m w Q' E' := by
  unfold Ends at he ⊢
  cases hm : m.run w with
  | ok a w' =>
    rw [hm] at he
    exact hQ _ _ he
  | error e w' =>
    rw [hm] at he
    exact hE _ he

/-- A run that cannot stop in a workspace `E` holds of returns. -/
theorem Ends.returns (he : Ends m w Q E) (hE : ∀ w', ¬ E w') : ∃ a w', m.run w = .ok a w' ∧ Q a w' := by
  unfold Ends at he
  cases hm : m.run w with
  | ok a w' =>
    rw [hm] at he
    exact ⟨a, w', rfl, he⟩
  | error e w' =>
    rw [hm] at he
    exact absurd he (hE w')

theorem Ends.bind {R : β → Workspace → Prop} (hx : Ends x w Q E)
    (hf : ∀ a w', Q a w' → Ends (f a) w' R E) : Ends (x >>= f) w R E := by
  unfold Ends at hx
  split at hx <;> rename_i hm
  · unfold Ends
    rw [run_bind_of_ok hm]
    exact hf _ _ hx
  · unfold Ends
    rw [run_bind_of_error hm]
    exact hx

theorem ends_iff_of_ok {a : α} {w' : Workspace} (hm : m.run w = .ok a w') :
    Ends m w Q E ↔ Q a w' := by
  unfold Ends
  rw [hm]

theorem ends_bind_run {a : α} {w' : Workspace} {R : β → Workspace → Prop} (hx : x.run w = .ok a w') :
    Ends (x >>= f) w R E ↔ Ends (f a) w' R E := by
  unfold Ends
  rw [run_bind_of_ok hx]

theorem ends_pure {a : α} (hQ : Q a w) : Ends (pure a) w Q E := hQ

theorem ends_throw {e : WorkError} (hE : E w) : Ends (throw e : WorkM α) w Q E := hE

theorem ends_get_bind {g : Workspace → WorkM β} {R : β → Workspace → Prop} (hg : Ends (g w) w R E) :
    Ends (get >>= g) w R E := hg

end Ends

/-! ### Models and model stores -/

theorem run_get : (get : WorkM Workspace).run w = .ok w w := rfl

theorem run_model (j : Nat) : (model j).run w = .ok ((w.models[j]?).getD default) w := rfl

theorem run_setModel (j : Nat) (m : Model) :
    (setModel j m).run w = .ok () { w with models := w.models.setIfInBounds j m } := rfl

theorem run_addModel (m : Model) :
    (addModel m).run w = .ok w.models.size { w with models := w.models.push m } := rfl

theorem run_modelStore (s : Nat) :
    (modelStore s).run w = .ok ((w.modelStores[s]?).getD default) w := rfl

theorem run_setModelStore (s : Nat) (ms : ModelStore) :
    (setModelStore s ms).run w =
      .ok () { w with modelStores := w.modelStores.setIfInBounds s ms } := rfl

/-! ### The heap and the record stores -/

theorem run_heapOp_ok {m : HeapM α} {a : α} {h' : Heap} (hm : m.run w.heap = .ok a h') :
    (heapOp m).run w = .ok a { w with heap := h' } := by
  simp only [heapOp, EStateM.run] at hm ⊢
  rw [hm]

theorem run_heapOp_error {m : HeapM α} {e : Fault} {h' : Heap} (hm : m.run w.heap = .error e h') :
    (heapOp m).run w = .error (.fault e) { w with heap := h' } := by
  simp only [heapOp, EStateM.run] at hm ⊢
  rw [hm]

theorem Heap.Returns.heapOp {m : HeapM α} {Q : α → Heap → Prop} (hr : Heap.Returns m w.heap Q) :
    ∃ a h', (heapOp m).run w = .ok a { w with heap := h' } ∧ Q a h' := by
  obtain ⟨a, h', hm, hQ⟩ := hr
  exact ⟨a, h', run_heapOp_ok hm, hQ⟩

/-- A guarded handle operation either returns, giving the workspace its heap, or stops with the
workspace as it was. -/
theorem ends_heapOp {m : HeapM α} {Q : α → Heap → Prop} {E : Workspace → Prop}
    (hg : Heap.Guarded m w.heap Q) (hE : E w) :
    Ends (heapOp m) w (fun a w' => ∃ h', w' = { w with heap := h' } ∧ Q a h') E := by
  unfold Heap.Guarded at hg
  split at hg <;> rename_i hm
  · exact ends_of_ok (run_heapOp_ok hm) ⟨_, rfl, hg⟩
  · subst hg
    exact ends_of_error (run_heapOp_error hm) hE

/-- A handle operation that only reads leaves the workspace as it was, whether it returns or not. -/
theorem ends_heapOp_reads {m : HeapM α} {P : α → Prop} {E : Workspace → Prop}
    (hr : Heap.Reads m w.heap P) (hE : E w) : Ends (heapOp m) w (fun a w' => w' = w ∧ P a) E :=
  (ends_heapOp hr hE).mono (fun _ _ h => by
    obtain ⟨h', rfl, rfl, hP⟩ := h
    exact ⟨rfl, hP⟩) fun _ h => h

theorem run_tryCatch_ok {x : WorkM α} {hdl : WorkError → WorkM α} {a : α} {w' : Workspace}
    (hx : x.run w = .ok a w') : (tryCatch x hdl).run w = .ok a w' := by
  show (EStateM.tryCatch x hdl) w = _
  unfold EStateM.tryCatch
  simp only
  rw [show x w = .ok a w' from hx]

theorem run_tryCatch_error {x : WorkM α} {hdl : WorkError → WorkM α} {e : WorkError}
    {w' : Workspace} (hx : x.run w = .error e w') : (tryCatch x hdl).run w = (hdl e).run w' := by
  show (EStateM.tryCatch x hdl) w = _
  unfold EStateM.tryCatch
  simp only
  rw [show x w = .error e w' from hx]
  rfl

/-- A handler that catches the errors of a run ends as the handler does from where the run
stopped. -/
theorem ends_tryCatch {x : WorkM α} {hdl : WorkError → WorkM α} {Q : α → Workspace → Prop}
    {E E' : Workspace → Prop} (hx : Ends x w Q E) (hh : ∀ e w', E w' → Ends (hdl e) w' Q E') :
    Ends (tryCatch x hdl) w Q E' := by
  cases hm : x.run w with
  | ok a w' => exact ends_of_ok (run_tryCatch_ok hm) (hx.ok hm)
  | error e w' =>
    unfold Ends
    rw [run_tryCatch_error hm]
    exact hh e w' (hx.error hm)

theorem run_tryStore {k : Nat} {b : Backend} (hk : w.stores[k]? = some b) (m : StoreM α) :
    (tryStore k m).run w = match m.run b with
      | .ok a b' => .ok (.ok a) { w with stores := w.stores.setIfInBounds k b' }
      | .error e b' => .ok (.error e) { w with stores := w.stores.setIfInBounds k b' } := by
  rcases hmb : m b with ⟨a, b'⟩ | ⟨e, b'⟩ <;>
    simp only [tryStore, EStateM.run, hk, hmb, Array.setIfInBounds_setIfInBounds]

theorem Array.setIfInBounds_of_getElem? {γ : Type} {xs : Array γ} {i : Nat} {x : γ}
    (h : xs[i]? = some x) : xs.setIfInBounds i x = xs := by
  apply Array.ext_getElem?
  intro j
  rw [Array.getElem?_setIfInBounds]
  split
  · rename_i hij
    subst hij
    rw [if_pos (Array.getElem?_eq_some_iff.mp h).1, h]
  · rfl

/-- A store operation that reads its backend without changing it leaves the workspace as it was. -/
theorem run_tryStore_read {k : Nat} {b : Backend} (hk : w.stores[k]? = some b) {m : StoreM α}
    {a : α} (hm : m.run b = .ok a b) : (tryStore k m).run w = .ok (.ok a) w := by
  rw [run_tryStore hk, hm]
  show EStateM.Result.ok (Except.ok a) { w with stores := w.stores.setIfInBounds k b } = _
  rw [Array.setIfInBounds_of_getElem? hk]

theorem run_onStore_ok {k : Nat} {b b' : Backend} (hk : w.stores[k]? = some b) {m : StoreM α}
    {a : α} (hm : m.run b = .ok a b') :
    (onStore k m).run w = .ok a { w with stores := w.stores.setIfInBounds k b' } := by
  unfold onStore
  rw [run_bind_of_ok (by rw [run_tryStore hk, hm])]
  rfl

theorem run_onStore_error {k : Nat} {b b' : Backend} (hk : w.stores[k]? = some b) {m : StoreM α}
    {e : StoreError} (hm : m.run b = .error e b') :
    (onStore k m).run w = .error (.store e) { w with stores := w.stores.setIfInBounds k b' } := by
  unfold onStore
  rw [run_bind_of_ok (by rw [run_tryStore hk, hm])]
  rfl

end Workspace

end TreeArena
