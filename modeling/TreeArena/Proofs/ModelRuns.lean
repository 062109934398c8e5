import TreeArena.Proofs.ModelCalls

/-!
# Runs of model store calls

A client calls models and model stores in any order, writes to record stores and gives back the
references it holds (`Workspace.Call`), each call made on record store contents of a kind `Seen`
(`Workspace.Calls`). Every call keeps the invariant `Workspace.Kept` with the references held
before and after it (`Kept.call`), so every run does (`Kept.calls`), and from a client's first
workspace on (`Kept.start`). Then:

* each window starts at a record index `≥ 0` and holds at least one slot; every model in it is
  live and is the model of the record at its index in contents seen under the checksum the window
  was last filled under; sliding it to an index `i ≥ 0` brings `i` into it;
* the units held for memoized trees are one per model in a window that holds a tree, and a model
  outside every window is evicted and holds none (`Kept.memo_eq_none_of_evicted`);
* closing a model store or removing its records leaves its window empty, and then every tree of
  every pool is the failure node, held by the caller, or memoized in the window of another model
  store (`Workspace.Emptied`).
-/

namespace TreeArena

namespace Heap

/-- Every tree of a pool of an exact heap is the failure node or has its root named by one of the
handles: a pool keeps no tree that nothing holds. -/
theorem Exact.roots {h : Heap} {L : List Handle} (hE : h.Exact L) {k : Nat} {p : Pool}
    (hp : h.pools[k]? = some p) :
    ∃ u ts, p.Kept u ts ∧ ∀ t ∈ ts, t.head.slot = p.failure.slot ∨
      ∃ r ∈ L, r.home = some k ∧ r.slot = t.head.slot := by
  obtain ⟨⟨ts, hK⟩, -⟩ := hE.pools k p hp
  refine ⟨_, ts, hK, fun t ht => ?_⟩
  by_cases hf : t.head.slot = p.failure.slot
  · exact .inl hf
  right
  have hpin : t.head.pinned = false := by
    cases hpn : t.head.pinned
    · rfl
    · exact absurd ((hK.proper t ht).head.pinned_iff.mp hpn) hf
  -- a root other than the failure node is owed a unit, which only a handle gives
  have hpos := hK.owed t ht hpin
  simp only [addUnit, if_neg hf] at hpos
  obtain ⟨r, hr, hrk⟩ := List.countP_pos_iff.mp hpos
  simp only [decide_eq_true_eq] at hrk
  exact ⟨r, hr, hrk.1, hrk.2⟩

end Heap

namespace Workspace

/-! ### Calls -/

/-- The workspace a run of `m` leaves, whether it returns or stops at an error. -/
def after {α : Type} (m : WorkM α) (w : Workspace) : Workspace :=
  match m.run w with
  | .ok _ w' => w'
  | .error _ w' => w'

/-- The references a caller holds after a call that hands back a reference, with the workspace
the call leaves: the reference joins them when it owns a unit. -/
def gainAfter {β : Type} (m : WorkM (Handle × β)) (own : List Handle) (w : Workspace) :
    List Handle × Workspace :=
  match m.run w with
  | .ok res w' => (Heap.gain w'.heap res.1 own, w')
  | .error _ w' => (own, w')

/-- Model store `s` lists at most `2 ^ 63` records, so that its records have indices of sixty-four
bits. -/
def Short (w : Workspace) (s : Nat) : Prop :=
  ∀ (ms : ModelStore) (b : Backend), w.modelStores[s]? = some ms → w.stores[ms.store]? = some b →
    (Store.listed b ms.extension).length ≤ 2 ^ 63

/-- One call of a client that holds the references `own` in `w` and holds `own'` in the workspace
`w'` the call leaves. Model stores are named by their number and read at indices of sixty-four
bits, and a store that is counted or searched lists at most `2 ^ 63` records. -/
inductive Call : List Handle → Workspace → List Handle → Workspace → Prop where
  | addModelStore {own : List Handle} {w : Workspace} (store pool : Nat) (ext : String)
      (memoized : Int) (hm : memoized ≤ 2 ^ 62) :
      Call own w own (after (Workspace.addModelStore store pool ext memoized) w)
  | modelAt {own : List Handle} {w : Workspace} (s : Nat) (i : Int) (hs : s < w.modelStores.size)
      (hi : i < 2 ^ 63) :
      Call own w own (after (Workspace.modelAt s i) w)
  | definedModelAt {own : List Handle} {w : Workspace} (s : Nat) (i : Int)
      (hs : s < w.modelStores.size) (hshort : w.Short s) :
      Call own w own (after (Workspace.definedModelAt s i) w)
  | definedCount {own : List Handle} {w : Workspace} (s : Nat) (hs : s < w.modelStores.size)
      (hshort : w.Short s) :
      Call own w own (after (Workspace.definedCount s) w)
  | resolve {own : List Handle} {w : Workspace} (s : Nat) (name : String)
      (hs : s < w.modelStores.size) (hshort : w.Short s) :
      Call own w (gainAfter (Workspace.resolve s name) own w).1
        (gainAfter (Workspace.resolve s name) own w).2
  | expression {own : List Handle} {w : Workspace} (j : Nat) (hj : j < w.models.size) :
      Call own w (gainAfter (Workspace.expression j) own w).1
        (gainAfter (Workspace.expression j) own w).2
  | setExpression {own : List Handle} {w : Workspace} (j : Nat) (r : Handle) :
      Call own w own (after (Workspace.setExpression j r) w)
  | removeAll {own : List Handle} {w : Workspace} (s : Nat) (hs : s < w.modelStores.size) :
      Call own w own (after (Workspace.removeAll s) w)
  | closeModels {own : List Handle} {w : Workspace} (s : Nat) (hs : s < w.modelStores.size) :
      Call own w own (after (Workspace.closeModels s) w)
  | write {own : List Handle} {w : Workspace} (k : Nat) (wr : StoreWrite) :
      Call own w own (after (onStore k wr.run) w)
  | release {own : List Handle} {w : Workspace} (r : Handle) (hr : r ∈ own) :
      Call own w (own.erase r) (after (heapOp (Heap.release r)) w)

/-- A run of calls, each made when every record store holds contents that `Seen` admits. -/
inductive Calls (Seen : Nat → Backend → Prop) :
    List Handle → Workspace → List Handle → Workspace → Prop where
  | refl {own : List Handle} {w : Workspace} : Calls Seen own w own w
  | step {own own₁ own' : List Handle} {w w₁ w' : Workspace}
      (hseen : ∀ (k : Nat) (b : Backend), w.stores[k]? = some b → Seen k b)
      (hc : Call own w own₁ w₁) (hr : Calls Seen own₁ w₁ own' w') : Calls Seen own w own' w'

variable {Seen : Nat → Backend → Prop} {own own' : List Handle} {w w' : Workspace} {α β : Type}

theorem Ends.after {m : WorkM α} {P : Workspace → Prop} (he : Ends m w (fun _ w' => P w') P) :
    P (after m w) := by
  unfold Ends at he
  unfold Workspace.after
  cases hm : m.run w <;> rw [hm] at he <;> exact he

theorem Ends.gainAfter {m : WorkM (Handle × β)}
    (he : Ends m w (fun res w' => w'.Kept Seen (Heap.gain w'.heap res.1 own))
      (fun w' => w'.Kept Seen own)) :
    (gainAfter m own w).2.Kept Seen (gainAfter m own w).1 := by
  unfold Ends at he
  unfold Workspace.gainAfter
  cases hm : m.run w <;> rw [hm] at he <;> exact he

/-! ### What one call keeps -/

theorem Kept.release (hK : w.Kept Seen own) {r : Handle} (hr : r ∈ own) :
    (after (heapOp (Heap.release r)) w).Kept Seen (own.erase r) := by
  obtain ⟨c, h', hrun, -, hE', -⟩ := hK.exact.release fun _ => List.mem_append_left _ hr
  have hafter : after (heapOp (Heap.release r)) w = { w with heap := h' } := by
    simp only [Workspace.after, run_heapOp_ok hrun]
  rw [hafter]
  exact hK.withHeap (by rwa [List.erase_append_left _ hr] at hE')

theorem run_addModelStore (store pool : Nat) (ext : String) (memoized : Int) :
    (addModelStore store pool ext memoized).run w = .ok w.modelStores.size
      { w with modelStores := w.modelStores.push ⟨store, pool, ext, Array.replicate
          (if memoized ≤ 0 then defaultMemoized else memoized.toNat) none, 0, 0⟩ } := rfl

/-- A new model store keeps the invariant when its window holds at most `2 ^ 62` records: the
window starts at record 0, holds at least one slot, and is empty. -/
theorem Kept.addModelStore (hK : w.Kept Seen own) (store pool : Nat) (ext : String)
    {memoized : Int} (hm : memoized ≤ 2 ^ 62) :
    (after (Workspace.addModelStore store pool ext memoized) w).Kept Seen own := by
  simp only [Workspace.after, run_addModelStore]
  generalize hk : (if memoized ≤ 0 then defaultMemoized else memoized.toNat) = k
  have hk1 : 0 < k ∧ k ≤ 2 ^ 62 := by
    rw [← hk]
    split
    · exact ⟨by decide, by decide⟩
    · omega
  generalize hms₀ : (⟨store, pool, ext, Array.replicate k none, 0, 0⟩ : ModelStore) = ms₀
  have hnone : ∀ a j : Nat, ms₀.memo[a]? ≠ some (some j) :=
    fun a j => by simp [← hms₀, Array.getElem?_replicate]
  have hget : ∀ s, (w.modelStores.push ms₀)[s]? =
      if s = w.modelStores.size then some ms₀ else w.modelStores[s]? := fun _ => Array.getElem?_push
  -- a window of the old stores is a window of the new ones
  have hold : ∀ j, w.Windowed j → Windowed { w with modelStores := w.modelStores.push ms₀ } j :=
    fun j hw => by
      obtain ⟨s, ms, a, hs, ha⟩ := hw
      have hlt : s < w.modelStores.size := (Array.getElem?_eq_some_iff.mp hs).1
      exact ⟨s, ms, a, by rw [hget, if_neg (Nat.ne_of_lt hlt), hs], ha⟩
  refine ⟨hK.exact, hK.memory, fun s ms hs => ?_, fun s s' ms ms' a a' j hs hs' ha ha' => ?_,
    fun j m hj hnw => hK.parked j m hj fun hw => hnw (hold j hw)⟩
  · rw [hget] at hs
    split at hs
    · cases hs
      refine ⟨by simp [← hms₀], by simpa [← hms₀] using hk1.1, by simpa [← hms₀] using hk1.2,
        fun a j hj => absurd hj (hnone a j)⟩
    · exact hK.windows s ms hs
  · rw [hget] at hs hs'
    split at hs
    · cases hs
      exact absurd ha (hnone a j)
    split at hs'
    · cases hs'
      exact absurd ha' (hnone a' j)
    exact hK.once s s' ms ms' a a' j hs hs' ha ha'

/-- Every call keeps the invariant, with the references the caller holds before and after it. -/
theorem Kept.call (hK : w.Kept Seen own) (hseen : ∀ k b, w.stores[k]? = some b → Seen k b)
    (hc : Call own w own' w') : w'.Kept Seen own' := by
  cases hc with
  | addModelStore store pool ext memoized hm => exact hK.addModelStore store pool ext hm
  | modelAt s i hs hi =>
    exact Ends.after ((hK.modelAt hseen (Array.getElem?_eq_getElem hs) hi).mono
      (fun _ _ h => h.1) fun _ h => h.1)
  | definedModelAt s i hs hshort =>
    exact Ends.after (hK.definedModelAt hseen (Array.getElem?_eq_getElem hs)
      (fun b hb => hshort _ b (Array.getElem?_eq_getElem hs) hb) i)
  | definedCount s hs hshort =>
    exact Ends.after (hK.definedCount hseen (Array.getElem?_eq_getElem hs)
      (fun b hb => hshort _ b (Array.getElem?_eq_getElem hs) hb))
  | resolve s name hs hshort =>
    exact Ends.gainAfter (hK.resolve hseen (Array.getElem?_eq_getElem hs)
      (fun b hb => hshort _ b (Array.getElem?_eq_getElem hs) hb) name)
  | expression j hj =>
    exact Ends.gainAfter ((hK.expression (Array.getElem?_eq_getElem hj)).mono
      (fun _ _ h => h.1) fun _ h => h.1)
  | setExpression j r => exact Ends.after (hK.setExpression j r)
  | removeAll s hs =>
    exact Ends.after ((hK.removeAll (Array.getElem?_eq_getElem hs)).mono
      (fun _ _ h => h.1) fun _ h => h.1)
  | closeModels s hs =>
    exact Ends.after ((hK.closeModels (Array.getElem?_eq_getElem hs)).mono
      (fun _ _ h => h.1) fun _ h => h)
  | write k wr =>
    exact Ends.after ((hK.write k wr).mono (fun _ _ h => h.1) fun _ h => h.1)
  | release r hr => exact hK.release hr

theorem Kept.calls (hK : w.Kept Seen own) (hc : Calls Seen own w own' w') : w'.Kept Seen own' := by
  induction hc with
  | refl => exact hK
  | step hseen hc _ ih => exact ih (hK.call hseen hc)

/-! ### What the invariant says -/

theorem Model.memo_eq_some {m : Model} {r : Handle} (h : m.memo = some r) :
    r = m.expression ∧ m.expression.named = true := by
  unfold Model.memo at h
  split at h
  · exact ⟨(Option.some.inj h).symm, by assumption⟩
  · cases h

theorem Kept.memo_eq_none_of_evicted {Seen : Nat → Backend → Prop} (hK : w.Kept Seen own)
    {j : Nat} {m : Model} (hj : w.models[j]? = some m) (hev : m.evicted = true) : m.memo = none := by
  by_cases hw : w.Windowed j
  · -- a model in a window is live
    obtain ⟨s, ms, a, hs, ha⟩ := hw
    obtain ⟨m', hm', hf⟩ := (hK.windows s ms hs).fills a j ha
    rw [hj] at hm'
    cases hm'
    rw [hf.live] at hev
    cases hev
  · simp [Model.memo, (hK.parked j m hj hw).2]

/-- Model store `s` holds no model, and every tree of every pool is the failure node, held by the
caller (`own`), or memoized by a model in the window of another model store. -/
def Emptied (s : Nat) (own : List Handle) (w : Workspace) : Prop :=
  (∀ ms, w.modelStores[s]? = some ms → ∀ a j : Nat, ms.memo[a]? ≠ some (some j)) ∧
    ∀ (k : Nat) (p : Pool), w.heap.pools[k]? = some p → ∃ u ts, p.Kept u ts ∧ ∀ t ∈ ts,
      t.head.slot = p.failure.slot ∨ (∃ r ∈ own, r.home = some k ∧ r.slot = t.head.slot) ∨
        ∃ (j : Nat) (m : Model) (s' : Nat) (ms' : ModelStore) (a : Nat), s' ≠ s ∧
          w.models[j]? = some m ∧ w.modelStores[s']? = some ms' ∧ ms'.memo[a]? = some (some j) ∧
          m.expression.home = some k ∧ m.expression.slot = t.head.slot

/-- Once the window of `s` is empty, the trees the pools keep are the failure nodes, the caller's
and those of the other windows. -/
theorem Kept.emptied (hK : w.Kept Seen own) {s : Nat}
    (hempty : ∀ ms, w.modelStores[s]? = some ms → ∀ a j : Nat, ms.memo[a]? ≠ some (some j)) :
    w.Emptied s own := by
  refine ⟨hempty, fun k p hp => ?_⟩
  obtain ⟨u, ts, hKp, hroots⟩ := hK.exact.roots hp
  refine ⟨u, ts, hKp, fun t ht => ?_⟩
  rcases hroots t ht with hf | ⟨r, hr, hrk, hrs⟩
  · exact .inl hf
  rcases List.mem_append.mp hr with ho | hm
  · exact .inr (.inl ⟨r, ho, hrk, hrs⟩)
  -- a memoized tree: its model is named, hence in a window, and not in that of `s`
  obtain ⟨m, hm, hmemo⟩ := List.mem_filterMap.mp hm
  obtain ⟨j, hj⟩ := Array.mem_iff_getElem?.mp (Array.mem_toList_iff.mp hm)
  obtain ⟨rfl, hnamed⟩ := Model.memo_eq_some hmemo
  have hw : w.Windowed j := by
    by_contra hnw
    rw [(hK.parked j m hj hnw).2] at hnamed
    cases hnamed
  obtain ⟨s', ms', a, hs', ha⟩ := hw
  have hne : s' ≠ s := by
    rintro rfl
    exact hempty ms' hs' a j ha
  exact .inr (.inr ⟨j, m, s', ms', a, hne, hj, hs', ha, hrk, hrs⟩)

theorem emptied_setIfInBounds {ms : ModelStore} (hs : w.modelStores[s]? = some ms) :
    ∀ ms', (w.modelStores.setIfInBounds s
        { ms with memo := Array.replicate ms.memo.size none })[s]? = some ms' →
      ∀ a j : Nat, ms'.memo[a]? ≠ some (some j) := fun ms' h a j => by
  rw [getElem?_setIfInBounds_of hs, if_pos rfl] at h
  cases h
  simp [Array.getElem?_replicate]

theorem Kept.closeModels_emptied (hK : w.Kept Seen own) {s : Nat} (hs : s < w.modelStores.size) :
    (after (Workspace.closeModels s) w).Emptied s own := by
  have hms := Array.getElem?_eq_getElem hs
  obtain ⟨h', models', hrun, hK'⟩ := hK.invalidate hms
  unfold Workspace.after Workspace.closeModels
  rw [hrun]
  exact hK'.emptied (emptied_setIfInBounds hms)

/-- Removing a model store's records empties its window, whether the deletion succeeds or not. -/
theorem Kept.removeAll_emptied (hK : w.Kept Seen own) {s : Nat} (hs : s < w.modelStores.size) :
    (after (Workspace.removeAll s) w).Emptied s own := by
  have hms := Array.getElem?_eq_getElem hs
  have hempty := emptied_setIfInBounds hms
  refine Ends.after ((hK.removeAll hms).mono (fun _ _ h => ?_) fun _ h => ?_)
  · exact h.1.emptied (by rw [h.2]; exact hempty)
  · exact h.1.emptied (by rw [h.2]; exact hempty)

/-! ### Runs from a client's first workspace -/

/-- A client's first workspace: pools just built, one empty in-memory record store, and no model
or model store. -/
def start (pools : Array Pool) : Workspace :=
  ⟨⟨pools⟩, #[Backend.empty .memory], #[], #[]⟩

/-- A client's first workspace keeps the invariant, holding no reference. -/
theorem Kept.start {pools : Array Pool}
    (hpools : ∀ (k : Nat) (p : Pool), pools[k]? = some p →
      ∃ (tag : Nat) (cap : Int) (opts : PoolOptions), Pool.new tag cap opts = .ok p) :
    (Workspace.start pools).Kept Seen [] := by
  refine ⟨⟨fun k p hp => ?_, fun r hr => absurd hr List.not_mem_nil⟩, fun k b hb => ?_,
    fun s ms hs => by simp [Workspace.start] at hs, fun s _ ms _ _ _ _ hs => by simp [Workspace.start] at hs,
    fun j m hj => by simp [Workspace.start] at hj⟩
  · -- a pool just built: its forest is the failure node, which holds its own unit
    obtain ⟨tag, cap, opts, hnew⟩ := hpools k p hp
    refine ⟨⟨[Tree.node (Pool.failureRecord p.failure.slot) []], ?_⟩,
      fun r hr => absurd hr List.not_mem_nil⟩
    have hK := Pool.Kept.new hnew
    have hu : addUnit (Heap.units ([] ++ memos (Workspace.start pools).models) k) p.failure.slot =
        fun s => if s = p.failure.slot then 1 else 0 := by
      funext x
      simp [addUnit, memos, Workspace.start]
    rw [hu]
    exact hK
  · simp only [Workspace.start] at hb
    rw [List.getElem?_toArray] at hb
    cases k with
    | zero =>
      cases hb
      exact Backend.memory_empty
    | succ k => simp at hb

/-! ### The window invariant over runs -/

/-- Over every run of calls from a workspace that keeps the invariant, the invariant holds with the
references the caller then holds: windows start at record indices `≥ 0`, every model in a window is
live and the model of the record at its index, and the units held for memoized trees are one per
model in a window that holds one. Sliding a window to an index `i ≥ 0` keeps the invariant and
brings `i` into the window; closing a model store or removing its records leaves its window empty
and every tree of every pool the failure node, the caller's, or one memoized in another window. -/
theorem windows_kept_over_calls (hK : w.Kept Seen own) (hc : Calls Seen own w own' w') :
    w'.Kept Seen own' ∧
      (∀ (s : Nat) (ms : ModelStore) (i : Int64), w'.modelStores[s]? = some ms → 0 ≤ i.toInt →
        (after (slide s i) w').Kept Seen own' ∧ ∃ ms', (after (slide s i) w').modelStores[s]? = some ms' ∧
          ms'.first.toInt ≤ i.toInt ∧ i.toInt < ms'.first.toInt + ms'.memo.size) ∧
      ∀ s, s < w'.modelStores.size →
        (after (Workspace.closeModels s) w').Emptied s own' ∧
          (after (Workspace.removeAll s) w').Emptied s own' := by
  have hK' := hK.calls hc
  refine ⟨hK', fun s ms i hs hi => ?_,
    fun s hs => ⟨hK'.closeModels_emptied hs, hK'.removeAll_emptied hs⟩⟩
  obtain ⟨w'', hrun, hK'', -, ms', hs', -, -, hlo, hhi⟩ := hK'.slide hs hi
  have hafter : after (slide s i) w' = w'' := by
    unfold Workspace.after
    rw [hrun]
  rw [hafter]
  exact ⟨hK'', ms', hs', hlo, hhi⟩

/-- From a client's first workspace with one pool of sixty-four bytes, adding a model store of
three records: the invariant holds, and closing the store empties it. -/
theorem windows_kept_from_start :
    ∃ p, Pool.new 0 64 {} = .ok p ∧
      (after (Workspace.addModelStore 0 0 "m" 3) (Workspace.start #[p])).Kept (fun _ _ => True) [] ∧
      ∀ s, s < (after (Workspace.addModelStore 0 0 "m" 3) (Workspace.start #[p])).modelStores.size →
        (after (Workspace.closeModels s)
          (after (Workspace.addModelStore 0 0 "m" 3) (Workspace.start #[p]))).Emptied s [] := by
  obtain ⟨p, hp⟩ : ∃ p, Pool.new 0 64 {} = .ok p := ⟨_, rfl⟩
  have hK₀ : (Workspace.start #[p]).Kept (fun _ _ => True) [] :=
    Kept.start fun k q hq => ⟨0, 64, {}, by
      have hqp : q = p := by
        cases k <;> simp_all
      rw [hqp]
      exact hp⟩
  obtain ⟨hK, -, hclose⟩ := windows_kept_over_calls hK₀
    (.step (fun _ _ _ => trivial) (.addModelStore 0 0 "m" 3 (by decide)) .refl)
  exact ⟨p, hp, hK, fun s hs => (hclose s hs).1⟩

end Workspace

end TreeArena
