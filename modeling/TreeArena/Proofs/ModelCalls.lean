import TreeArena.Proofs.Windows

/-!
# Model store calls

Every call a client makes on models and model stores keeps the workspace invariant
`Workspace.Kept`, with the references the client holds before and after the call: reading a model
through its store's window (`Kept.modelAt`), reading and memoizing a model's tree
(`Kept.expression`), storing a tree as a model's value (`Kept.setExpression`), resolving a name
(`Kept.resolve`), counting and searching defined models, and emptying or closing a store.

`modelAt` goes in three steps: it slides the window to hold the record (`Kept.slide`), empties it
if the store's checksum changed since it was filled (`Kept.refresh`), and reads the record's slot
(`Kept.lookup`). The model it returns answers for the record (`Model.Answers`): its record is the
one the store lists at that index, or the one listed there in contents of the store seen before
with the same checksum.
-/

namespace TreeArena

/-- Model `m` answers for record `i` of `ms`'s extension in the store contents `b`: its record is
that record (the null record for a negative index or one out of range), or the one listed at `i`
in contents seen before (`Seen`) that have the same checksum as `b`. -/
def Model.Answers (Seen : Nat → Backend → Prop) (ms : ModelStore) (b : Backend) (i : Int)
    (m : Model) : Prop :=
  m.record = (if i < 0 then Record.null else ((Store.listed b ms.extension)[i.toNat]?).getD
      Record.null) ∨
    0 ≤ i ∧ ∃ b', Seen ms.store b' ∧ Store.checksumOf b'.entries = Store.checksumOf b.entries ∧
      (Store.listed b' ms.extension)[i.toNat]? = some m.record

namespace Workspace

variable {Seen : Nat → Backend → Prop} {own : List Handle} {w : Workspace} {α : Type}

/-! ### Primitive steps -/

theorem run_onStore_read {k : Nat} {b : Backend} (hk : w.stores[k]? = some b) {m : StoreM α}
    {a : α} (hm : m.run b = .ok a b) : (onStore k m).run w = .ok a w := by
  rw [run_onStore_ok hk hm]
  show EStateM.Result.ok a { w with stores := w.stores.setIfInBounds k b } = _
  rw [Array.setIfInBounds_of_getElem? hk]

theorem run_onStore_none {k : Nat} (hk : w.stores[k]? = none) (m : StoreM α) :
    (onStore k m).run w = .error (.store .closed) w := by
  have h : (tryStore k m).run w = .ok (.error .closed) w := by simp only [tryStore, EStateM.run, hk]
  unfold onStore
  rw [run_bind_of_ok h]
  rfl

theorem run_nullModel {s : Nat} {ms : ModelStore} (hs : w.modelStores[s]? = some ms) :
    (nullModel s).run w = .ok w.models.size
      { w with models := w.models.push ⟨Record.null, ms.store, ms.pool, Handle.zero, true⟩ } := by
  unfold nullModel
  rw [run_bind_of_ok (run_modelStore s), hs, Option.getD_some, run_addModel]

theorem Kept.lt_size_of_slot (hK : w.Kept Seen own) {s a j : Nat} {ms : ModelStore}
    (hs : w.modelStores[s]? = some ms) (hj : ms.memo[a]? = some (some j)) : j < w.models.size := by
  obtain ⟨m, hm, -⟩ := (hK.windows s ms hs).fills a j hj
  exact (Array.getElem?_eq_some_iff.mp hm).1

/-- Adding a model that is evicted and memoizes nothing keeps the invariant. -/
theorem Kept.addParked (hK : w.Kept Seen own) {m : Model} (hev : m.evicted = true)
    (hn : m.expression.named = false) : Kept Seen own { w with models := w.models.push m } := by
  have hpush : ∀ (s : Nat) (ms : ModelStore) (a j : Nat), w.modelStores[s]? = some ms →
      ms.memo[a]? = some (some j) → (w.models.push m)[j]? = w.models[j]? := fun s ms a j hs hj => by
    rw [Array.getElem?_push, if_neg (Nat.ne_of_lt (hK.lt_size_of_slot hs hj))]
  refine ⟨?_, hK.memory, fun s ms hs => (hK.windows s ms hs).congr fun a j hj => hpush s ms a j hs hj,
    hK.once, fun j m' hm' hnw => ?_⟩
  · rw [memos_push (by simp [Model.memo, hn])]
    exact hK.exact
  · rw [Array.getElem?_push] at hm'
    split at hm'
    · cases hm'
      exact ⟨hev, hn⟩
    · exact hK.parked j m' hm' hnw

/-- Memoizing a new model in an empty slot of a window, as the model of the slot's record, keeps
the invariant. -/
theorem Kept.fill (hK : w.Kept Seen own) {s a : Nat} {ms : ModelStore}
    (hs : w.modelStores[s]? = some ms) (ha : ms.memo[a]? = some none) {m : Model}
    (hm : m.Fills Seen ms (ms.first.toInt + a).toNat) (hn : m.expression.named = false) :
    Kept Seen own { w with
      models := w.models.push m
      modelStores := w.modelStores.setIfInBounds s
        { ms with memo := ms.memo.setIfInBounds a (some w.models.size) } } := by
  have hget := getElem?_setIfInBounds_of hs
    { ms with memo := ms.memo.setIfInBounds a (some w.models.size) }
  have hpush : ∀ (t : Nat) (mt : ModelStore) (b j : Nat), w.modelStores[t]? = some mt →
      mt.memo[b]? = some (some j) → (w.models.push m)[j]? = w.models[j]? := fun t mt b j ht hj => by
    rw [Array.getElem?_push, if_neg (Nat.ne_of_lt (hK.lt_size_of_slot ht hj))]
  have hslot : ∀ b j : Nat, (ms.memo.setIfInBounds a (some w.models.size))[b]? = some (some j) →
      (b = a ∧ j = w.models.size) ∨ ms.memo[b]? = some (some j) := fun b j hb => by
    rw [Array.getElem?_setIfInBounds] at hb
    split at hb
    · split at hb
      · cases hb
        exact .inl ⟨by simp_all, rfl⟩
      · cases hb
    · exact .inr hb
  -- the new model sits in no old window
  have hnew : ∀ (t : Nat) (mt : ModelStore) (b : Nat), w.modelStores[t]? = some mt →
      mt.memo[b]? ≠ some (some w.models.size) :=
    fun t mt b ht hb => Nat.lt_irrefl _ (hK.lt_size_of_slot ht hb)
  refine ⟨?_, hK.memory, fun t mt ht => ?_, ?_, fun j m' hm' hnw => ?_⟩
  · rw [memos_push (by simp [Model.memo, hn])]
    exact hK.exact
  · rw [hget] at ht
    split at ht
    · cases ht
      have hW := hK.windows s ms hs
      refine ⟨hW.first_nonneg, by simpa using hW.size_pos, by simpa using hW.size_le,
        fun b j hb => ?_⟩
      rcases hslot b j hb with ⟨rfl, rfl⟩ | hb'
      · exact ⟨m, by simp, hm.congr rfl rfl rfl rfl⟩
      · obtain ⟨m'', hm'', hf⟩ := hW.fills b j hb'
        exact ⟨m'', by rw [hpush s ms b j hs hb']; exact hm'', hf.congr rfl rfl rfl rfl⟩
    · exact (hK.windows t mt ht).congr fun b j hj => hpush t mt b j ht hj
  · -- the new model fills one slot, and an old one stays where it was
    refine once_setIfInBounds hs hK.once _ (fun b b' j hb hb' => ?_)
      (fun t mt b b' j hts ht hb hb' => ?_)
    · rcases hslot b j hb with ⟨hba, hjn⟩ | hb₀ <;>
        rcases hslot b' j hb' with ⟨hba', hjn'⟩ | hb₀'
      · exact hba.trans hba'.symm
      · exact absurd (hjn ▸ hb₀') (hnew s ms b' hs)
      · exact absurd (hjn' ▸ hb₀) (hnew s ms b hs)
      · exact (hK.once s s ms ms b b' j hs hs hb₀ hb₀').2
    · rcases hslot b j hb with ⟨-, hjn⟩ | hb₀
      · exact hnew t mt b' ht (hjn ▸ hb')
      · exact hts (hK.once t s mt ms b' b j ht hs hb' hb₀).1
  · rw [Array.getElem?_push] at hm'
    split at hm'
    · -- the new model sits in the filled slot
      rename_i hj
      subst hj
      exact absurd ⟨s, _, a, by rw [hget, if_pos rfl], by
        simp [(Array.getElem?_eq_some_iff.mp ha).1]⟩ hnw
    · refine hK.parked j m' hm' fun hw => hnw ?_
      obtain ⟨t, mt, b, ht, hb⟩ := hw
      refine ⟨t, ?_⟩
      by_cases hts : t = s
      · subst hts
        rw [hs] at ht
        cases ht
        refine ⟨_, b, by rw [hget, if_pos rfl], ?_⟩
        rw [Array.getElem?_setIfInBounds, if_neg]
        · exact hb
        · rintro rfl
          rw [ha] at hb
          cases hb
      · exact ⟨mt, b, by rw [hget, if_neg hts]; exact ht, hb⟩

/-- Recording a new checksum for an empty window keeps the invariant. -/
theorem Kept.setChecksum (hK : w.Kept Seen own) {s : Nat} {ms : ModelStore}
    (hs : w.modelStores[s]? = some ms) (hempty : ∀ a j : Nat, ms.memo[a]? ≠ some (some j))
    (cs : UInt64) :
    Kept Seen own { w with modelStores := w.modelStores.setIfInBounds s { ms with checksum := cs } } := by
  have hW := hK.windows s ms hs
  exact hK.rewindow hs _ (Evicts.refl w.models) hK.exact
    ⟨hW.first_nonneg, hW.size_pos, hW.size_le, fun a j hj => absurd hj (hempty a j)⟩
    (fun a j hj => absurd hj (hempty a j)) (fun a _ j hj => absurd hj (hempty a j))
    (fun a j hj => absurd hj (hempty a j)) (fun _ hj => hj.elim)

/-! ### Reading a model through its window -/

/-- Refreshing a window reads the store's checksum: when it changed, the window is emptied, each of
its models evicted once, and the new checksum recorded. A missing record store stops the call. -/
theorem Kept.refresh (hK : w.Kept Seen own) {s : Nat} {ms : ModelStore}
    (hs : w.modelStores[s]? = some ms) :
    Ends (Workspace.refresh s) w
      (fun _ w' => w'.Kept Seen own ∧ w'.stores = w.stores ∧ ∃ b, w.stores[ms.store]? = some b ∧
        ∃ memo : Array (Option Nat), w'.modelStores[s]? =
            some { ms with memo := memo, checksum := Store.checksumOf b.entries } ∧
          memo.size = ms.memo.size ∧ (memo = ms.memo ∨ ∀ a j : Nat, memo[a]? ≠ some (some j)))
      (fun w' => w'.Kept Seen own ∧ w'.stores = w.stores ∧ w.stores[ms.store]? = none) := by
  unfold Workspace.refresh
  rw [ends_bind_run (run_modelStore s), hs, Option.getD_some]
  cases hb : w.stores[ms.store]? with
  | none => exact ends_of_error (run_bind_of_error (run_onStore_none hb _)) ⟨hK, rfl, rfl⟩
  | some b =>
    rw [ends_bind_run (run_onStore_read hb (Store.run_checksum (hK.memory _ _ hb)))]
    by_cases hne : Store.checksumOf b.entries ≠ ms.checksum
    · -- the store changed: empty the window, then record the checksum
      rw [if_pos hne]
      obtain ⟨h', models', hrun, hK'⟩ := hK.invalidate hs
      have hs' := getElem?_setIfInBounds_of hs
        { ms with memo := Array.replicate ms.memo.size none } s
      rw [if_pos rfl] at hs'
      have hempty : ∀ a j : Nat, (Array.replicate ms.memo.size (none : Option Nat))[a]? ≠
          some (some j) := fun a j => by simp [Array.getElem?_replicate]
      rw [ends_bind_run hrun, ends_bind_run (run_modelStore s)]
      simp only [hs', Option.getD_some]
      rw [ends_iff_of_ok (run_setModelStore s _)]
      refine ⟨?_, rfl, b, rfl, _, ?_, by simp, .inr hempty⟩
      · have := hK'.setChecksum hs' hempty (Store.checksumOf b.entries)
        simpa [Array.setIfInBounds_setIfInBounds] using this
      · simp [Array.setIfInBounds_setIfInBounds, getElem?_setIfInBounds_of hs]
    · -- the store is as the window was filled from: nothing changes
      rw [if_neg hne]
      refine ends_of_ok rfl ⟨hK, rfl, b, rfl, ms.memo, ?_, rfl, .inl rfl⟩
      rw [hs, not_not.mp hne]

theorem Record.eq_null_of_isNull {r : Record} (h : r.isNull = true) : r = Record.null := by
  simp only [Record.isNull, Bool.and_eq_true, beq_iff_eq] at h
  cases r
  simp_all [Record.null]

theorem eq_some_of_getD {β : Type} {o : Option β} {d x : β} (h : o.getD d = x) (hx : x ≠ d) :
    o = some x := by
  cases o with
  | none => exact absurd h.symm hx
  | some y => rw [← h]; rfl

/-- Reading record `i ≥ 0` through a window that holds it, filled under the store's present
checksum: a memoized model is returned as it is; an empty slot gets a new model of the record,
or a new null model when there is no such record. -/
theorem Kept.lookup (hK : w.Kept Seen own) (hseen : ∀ k b, w.stores[k]? = some b → Seen k b)
    {s : Nat} {ms : ModelStore} (hs : w.modelStores[s]? = some ms) {b : Backend}
    (hb : w.stores[ms.store]? = some b) (hcs : ms.checksum = Store.checksumOf b.entries)
    {i : Int} (hi0 : 0 ≤ i) (hi : i < 2 ^ 63)
    (hwin : ms.first.toInt ≤ i ∧ i < ms.first.toInt + ms.memo.size) :
    ∃ j w', (Workspace.lookup s i).run w = .ok j w' ∧ w'.Kept Seen own ∧ w'.stores = w.stores ∧
      (∃ ms', w'.modelStores[s]? = some ms' ∧ ms'.store = ms.store ∧ ms'.extension = ms.extension) ∧
      ∃ m, w'.models[j]? = some m ∧ m.store = ms.store ∧ m.pool = ms.pool ∧
        m.Answers Seen ms b i := by
  have hW := hK.windows s ms hs
  have hslot : (i.toInt64 - ms.first).toInt = i - ms.first.toInt :=
    Window.toInt_sub_of_le hW.first_nonneg (by rw [Window.toInt_intCast hi0 hi]; omega) |>.trans
      (by rw [Window.toInt_intCast hi0 hi])
  have ha : (i - ms.first.toInt).toNat < ms.memo.size := by omega
  have hidx : (ms.first.toInt + ((i - ms.first.toInt).toNat : Nat)).toNat = i.toNat := by omega
  obtain ⟨x, hx⟩ : ∃ x, ms.memo[(i - ms.first.toInt).toNat]? = some x := ⟨_, Array.getElem?_eq_getElem ha⟩
  unfold Workspace.lookup
  rw [run_bind_of_ok (run_modelStore s), hs, Option.getD_some]
  simp only [hslot, if_neg (show ¬ (i - ms.first.toInt < 0) by omega)]
  rw [hx]
  cases x with
  | some j =>
    -- the memoized model: filled from contents with the present checksum
    obtain ⟨m, hm, hfill⟩ := hW.fills _ j hx
    obtain ⟨b', hseen', hcs', hlist⟩ := hfill.listed
    rw [hidx] at hlist
    exact ⟨j, w, rfl, hK, rfl, ⟨ms, hs, rfl, rfl⟩, m, hm, hfill.store, hfill.pool,
      .inr ⟨hi0, b', hseen', hcs'.trans hcs, hlist⟩⟩
  | none =>
    have hfound := run_onStore_read hb (Store.run_atIndex (hK.memory _ _ hb) ms.extension i)
    simp only [if_neg (show ¬ i < 0 by omega)] at hfound
    rw [run_bind_of_ok hfound]
    by_cases hnull : (((Store.listed b ms.extension)[i.toNat]?).getD Record.null).isNull = true
    · -- no record there: a new null model
      rw [if_pos hnull, run_nullModel hs]
      refine ⟨_, _, rfl, hK.addParked rfl Handle.named_zero, rfl, ⟨ms, hs, rfl, rfl⟩,
        ⟨Record.null, ms.store, ms.pool, Handle.zero, true⟩, by simp, rfl, rfl, .inl ?_⟩
      rw [if_neg (show ¬ i < 0 by omega), Record.eq_null_of_isNull hnull]
    · -- a new model of the record, memoized in the slot
      rw [if_neg hnull, run_bind_of_ok (run_addModel _), run_bind_of_ok (run_modelStore s)]
      simp only [hs, Option.getD_some]
      rw [run_bind_of_ok (run_setModelStore s _)]
      have hne : ((Store.listed b ms.extension)[i.toNat]?).getD Record.null ≠ Record.null :=
        fun h => hnull (by rw [h]; rfl)
      refine ⟨_, _, rfl, hK.fill hs hx ⟨rfl, rfl, rfl, b, hseen _ _ hb, hcs.symm, ?_⟩
        Handle.named_zero, rfl,
        ⟨{ ms with memo := ms.memo.setIfInBounds (i - ms.first.toInt).toNat (some w.models.size) },
          by rw [getElem?_setIfInBounds_of hs, if_pos rfl], rfl, rfl⟩,
        ⟨((Store.listed b ms.extension)[i.toNat]?).getD Record.null, ms.store,
          ms.pool, Handle.zero, false⟩, by simp, rfl, rfl,
          .inl (by rw [if_neg (show ¬ i < 0 by omega)])⟩
      rw [hidx]
      exact eq_some_of_getD rfl hne

/-- Reading record `i < 2 ^ 63` of a model store keeps the invariant, and the model returned answers
for the record in the store's present contents. -/
theorem Kept.modelAt (hK : w.Kept Seen own) (hseen : ∀ k b, w.stores[k]? = some b → Seen k b)
    {s : Nat} {ms : ModelStore} (hs : w.modelStores[s]? = some ms) {i : Int} (hi : i < 2 ^ 63) :
    Ends (Workspace.modelAt s i) w
      (fun j w' => w'.Kept Seen own ∧ w'.stores = w.stores ∧
        (∃ ms', w'.modelStores[s]? = some ms' ∧ ms'.store = ms.store ∧
          ms'.extension = ms.extension) ∧
        ∃ m, w'.models[j]? = some m ∧ m.store = ms.store ∧ m.pool = ms.pool ∧
          ∀ b, w.stores[ms.store]? = some b → m.Answers Seen ms b i)
      (fun w' => w'.Kept Seen own ∧ w'.stores = w.stores ∧ w.stores[ms.store]? = none) := by
  unfold Workspace.modelAt
  by_cases hneg : i < 0
  · -- a negative index: a new null model
    rw [if_pos hneg, ends_iff_of_ok (run_nullModel hs)]
    refine ⟨hK.addParked rfl Handle.named_zero, rfl, ⟨ms, hs, rfl, rfl⟩,
      ⟨Record.null, ms.store, ms.pool, Handle.zero, true⟩, by simp, rfl, rfl, fun b _ => .inl ?_⟩
    rw [if_pos hneg]
  · rw [if_neg hneg]
    have hi0 : 0 ≤ i := by omega
    obtain ⟨w₁, hrun₁, hK₁, hst₁, ms₁, hs₁, hms₁, hsize₁, hlo, hhi⟩ :=
      hK.slide hs (i := i.toInt64) (by rw [Window.toInt_intCast hi0 hi]; exact hi0)
    rw [Window.toInt_intCast hi0 hi] at hlo hhi
    rw [ends_bind_run hrun₁]
    refine ((hK₁.refresh hs₁).mono (fun _ _ h => h) fun _ h =>
      ⟨h.1, h.2.1.trans hst₁, by rw [← hst₁, ← h.2.2, hms₁]⟩).bind
      fun _ w₂ h₂ => ?_
    obtain ⟨hK₂, hst₂, b, hb, memo, hs₂, hsize₂, -⟩ := h₂
    have hb₀ : w.stores[ms.store]? = some b := by
      rw [← hst₁, ← hb, hms₁]
    obtain ⟨j, w₃, hrun₃, hK₃, hst₃, ⟨ms₃, hs₃, hstore₃, hext₃⟩, m, hm, hmst, hmpool, hans⟩ :=
      hK₂.lookup (fun k b' h => hseen k b'
        (by rw [← hst₁, ← hst₂]; exact h)) hs₂ (by rw [hst₂, hb]) rfl hi0 hi
      ⟨hlo, by simp only [hsize₂]; omega⟩
    refine ends_of_ok hrun₃ ⟨hK₃, by rw [hst₃, hst₂, hst₁],
      ⟨ms₃, hs₃, by rw [hstore₃, hms₁], by rw [hext₃, hms₁]⟩, m, hm, by rw [hmst, hms₁],
      by rw [hmpool, hms₁], fun b' hb' => ?_⟩
    rw [hb₀] at hb'
    cases hb'
    rw [hms₁] at hans
    exact hans

/-! ### Reading and storing a model's tree -/

theorem Heap.gain_append (h : Heap) (r : Handle) (own L : List Handle) :
    Heap.gain h r own ++ L = Heap.gain h r (own ++ L) := by
  unfold Heap.gain
  split <;> rfl

/-- A store's value read on an open in-memory backend leaves it as it was. -/
theorem Store.run_value_keeps {b : Backend} (hb : b.Memory) (r : Record) :
    (∃ v, (Store.value r).run b = .ok v b) ∨ ∃ e, (Store.value r).run b = .error e b := by
  cases hr : r.isValid
  · exact .inr ⟨_, (Store.run_of_invalid hr []).2.1⟩
  · rw [Store.run_value hb hr]
    split
    · exact .inl ⟨_, rfl⟩
    · exact .inr ⟨_, rfl⟩

theorem Kept.run_tryStore_value (hK : w.Kept Seen own) (k : Nat) (r : Record) :
    ∃ x, (tryStore k (Store.value r)).run w = .ok x w := by
  cases hk : w.stores[k]? with
  | none => exact ⟨.error .closed, by simp only [tryStore, EStateM.run, hk]⟩
  | some b =>
    rw [run_tryStore hk]
    rcases Store.run_value_keeps (hK.memory k b hk) r with ⟨v, hv⟩ | ⟨e, he⟩
    · refine ⟨.ok v, ?_⟩
      rw [hv]
      show EStateM.Result.ok (Except.ok v) { w with stores := w.stores.setIfInBounds k b } = _
      rw [Array.setIfInBounds_of_getElem? hk]
    · refine ⟨.error e, ?_⟩
      rw [he]
      show EStateM.Result.ok (Except.error e) { w with stores := w.stores.setIfInBounds k b } = _
      rw [Array.setIfInBounds_of_getElem? hk]

theorem Kept.withHeap (hK : w.Kept Seen own) {own' : List Handle} {h' : Heap}
    (hE : h'.Exact (own' ++ memos w.models)) : Kept Seen own' { w with heap := h' } :=
  ⟨hE, hK.memory, hK.windows, hK.once, hK.parked⟩

/-- Giving a model a new expression keeps the invariant when the expression names a node only for
a model that is not evicted, and the heap accounts for the trees memoized then. -/
theorem Kept.setModelExpression (hK : w.Kept Seen own) {j : Nat} {m : Model}
    (hj : w.models[j]? = some m) (e : Handle) (he : e.named = true → m.evicted = false)
    {own' : List Handle} {h' : Heap}
    (hE : h'.Exact (own' ++ memos (w.models.setIfInBounds j { m with expression := e }))) :
    Kept Seen own' { w with heap := h', models := w.models.setIfInBounds j { m with expression := e } } := by
  have hget := getElem?_setIfInBounds_of hj { m with expression := e }
  refine ⟨hE, hK.memory, fun s ms hs => ?_, hK.once, fun x mx hx hnw => ?_⟩
  · have hW := hK.windows s ms hs
    refine ⟨hW.first_nonneg, hW.size_pos, hW.size_le, fun a x hx => ?_⟩
    obtain ⟨mx, hmx, hf⟩ := hW.fills a x hx
    rw [hget]
    split
    · rename_i hxj
      subst hxj
      rw [hj] at hmx
      cases hmx
      exact ⟨_, rfl, hf.live, hf.store, hf.pool, hf.listed⟩
    · exact ⟨mx, hmx, hf⟩
  · rw [hget] at hx
    split at hx
    · rename_i hxj
      subst hxj
      cases hx
      obtain ⟨hev, -⟩ := hK.parked x m hj hnw
      refine ⟨hev, ?_⟩
      cases hn : e.named
      · rfl
      · rw [he hn] at hev
        cases hev
    · exact hK.parked x mx hx hnw

/-- Reading model `j`'s tree hands the caller the reference returned, owned when it names a node
other than a failure: a copy of the memoized tree, or a tree read from the record's value, which a
model that is not evicted memoizes with a unit of its own. Nothing else changes. -/
theorem Kept.expression (hK : w.Kept Seen own) {j : Nat} {m : Model} (hj : w.models[j]? = some m) :
    Ends (Workspace.expression j) w
      (fun res w' => w'.Kept Seen (Heap.gain w'.heap res.1 own) ∧
        (res.2.isSome = true → w'.heap.owns res.1 = false) ∧ w'.stores = w.stores ∧
        w'.modelStores = w.modelStores)
      (fun w' => w'.Kept Seen own ∧ w'.stores = w.stores ∧ w'.modelStores = w.modelStores) := by
  have hE := hK.exact
  -- a handle naming no node leaves the caller as it was
  have hundef : ∀ (x : Option StoreError), Ends (pure (Handle.undefinedIn m.pool, x)) w
      (fun res w' => w'.Kept Seen (Heap.gain w'.heap res.1 own) ∧
        (res.2.isSome = true → w'.heap.owns res.1 = false) ∧ w'.stores = w.stores ∧
        w'.modelStores = w.modelStores)
      (fun w' => w'.Kept Seen own ∧ w'.stores = w.stores ∧ w'.modelStores = w.modelStores) :=
    fun x => by
      show Kept Seen (Heap.gain w.heap (Handle.undefinedIn m.pool) own) w ∧ _
      rw [Heap.gain, Heap.owns_undefinedIn]
      exact ⟨hK, fun _ => rfl, rfl, rfl⟩
  unfold Workspace.expression
  rw [ends_bind_run (run_model j), hj, Option.getD_some, ends_bind_run run_get]
  by_cases hd : w.heap.isDefined m.expression = true
  · -- the memoized tree: one unit more for the caller
    rw [if_pos hd]
    refine (ends_heapOp (hE.copy m.expression) ⟨hK, rfl, rfl⟩).bind fun c w' hc => ?_
    obtain ⟨h', rfl, hE', -, -⟩ := hc
    refine ⟨hK.withHeap ?_, by simp, rfl, rfl⟩
    rwa [Heap.gain_append]
  rw [if_neg hd]
  dsimp only
  by_cases hnull : m.record.isNull = true
  · rw [if_pos hnull]
    exact hundef none
  rw [if_neg hnull]
  obtain ⟨x, hx⟩ := hK.run_tryStore_value m.store m.record
  rw [ends_bind_run hx]
  rcases x with e | _ | ⟨byte, bytes⟩
  · exact hundef _
  · exact hundef none
  -- decoding the value: a fault changes nothing
  refine (ends_heapOp (hE.decodeInto m.pool (byte :: bytes)) ⟨hK, rfl, rfl⟩).bind fun res w₁ hres => ?_
  obtain ⟨h₁, rfl, hE₁, hfresh⟩ := hres
  rcases res with e | r
  · refine ⟨hK.withHeap ?_, fun _ => Heap.owns_undefinedIn _, rfl, rfl⟩
    rw [Heap.gain, Heap.owns_undefinedIn]
    exact hE₁
  have hE₁ : h₁.Exact (Heap.gain h₁ r (own ++ memos w.models)) := hE₁
  obtain ⟨hhome, hunits⟩ := hfresh r rfl
  rw [ends_bind_run run_get]
  dsimp only
  by_cases hkeep : h₁.isFailure r = true ∨ m.evicted = true
  · -- a failure or an evicted model: the caller alone holds the tree
    rw [if_pos hkeep]
    exact ⟨hK.withHeap (by rwa [Heap.gain_append]), by simp, rfl, rfl⟩
  rw [if_neg hkeep]
  obtain ⟨hnf, hev⟩ : h₁.isFailure r = false ∧ m.evicted = false := by
    simpa using hkeep
  -- the model had memoized nothing: its expression named no live node
  have hmemo : m.memo = none := by
    cases hn : m.expression.named
    · simp [Model.memo, hn]
    · exact absurd (hE.isDefined_of_memo hj (by simp [Model.memo, hn])) hd
  cases hown : h₁.owns r with
  | false =>
    -- a handle that owns nothing here names no node, so the model memoizes nothing
    have hnd : h₁.isDefined r = false := by
      cases hdr : h₁.isDefined r
      · rfl
      · have := (hE₁.isFailure_of_owns_false hdr hown)
        rw [hnf] at this
        cases this
    have hE₁' : h₁.Exact (own ++ memos w.models) := by
      simpa [Heap.gain, hown] using hE₁
    rw [ends_bind_run (run_heapOp_ok (Heap.run_copy_undefined hnd)), ends_bind_run (run_model j)]
    simp only [hj, Option.getD_some]
    rw [ends_bind_run (run_setModel j _)]
    refine ends_pure ⟨?_, by simp, rfl, rfl⟩
    rw [show Heap.gain h₁ r own = own by simp [Heap.gain, hown]]
    exact hK.setModelExpression hj _ (by simp) (hE₁'.perm
      ((memos_set_perm_of_none hj hmemo (by simp [Model.memo])).append_left own))
  | true =>
    -- the new root: one unit for the caller and one for the model
    have hL : Heap.units (r :: (own ++ memos w.models)) m.pool r.slot = 1 := by
      rw [Heap.units_cons, hunits hown]
      simp [hhome]
    rw [Heap.gain, hown, if_pos rfl] at hE₁
    have hdr : h₁.isDefined r = true := by
      obtain ⟨k, p, i, hf, -⟩ := Heap.owns_iff.mp hown
      exact Heap.isDefined_iff_finds.mpr ⟨k, p, i, hf⟩
    obtain ⟨c, h₂, hrun, hc⟩ := hE₁.copy_returns fun k hk => by
      rw [hhome] at hk
      cases hk
      rw [hL]
      decide
    obtain rfl := hc hdr
    have hcopy := hE₁.copy c
    unfold Heap.Guarded at hcopy
    rw [hrun] at hcopy
    obtain ⟨hE₂, howns, -⟩ := hcopy
    have hown₂ : h₂.owns c = true := (howns c).trans hown
    rw [Heap.gain, hown₂, if_pos rfl] at hE₂
    rw [ends_bind_run (run_heapOp_ok hrun), ends_bind_run (run_model j)]
    simp only [hj, Option.getD_some]
    rw [ends_bind_run (run_setModel j _)]
    refine ends_pure ⟨?_, by simp, rfl, rfl⟩
    simp only [Heap.gain, hown₂, if_true]
    have hnamed : c.named = true := Heap.named_of_isDefined hdr
    have hp : (memos (w.models.setIfInBounds j { m with expression := c })).Perm
        (c :: memos w.models) := by
      have := memos_set_perm hj { m with expression := c }
      rw [hmemo] at this
      simpa [Model.memo, hnamed] using this
    refine hK.setModelExpression hj c (fun _ => hev) (hE₂.perm ?_)
    -- the caller's unit and the model's
    exact ((hp.append_left own).cons c).trans (List.perm_middle.cons c)

/-! ### Writing records and trees -/

theorem Kept.withStores (hK : w.Kept Seen own) {stores : Array Backend}
    (hm : ∀ (k : Nat) (b : Backend), stores[k]? = some b → b.Memory) : Kept Seen own { w with stores := stores } :=
  ⟨hK.exact, hm, hK.windows, hK.once, hK.parked⟩

/-- A write to a record store keeps the invariant whether it succeeds or not: the window keeps
the checksum it was filled under, and the next read through it compares the two. -/
theorem Kept.write (hK : w.Kept Seen own) (k : Nat) (wr : StoreWrite) :
    Ends (onStore k wr.run) w (fun _ w' => w'.Kept Seen own ∧ w'.modelStores = w.modelStores)
      (fun w' => w'.Kept Seen own ∧ w'.modelStores = w.modelStores) := by
  cases hk : w.stores[k]? with
  | none => exact ends_of_error (run_onStore_none hk _) ⟨hK, rfl⟩
  | some b =>
    -- whatever the write leaves is an in-memory backend again
    have hK' : ∀ b', Backend.after wr.run b = b' →
        Kept Seen own { w with stores := w.stores.setIfInBounds k b' } := fun b' hb' =>
      hK.withStores fun k' b'' h => by
        rw [getElem?_setIfInBounds_of hk] at h
        split at h
        · cases h
          rw [← hb']
          exact ((hK.memory k b hk).after_run wr).1
        · exact hK.memory k' b'' h
    cases hrun : wr.run.run b with
    | ok a b' =>
      exact ends_of_ok (run_onStore_ok hk hrun) ⟨hK' b' (by simp [Backend.after, hrun]), rfl⟩
    | error e b' =>
      exact ends_of_error (run_onStore_error hk hrun) ⟨hK' b' (by simp [Backend.after, hrun]), rfl⟩

theorem ends_exportInto {E : Workspace → Prop} (target k i : Nat) (hE : E w) :
    Ends (exportInto target k i) w (fun _ w' => w' = w) E := by
  unfold exportInto
  split
  · exact (ends_heapOp_reads (Heap.reads_readPool target _) hE).mono (fun _ _ h => h.1) fun _ h => h
  · refine (ends_heapOp_reads (Heap.reads_readPool k _) hE).bind fun off w₁ h₁ => ?_
    obtain ⟨rfl, -⟩ := h₁
    refine (ends_heapOp_reads (Heap.reads_readPool target _) hE).bind fun buf w₂ h₂ => ?_
    obtain ⟨rfl, -⟩ := h₂
    split
    · exact ends_pure rfl
    · exact ends_throw hE

/-- Giving back a model's memoized tree keeps the invariant: the unit goes back to the pool and
the model no longer names the tree. -/
theorem Kept.tidy (hK : w.Kept Seen own) (j : Nat) :
    ∃ w', (Workspace.tidy j).run w = .ok () w' ∧ w'.Kept Seen own ∧ w'.stores = w.stores ∧
      w'.modelStores = w.modelStores := by
  have hE := hK.exact
  cases hj : w.models[j]? with
  | none => exact ⟨w, run_tidy_undefined (m := default) (by simp [hj]) rfl, hK, rfl, rfl⟩
  | some m =>
    by_cases hd : w.heap.isDefined m.expression = true
    · have hmemo : m.memo = some m.expression := by
        simp [Model.memo, Heap.named_of_isDefined hd]
      have hmem : m.expression ∈ own ++ memos w.models := by
        refine List.mem_append_right _ (List.mem_filterMap.mpr ⟨m, ?_, hmemo⟩)
        exact Array.mem_toList_iff.mpr (Array.mem_of_getElem? hj)
      obtain ⟨c, h₁, hrun, rfl, hE₁, -⟩ := hE.release fun _ => hmem
      have hnone : ({ m with expression := m.expression.cleared } : Model).memo = none := by
        simp [Model.memo, Handle.named_cleared]
      refine ⟨_, run_tidy_defined hj hd hrun, ?_, rfl, rfl⟩
      exact hK.setModelExpression hj _ (by simp [Handle.named_cleared])
        (hE₁.perm (memos_evict_perm hj hmemo hnone))
    · exact ⟨w, run_tidy_undefined (m := m) (by simp [hj]) (by simpa using hd), hK, rfl, rfl⟩

theorem ends_tidy (hK : w.Kept Seen own) (j : Nat) :
    Ends (Workspace.tidy j) w (fun _ w' => w'.Kept Seen own) (fun w' => w'.Kept Seen own) := by
  obtain ⟨w', hrun, hK', -⟩ := hK.tidy j
  exact ends_of_ok hrun hK'

/-- Storing a tree as a model's value keeps the invariant, whether it succeeds or not: the tree
is only read, and the model's memoized tree, now out of date, is given back. -/
theorem Kept.setExpression (hK : w.Kept Seen own) (j : Nat) (r : Handle) :
    Ends (Workspace.setExpression j r) w (fun _ w' => w'.Kept Seen own)
      (fun w' => w'.Kept Seen own) := by
  unfold Workspace.setExpression
  rw [ends_bind_run (run_model j)]
  split
  · exact ends_throw hK
  rw [ends_bind_run run_get]
  split
  · exact ends_throw hK
  refine (ends_heapOp_reads (Heap.reads_locate r) hK).bind fun i w₁ h₁ => ?_
  obtain ⟨rfl, -⟩ := h₁
  refine (ends_exportInto _ _ i hK).bind fun bytes w₂ h₂ => ?_
  subst h₂
  refine ((hK.write _ (.put _ bytes)).mono (fun _ w' h => h.1) fun _ h => h.1).bind
    fun _ w₃ h₃ => ends_tidy h₃ j

/-! ### Counting and searching defined models -/

/-- Model store `s` is still over `ms`'s record store and extension. -/
def Lists (w : Workspace) (s : Nat) (ms : ModelStore) : Prop :=
  ∃ ms', w.modelStores[s]? = some ms' ∧ ms'.store = ms.store ∧ ms'.extension = ms.extension

theorem Kept.run_isDefined (hK : w.Kept Seen own) (j : Nat) : ∃ d, (isDefined j).run w = .ok d w := by
  unfold isDefined
  rw [run_bind_of_ok (run_model j)]
  split
  · exact ⟨false, rfl⟩
  obtain ⟨x, hx⟩ := hK.run_tryStore_value ((w.models[j]?).getD default).store
    ((w.models[j]?).getD default).record
  rw [run_bind_of_ok hx]
  cases x
  · exact ⟨false, rfl⟩
  · exact ⟨_, rfl⟩

/-- A new null model of a model store keeps the invariant: it is evicted from the start. -/
theorem Kept.nullModel (hK : w.Kept Seen own) {s : Nat} {ms : ModelStore}
    (hs : w.modelStores[s]? = some ms) :
    ∃ w', (Workspace.nullModel s).run w = .ok w.models.size w' ∧ w'.Kept Seen own ∧
      w'.stores = w.stores ∧ w'.modelStores = w.modelStores :=
  ⟨_, run_nullModel hs, hK.addParked rfl Handle.named_zero, rfl, rfl⟩

theorem Kept.run_modelCount (hK : w.Kept Seen own) {s : Nat} {ms : ModelStore}
    (hs : w.modelStores[s]? = some ms) {b : Backend} (hb : w.stores[ms.store]? = some b) :
    (modelCount s).run w = .ok (Store.listed b ms.extension).length w := by
  unfold modelCount
  rw [run_bind_of_ok (run_modelStore s), hs, Option.getD_some]
  exact run_onStore_read hb (Store.run_countWithExtension (hK.memory _ b hb) _)

theorem run_modelCount_none {s : Nat} {ms : ModelStore} (hs : w.modelStores[s]? = some ms)
    (hb : w.stores[ms.store]? = none) : (modelCount s).run w = .error (.store .closed) w := by
  unfold modelCount
  rw [run_bind_of_ok (run_modelStore s), hs, Option.getD_some]
  exact run_onStore_none hb _

/-- Counting the defined models among models `j` to `j + n - 1` keeps the invariant. -/
theorem Kept.countDefinedFrom {s : Nat} {ms : ModelStore} :
    ∀ (n j : Nat) {w : Workspace}, w.Kept Seen own → (∀ k b, w.stores[k]? = some b → Seen k b) →
      w.Lists s ms → j + n ≤ 2 ^ 63 →
      Ends (Workspace.countDefinedFrom s j n) w
        (fun _ w' => w'.Kept Seen own ∧ w'.stores = w.stores ∧ w'.Lists s ms)
        (fun w' => w'.Kept Seen own ∧ w'.stores = w.stores)
  | 0, _, _, hK, _, hL, _ => ends_pure ⟨hK, rfl, hL⟩
  | n + 1, j, w, hK, hseen, ⟨ms₀, hs₀, hst₀, hext₀⟩, hjn => by
    unfold Workspace.countDefinedFrom
    refine ((hK.modelAt hseen hs₀ (i := j) (by omega)).mono (fun _ _ h => h)
      fun _ h => ⟨h.1, h.2.1⟩).bind
      fun m w₁ h₁ => ?_
    obtain ⟨hK₁, hst₁, ⟨ms₁, hs₁, hst₁', hext₁⟩, -⟩ := h₁
    obtain ⟨d, hd⟩ := hK₁.run_isDefined m
    rw [ends_bind_run hd]
    refine ((Kept.countDefinedFrom n (j + 1) hK₁ (fun k b h => hseen k b (hst₁ ▸ h))
      ⟨ms₁, hs₁, hst₁'.trans hst₀, hext₁.trans hext₀⟩ (by omega)).mono (fun _ _ h => h)
        fun _ h => ⟨h.1, h.2.trans hst₁⟩).bind fun c w₂ h₂ => ?_
    exact ends_pure ⟨h₂.1, h₂.2.1.trans hst₁, h₂.2.2⟩

/-- Counting a model store's defined models keeps the invariant, when the store lists fewer than
`2 ^ 63` records. -/
theorem Kept.definedCount (hK : w.Kept Seen own) (hseen : ∀ k b, w.stores[k]? = some b → Seen k b)
    {s : Nat} {ms : ModelStore} (hs : w.modelStores[s]? = some ms)
    (hshort : ∀ b, w.stores[ms.store]? = some b → (Store.listed b ms.extension).length ≤ 2 ^ 63) :
    Ends (Workspace.definedCount s) w (fun _ w' => w'.Kept Seen own) (fun w' => w'.Kept Seen own) := by
  unfold Workspace.definedCount
  cases hb : w.stores[ms.store]? with
  | none => exact ends_of_error (run_bind_of_error (run_modelCount_none hs hb)) hK
  | some b =>
    rw [ends_bind_run (hK.run_modelCount hs hb)]
    exact (Kept.countDefinedFrom _ 0 hK hseen ⟨ms, hs, rfl, rfl⟩ (by simpa using hshort b hb)).mono
      (fun _ _ h => h.1) fun _ h => h.1

/-- Searching for a defined model among models `j` to `j + n - 1` keeps the invariant. -/
theorem Kept.definedFrom {s : Nat} {ms : ModelStore} (i : Int) :
    ∀ (n seen j : Nat) {w : Workspace}, w.Kept Seen own →
      (∀ k b, w.stores[k]? = some b → Seen k b) → w.Lists s ms → j + n ≤ 2 ^ 63 →
      Ends (Workspace.definedFrom s i seen j n) w
        (fun _ w' => w'.Kept Seen own ∧ w'.stores = w.stores ∧ w'.Lists s ms)
        (fun w' => w'.Kept Seen own ∧ w'.stores = w.stores)
  | 0, _, _, _, hK, _, hL, _ => ends_pure ⟨hK, rfl, hL⟩
  | n + 1, seen, j, w, hK, hseen, ⟨ms₀, hs₀, hst₀, hext₀⟩, hjn => by
    unfold Workspace.definedFrom
    refine ((hK.modelAt hseen hs₀ (i := j) (by omega)).mono (fun _ _ h => h)
      fun _ h => ⟨h.1, h.2.1⟩).bind
      fun m w₁ h₁ => ?_
    obtain ⟨hK₁, hst₁, ⟨ms₁, hs₁, hst₁', hext₁⟩, -⟩ := h₁
    have hL₁ : w₁.Lists s ms := ⟨ms₁, hs₁, hst₁'.trans hst₀, hext₁.trans hext₀⟩
    have hseen₁ : ∀ k b, w₁.stores[k]? = some b → Seen k b := fun k b h => hseen k b (hst₁ ▸ h)
    -- the rest of the search, from where this model leaves the workspace
    have hrest : ∀ seen', Ends (Workspace.definedFrom s i seen' (j + 1) n) w₁
        (fun _ w' => w'.Kept Seen own ∧ w'.stores = w.stores ∧ w'.Lists s ms)
        (fun w' => w'.Kept Seen own ∧ w'.stores = w.stores) := fun seen' =>
      (Kept.definedFrom i n seen' (j + 1) hK₁ hseen₁ hL₁ (by omega)).mono
        (fun _ _ h => ⟨h.1, h.2.1.trans hst₁, h.2.2⟩) fun _ h => ⟨h.1, h.2.trans hst₁⟩
    obtain ⟨d, hd⟩ := hK₁.run_isDefined m
    rw [ends_bind_run hd]
    split
    · exact hrest seen
    split
    · exact ends_pure ⟨hK₁, hst₁, hL₁⟩
    · exact hrest (seen + 1)

/-- Picking a model store's `i`-th defined model keeps the invariant, when the store lists fewer
than `2 ^ 63` records. -/
theorem Kept.definedModelAt (hK : w.Kept Seen own)
    (hseen : ∀ k b, w.stores[k]? = some b → Seen k b) {s : Nat} {ms : ModelStore}
    (hs : w.modelStores[s]? = some ms)
    (hshort : ∀ b, w.stores[ms.store]? = some b → (Store.listed b ms.extension).length ≤ 2 ^ 63)
    (i : Int) :
    Ends (Workspace.definedModelAt s i) w (fun _ w' => w'.Kept Seen own)
      (fun w' => w'.Kept Seen own) := by
  unfold Workspace.definedModelAt
  cases hb : w.stores[ms.store]? with
  | none => exact ends_of_error (run_bind_of_error (run_modelCount_none hs hb)) hK
  | some b =>
    rw [ends_bind_run (hK.run_modelCount hs hb)]
    refine ((Kept.definedFrom i _ 0 0 hK hseen ⟨ms, hs, rfl, rfl⟩
      (by simpa using hshort b hb)).mono (fun _ _ h => h) fun _ h => h.1).bind fun res w₁ h₁ => ?_
    obtain ⟨hK₁, -, ms₁, hs₁, -⟩ := h₁
    cases res with
    | some m => exact ends_pure hK₁
    | none =>
      obtain ⟨w₂, hrun, hK₂, -⟩ := hK₁.nullModel hs₁
      exact ends_of_ok hrun hK₂

/-! ### Emptying and closing a model store -/

/-- Deleting a model store's records evicts its window first, and keeps the invariant whether the
deletion succeeds or not; the window is left empty. -/
theorem Kept.removeAll (hK : w.Kept Seen own) {s : Nat} {ms : ModelStore}
    (hs : w.modelStores[s]? = some ms) :
    Ends (Workspace.removeAll s) w
      (fun _ w' => w'.Kept Seen own ∧ w'.modelStores = w.modelStores.setIfInBounds s
        { ms with memo := Array.replicate ms.memo.size none })
      (fun w' => w'.Kept Seen own ∧ w'.modelStores = w.modelStores.setIfInBounds s
        { ms with memo := Array.replicate ms.memo.size none }) := by
  obtain ⟨h', models', hrun, hK'⟩ := hK.invalidate hs
  unfold Workspace.removeAll
  rw [ends_bind_run hrun, ends_bind_run (run_modelStore s)]
  exact hK'.write _ (.destroyWithExtension _)

/-- Closing a model store evicts its window and keeps the invariant; the window is left empty. -/
theorem Kept.closeModels (hK : w.Kept Seen own) {s : Nat} {ms : ModelStore}
    (hs : w.modelStores[s]? = some ms) :
    Ends (Workspace.closeModels s) w
      (fun _ w' => w'.Kept Seen own ∧ w'.modelStores = w.modelStores.setIfInBounds s
        { ms with memo := Array.replicate ms.memo.size none })
      (fun w' => w'.Kept Seen own) := by
  obtain ⟨h', models', hrun, hK'⟩ := hK.invalidate hs
  exact ends_of_ok hrun ⟨hK', rfl⟩

/-! ### Resolving a name -/

theorem positionOf_bounds (name : String) :
    ∀ (rs : List Record) (i n : Nat), positionOf name rs i = some n → i ≤ n ∧ n < i + rs.length
  | [], _, _, h => by simp [positionOf] at h
  | r :: rs, i, n, h => by
    unfold positionOf at h
    split at h
    · cases h
      simp
    · have := positionOf_bounds name rs (i + 1) n h
      simp only [List.length_cons]
      omega

/-- Resolving a name hands the caller the reference returned, owned when it names a node other
than a failure, and keeps the invariant; an error of the record store gives a reference that
names no node. -/
theorem Kept.resolve (hK : w.Kept Seen own) (hseen : ∀ k b, w.stores[k]? = some b → Seen k b)
    {s : Nat} {ms : ModelStore} (hs : w.modelStores[s]? = some ms)
    (hshort : ∀ b, w.stores[ms.store]? = some b → (Store.listed b ms.extension).length ≤ 2 ^ 63)
    (name : String) :
    Ends (Workspace.resolve s name) w (fun res w' => w'.Kept Seen (Heap.gain w'.heap res.1 own))
      (fun w' => w'.Kept Seen own) := by
  -- a reference naming no node leaves the caller as it was
  have hundef : ∀ w' : Workspace, w'.Kept Seen own →
      w'.Kept Seen (Heap.gain w'.heap (Handle.undefinedIn ms.pool) own) :=
    fun w' hK' => by rwa [Heap.gain, Heap.owns_undefinedIn]
  unfold Workspace.resolve
  rw [ends_bind_run (run_modelStore s), hs, Option.getD_some]
  cases hk : w.stores[ms.store]? with
  | none =>
    rw [ends_bind_run (show (tryStore ms.store (Store.withExtension ms.extension)).run w =
      .ok (.error .closed) w by simp only [tryStore, EStateM.run, hk])]
    exact hundef w hK
  | some b =>
    rw [ends_bind_run (run_tryStore_read hk (Store.run_withExtension (hK.memory _ b hk) _))]
    dsimp only
    cases hp : positionOf name (Store.listed b ms.extension) 0 with
    | none => exact hundef w hK
    | some i =>
      dsimp only
      have hi : (i : Int) < 2 ^ 63 := by
        have := (positionOf_bounds name _ 0 i hp).2
        have := hshort b hk
        omega
      -- the model of the record found, if the store can be read: errors of the store are caught
      refine (ends_tryCatch (Q := fun (mo : Option Nat) w₁ => w₁.Kept Seen own ∧
          ∀ j, mo = some j → ∃ m, w₁.models[j]? = some m) (E := fun w₁ => w₁.Kept Seen own)
          ?_ fun e w₁ hK₁ => ?_).bind fun mo w₁ h₁ => ?_
      · refine ((hK.modelAt hseen hs hi).mono (fun _ _ h => h) fun _ h => h.1).bind
          fun j w₁ h₁ => ?_
        obtain ⟨hK₁, -, -, m, hm, -⟩ := h₁
        exact ends_pure ⟨hK₁, fun _ h => by cases h; exact ⟨m, hm⟩⟩
      · cases e with
        | store e => exact ends_pure ⟨hK₁, fun _ h => by cases h⟩
        | fault f => exact ends_throw hK₁
        | crash e => exact ends_throw hK₁
      obtain ⟨hK₁, hmo⟩ := h₁
      cases mo with
      | none => exact hundef w₁ hK₁
      | some j =>
        obtain ⟨m, hm⟩ := hmo j rfl
        refine ((hK₁.expression hm).mono (fun _ _ h => h) fun _ h => h.1).bind fun res w₂ h₂ => ?_
        obtain ⟨hK₂, hown, -⟩ := h₂
        obtain ⟨r, err⟩ := res
        dsimp only
        split
        · rename_i herr
          refine hundef w₂ ?_
          simpa [Heap.gain, hown herr] using hK₂
        · rw [ends_bind_run run_get]
          exact hK₂

end Workspace

end TreeArena