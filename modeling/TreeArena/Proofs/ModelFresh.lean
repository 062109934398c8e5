import TreeArena.Proofs.ModelRuns

/-!
# Fresh records through a model store

A model store's window is filled under the checksum its record store had then, and emptied when
the checksum changes. When distinct contents of a record store have distinct checksums
(`Workspace.Distinct`), the model read through the window at an index is the model of the record
the store lists at that index now (`Kept.modelAt_current`), over every run of calls.

Resolving a name reads the first record of that name in the present listing through the window
and hands back that model's `expression`. The model is the present record's, but its tree is the
one it memoized, if any: a model memoizes the value its record has when the tree is first asked
for, and keeps the tree while it stays in its window. The window is emptied only when the store's
checksum differs from the one it was filled under, so a value written after the window was filled
and read through the model before the store's contents come back to those the window was filled
under is the tree resolving hands back afterwards, although the record's value is again the
earlier one.
-/

namespace TreeArena

namespace Workspace

/-- Distinct contents of a record store that `Seen` admits have distinct checksums. -/
def Distinct (Seen : Nat → Backend → Prop) : Prop :=
  ∀ (k : Nat) (b b' : Backend), Seen k b → Seen k b' →
    Store.checksumOf b.entries = Store.checksumOf b'.entries → b.entries = b'.entries

theorem Store.listed_congr {b b' : Backend} (h : b.entries = b'.entries) (ext : String) :
    Store.listed b ext = Store.listed b' ext := by
  unfold Store.listed
  rw [h]

variable {Seen : Nat → Backend → Prop} {own own₀ : List Handle} {w w₀ : Workspace}

/-- With distinct checksums, a model that answers for record `i` in contents the store has now is
the model of the record listed there now. -/
theorem Model.Answers.record_eq {ms : ModelStore} {b : Backend} {i : Int} {m : Model}
    (hA : m.Answers Seen ms b i) (hd : Distinct Seen) (hb : Seen ms.store b) :
    m.record = if i < 0 then Record.null else ((Store.listed b ms.extension)[i.toNat]?).getD
      Record.null := by
  rcases hA with h | ⟨hi0, b', hseen', hcs, hlist⟩
  · exact h
  · -- the contents the model was filled from are the present ones
    rw [if_neg (by omega), ← Store.listed_congr (hd _ _ _ hseen' hb hcs), hlist]
    rfl

/-- With distinct checksums, reading record `i < 2 ^ 63` of a model store over a present record
store returns, and gives the model of the record the store lists at `i` now. -/
theorem Kept.modelAt_current (hK : w.Kept Seen own)
    (hseen : ∀ k b, w.stores[k]? = some b → Seen k b) (hd : Distinct Seen) {s : Nat}
    {ms : ModelStore} (hs : w.modelStores[s]? = some ms) {b : Backend}
    (hb : w.stores[ms.store]? = some b) {i : Int} (hi : i < 2 ^ 63) :
    ∃ j w', (Workspace.modelAt s i).run w = .ok j w' ∧ w'.Kept Seen own ∧ w'.stores = w.stores ∧
      ∃ m, w'.models[j]? = some m ∧ (Store.atIndex ms.extension i).run b = .ok m.record b := by
  -- the run stops only when the record store is missing
  obtain ⟨j, w', hrun, hK', hst, -, m, hm, -, -, hans⟩ := (hK.modelAt hseen hs hi).returns fun w' h => by
    rw [hb] at h
    cases h.2.2
  refine ⟨j, w', hrun, hK', hst, m, hm, ?_⟩
  rw [Store.run_atIndex (hK.memory _ b hb), Model.Answers.record_eq (hans b hb) hd (hseen _ _ hb)]

theorem Heap.isDefined_undefinedIn (h : Heap) (k : Nat) :
    h.isDefined (Handle.undefinedIn k) = false := by
  cases hd : h.isDefined (Handle.undefinedIn k)
  · rfl
  · have := Heap.named_of_isDefined hd
    simp [Handle.named, Handle.undefinedIn] at this

/-- A call whose errors are caught, made only to be wrapped in `some`, returns as the call does. -/
theorem run_tryCatch_some {α : Type} {x : WorkM α} {hdl : WorkError → WorkM (Option α)} {a : α}
    {w' : Workspace} (hx : x.run w = .ok a w') :
    (tryCatch (do return some (← x)) hdl).run w = .ok (some a) w' :=
  run_tryCatch_ok ((run_bind_of_ok hx).trans rfl)

theorem positionOf_eq_some (name : String) :
    ∀ (rs : List Record) (i n : Nat), positionOf name rs i = some n →
      i ≤ n ∧ ∃ r, rs[n - i]? = some r ∧ r.name = name
  | [], _, _, h => by simp [positionOf] at h
  | r :: rs, i, n, h => by
    unfold positionOf at h
    split at h
    · cases h
      exact ⟨le_refl _, r, by simp, by assumption⟩
    · obtain ⟨hle, r', hr', hname⟩ := positionOf_eq_some name rs (i + 1) n h
      refine ⟨by omega, r', ?_, hname⟩
      rw [show n - i = n - (i + 1) + 1 by omega]
      simpa using hr'

/-! ### A model's tree -/

/-- A memoized tree is handed back as a copy. -/
theorem run_expression_copy {j : Nat} {m : Model} (hj : w.models[j]? = some m)
    (hd : w.heap.isDefined m.expression = true) {c : Handle} {h' : Heap}
    (hc : (Heap.copy m.expression).run w.heap = .ok c h') :
    (expression j).run w = .ok (c, none) { w with heap := h' } := by
  unfold Workspace.expression
  rw [run_bind_of_ok (run_model j), hj, Option.getD_some, run_bind_of_ok run_get, if_pos hd,
    run_bind_of_ok (run_heapOp_ok hc)]
  rfl

theorem run_expression_copy_error {j : Nat} {m : Model} (hj : w.models[j]? = some m)
    (hd : w.heap.isDefined m.expression = true) {f : Fault} {h' : Heap}
    (hc : (Heap.copy m.expression).run w.heap = .error f h') :
    (expression j).run w = .error (.fault f) { w with heap := h' } := by
  unfold Workspace.expression
  rw [run_bind_of_ok (run_model j), hj, Option.getD_some, run_bind_of_ok run_get, if_pos hd,
    run_bind_of_error (run_heapOp_error hc)]

/-- Without a memoized tree, a handle `expression` hands back that names a node was decoded from
the record's value, read from the model's record store as it is now. -/
theorem expression_decoded {j : Nat} {m : Model} (hj : w.models[j]? = some m)
    (hd : w.heap.isDefined m.expression = false) {b : Backend} (hb : w.stores[m.store]? = some b)
    (hmem : b.Memory) {res : Handle × Option StoreError} {w₂ : Workspace}
    (hexp : (expression j).run w = .ok res w₂) (hres : res.1 ≠ Handle.undefinedIn m.pool) :
    ∃ v h₁, (Store.value m.record).run b = .ok v b ∧
      (Heap.decodeInto m.pool v).run w.heap = .ok (.ok res.1) h₁ := by
  unfold Workspace.expression at hexp
  rw [run_bind_of_ok (run_model j), hj, Option.getD_some, run_bind_of_ok run_get,
    if_neg (by simp [hd])] at hexp
  dsimp only at hexp
  split at hexp
  · cases hexp
    exact absurd rfl hres
  -- the value as the store has it now
  rcases Store.run_value_keeps hmem m.record with ⟨v, hv⟩ | ⟨e, he⟩
  · rw [run_bind_of_ok (run_tryStore_read hb hv)] at hexp
    cases v with
    | nil =>
      cases hexp
      exact absurd rfl hres
    | cons byte bytes =>
      dsimp only at hexp
      cases hdec : (Heap.decodeInto m.pool (byte :: bytes)).run w.heap with
      | error f h₁ =>
        rw [run_bind_of_error (run_heapOp_error hdec)] at hexp
        cases hexp
      | ok d h₁ =>
        rw [run_bind_of_ok (run_heapOp_ok hdec)] at hexp
        cases d with
        | error e =>
          cases hexp
          exact absurd rfl hres
        | ok t =>
          -- whether the tree is memoized or not, the handle is the decoded root
          refine ⟨byte :: bytes, h₁, hv, ?_⟩
          dsimp only at hexp
          rw [run_bind_of_ok run_get] at hexp
          dsimp only at hexp
          split at hexp
          · cases hexp
            exact hdec
          · cases hc : (Heap.copy t).run h₁ with
            | error f h₂ =>
              rw [run_bind_of_error (run_heapOp_error hc)] at hexp
              cases hexp
            | ok c h₂ =>
              rw [run_bind_of_ok (run_heapOp_ok hc), run_bind_of_ok (run_model j),
                run_bind_of_ok (run_setModel j _)] at hexp
              cases hexp
              exact hdec
  · have hts : (tryStore m.store (Store.value m.record)).run w = .ok (.error e) w := by
      rw [run_tryStore hb, he]
      show EStateM.Result.ok (Except.error e) { w with stores := w.stores.setIfInBounds m.store b } = _
      rw [Array.setIfInBounds_of_getElem? hb]
    rw [run_bind_of_ok hts] at hexp
    cases hexp
    exact absurd rfl hres

/-! ### Reading through the window -/

/-- With distinct checksums, resolving a name that the record at position `n` of the present
listing has reads the model of that record and hands back what the model's `expression` gives. -/
theorem Kept.resolve_current (hK : w.Kept Seen own)
    (hseen : ∀ k b, w.stores[k]? = some b → Seen k b) (hd : Distinct Seen) {s : Nat}
    {ms : ModelStore} (hs : w.modelStores[s]? = some ms) {b : Backend}
    (hb : w.stores[ms.store]? = some b) (hshort : (Store.listed b ms.extension).length ≤ 2 ^ 63)
    (name : String) {n : Nat} (hp : positionOf name (Store.listed b ms.extension) 0 = some n) :
    ∃ j w₁ m, (Workspace.modelAt s n).run w = .ok j w₁ ∧ w₁.Kept Seen own ∧ w₁.stores = w.stores ∧
      w₁.models[j]? = some m ∧ m.store = ms.store ∧ m.pool = ms.pool ∧
      (Store.listed b ms.extension)[n]? = some m.record ∧ m.record.name = name ∧
      (∀ res w₂, (Workspace.expression j).run w₁ = .ok res w₂ → (Workspace.resolve s name).run w =
        .ok (if res.2.isSome then (Handle.undefinedIn ms.pool, false)
          else (res.1, w₂.heap.isDefined res.1)) w₂) ∧
      ∀ e w₂, (Workspace.expression j).run w₁ = .error e w₂ → (Workspace.resolve s name).run w = .error e w₂ := by
  have hmem := hK.memory _ b hb
  have hn : n < (Store.listed b ms.extension).length := by
    simpa using (positionOf_bounds name _ 0 n hp).2
  obtain ⟨-, r, hr, hname⟩ := positionOf_eq_some name _ 0 n hp
  rw [Nat.sub_zero] at hr
  obtain ⟨j, w₁, hrun, hK₁, hst₁, -, m, hm, hmst, hmpool, hans⟩ :=
    (hK.modelAt hseen hs (i := n) (by omega)).returns fun w' h => by
      rw [hb] at h
      cases h.2.2
  -- the model read is that of the record found
  have hrec : m.record = r := by
    rw [Model.Answers.record_eq (hans b hb) hd (hseen _ _ hb), if_neg (by omega),
      Int.toNat_natCast, hr]
    rfl
  refine ⟨j, w₁, m, hrun, hK₁, hst₁, hm, hmst, hmpool, by rw [hrec, hr], by rw [hrec, hname],
    fun res w₂ hexp => ?_, fun e w₂ hexp => ?_⟩
  -- resolving reads the listing first, which changes nothing, then the model of the record found
  all_goals
    unfold Workspace.resolve
    rw [run_bind_of_ok (run_modelStore s), hs, Option.getD_some,
      run_bind_of_ok (run_tryStore_read hb (Store.run_withExtension hmem _))]
    dsimp only
    rw [hp]
    dsimp only
    rw [run_bind_of_ok (run_tryCatch_some hrun)]
    dsimp only
  · rw [run_bind_of_ok hexp]
    split <;> rfl
  · rw [run_bind_of_error hexp]

/-- Over every run of calls, when distinct contents of a record store have distinct checksums:
reading record `i` of a model store gives the model of the record the store lists at `i` now (the
null record for a negative index or one out of range). Resolving a name that no record has gives
the handle naming no node and `false`, changing nothing. Resolving a name that the record at
position `n` has reads the model of that record; when the model holds a memoized tree, resolving
hands back a copy of that tree, whatever the record's value is now, and stops when the copy would
overflow the tree's retain count; otherwise a handle it hands back that names a node is the root of
the tree decoded from the record's value now. -/
theorem model_store_reads_current_records (hK₀ : w₀.Kept Seen own₀)
    (hc : Calls Seen own₀ w₀ own w) (hseen : ∀ k b, w.stores[k]? = some b → Seen k b)
    (hd : Distinct Seen) {s : Nat} {ms : ModelStore} (hs : w.modelStores[s]? = some ms)
    {b : Backend} (hb : w.stores[ms.store]? = some b)
    (hshort : (Store.listed b ms.extension).length ≤ 2 ^ 63) :
    (∀ i : Int, i < 2 ^ 63 → ∃ j w', (modelAt s i).run w = .ok j w' ∧
      ∃ m, w'.models[j]? = some m ∧ (Store.atIndex ms.extension i).run b = .ok m.record b) ∧
    ∀ name : String,
      (positionOf name (Store.listed b ms.extension) 0 = none →
        (resolve s name).run w = .ok (Handle.undefinedIn ms.pool, false) w) ∧
      ∀ n, positionOf name (Store.listed b ms.extension) 0 = some n →
        ∃ j w₁ m, (modelAt s n).run w = .ok j w₁ ∧ w₁.models[j]? = some m ∧
          (Store.listed b ms.extension)[n]? = some m.record ∧ m.record.name = name ∧
          (w₁.heap.isDefined m.expression = true →
            (∀ c h₂, (Heap.copy m.expression).run w₁.heap = .ok c h₂ →
              (resolve s name).run w = .ok (c, h₂.isDefined c) { w₁ with heap := h₂ }) ∧
            ∀ f h₂, (Heap.copy m.expression).run w₁.heap = .error f h₂ →
              (resolve s name).run w = .error (.fault f) { w₁ with heap := h₂ }) ∧
          (w₁.heap.isDefined m.expression = false → ∀ r d w₂,
            (resolve s name).run w = .ok (r, d) w₂ → r ≠ Handle.undefinedIn ms.pool →
            ∃ v h₁, (Store.value m.record).run b = .ok v b ∧
              (Heap.decodeInto ms.pool v).run w₁.heap = .ok (.ok r) h₁) := by
  have hK := hK₀.calls hc
  have hmem := hK.memory _ b hb
  refine ⟨fun i hi => ?_, fun name => ⟨fun hp => ?_, fun n hp => ?_⟩⟩
  · obtain ⟨j, w', hrun, -, -, m, hm, hat⟩ := hK.modelAt_current hseen hd hs hb hi
    exact ⟨j, w', hrun, m, hm, hat⟩
  · -- no record of that name: only the listing is read
    unfold Workspace.resolve
    rw [run_bind_of_ok (run_modelStore s), hs, Option.getD_some,
      run_bind_of_ok (run_tryStore_read hb (Store.run_withExtension hmem _))]
    dsimp only
    rw [hp]
    rfl
  obtain ⟨j, w₁, m, hrun, -, hst₁, hm, hmst, hmpool, hrec, hname, hok, herr⟩ :=
    hK.resolve_current hseen hd hs hb hshort name hp
  refine ⟨j, w₁, m, hrun, hm, hrec, hname, fun hdef => ⟨fun c h₂ hcopy => ?_,
    fun f h₂ hcopy => herr _ _ (run_expression_copy_error hm hdef hcopy)⟩,
    fun hdef r d w₂ hres hne => ?_⟩
  · rw [hok _ _ (run_expression_copy hm hdef hcopy)]
    rfl
  -- without a memoized tree: what the model's expression hands back, read from the value now
  cases hexp : (Workspace.expression j).run w₁ with
  | error e w₂' =>
    rw [herr _ _ hexp] at hres
    cases hres
  | ok res w₂' =>
    rw [hok _ _ hexp] at hres
    split at hres
    · simp only [EStateM.Result.ok.injEq, Prod.mk.injEq] at hres
      exact absurd hres.1.1.symm hne
    · simp only [EStateM.Result.ok.injEq, Prod.mk.injEq] at hres
      obtain ⟨⟨rfl, -⟩, -⟩ := hres
      have hb₁ : w₁.stores[m.store]? = some b := by
        rw [hst₁, hmst]
        exact hb
      obtain ⟨v, h₁, hv, hdec⟩ := expression_decoded hm hdef hb₁ hmem hexp (by rw [hmpool]; exact hne)
      exact ⟨v, h₁, hv, by rw [← hmpool]; exact hdec⟩

/-- From a client's first workspace with one pool, after adding a model store of three records
over its empty record store: every record read through the store is the one listed now. -/
theorem model_store_reads_from_start :
    ∃ p, Pool.new 0 64 {} = .ok p ∧ ∀ i : Int, i < 2 ^ 63 →
      ∃ j w', (modelAt 0 i).run (after (addModelStore 0 0 "m" 3) (start #[p])) = .ok j w' ∧
        ∃ m, w'.models[j]? = some m ∧
          (Store.atIndex "m" i).run (Backend.empty .memory) = .ok m.record (Backend.empty .memory) := by
  obtain ⟨p, hp⟩ : ∃ p, Pool.new 0 64 {} = .ok p := ⟨_, rfl⟩
  have hK₀ : (start #[p]).Kept (fun _ b => b.entries = []) [] :=
    Kept.start fun k q hq => ⟨0, 64, {}, by
      have hqp : q = p := by
        cases k <;> simp_all
      rw [hqp]
      exact hp⟩
  -- the one record store is empty, before and after the model store is added
  have hempty : ∀ (k : Nat) (b : Backend), (start #[p]).stores[k]? = some b → b.entries = [] :=
    fun k b hb => by
      cases k with
      | zero =>
        simp [Workspace.start] at hb
        subst hb
        rfl
      | succ k => simp [Workspace.start] at hb
  have hsame : (after (addModelStore 0 0 "m" 3) (start #[p])).stores = (start #[p]).stores := by
    simp only [Workspace.after, run_addModelStore]
  obtain ⟨hread, -⟩ := model_store_reads_current_records hK₀
    (.step hempty (.addModelStore 0 0 "m" 3 (by decide)) .refl) (hsame ▸ hempty)
    (fun _ b b' hb hb' _ => hb.trans hb'.symm)
    (show (after (addModelStore 0 0 "m" 3) (start #[p])).modelStores[0]? =
      some ⟨0, 0, "m", Array.replicate 3 none, 0, 0⟩ by
        simp [Workspace.after, run_addModelStore, Workspace.start])
    (show (after (addModelStore 0 0 "m" 3) (start #[p])).stores[0]? = some (Backend.empty .memory) by
      simp [Workspace.after, run_addModelStore, Workspace.start])
    (by simp [Store.listed, Backend.empty])
  exact ⟨p, hp, hread⟩

end Workspace

end TreeArena
