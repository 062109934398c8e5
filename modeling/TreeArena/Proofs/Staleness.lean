import TreeArena.Proofs.Reachable

/-!
# Stale handles

An identifier carries the generation its slot had when its node was made, and freeing a slot
moves the slot's generation on by one, modulo `halfWord`. A handle whose node is gone resolves
again only once its slot's generation has come round to the handle's.

Allocation keeps every generation, and the calls that allocate do so before they free anything,
so one call frees a slot at most once: it moves each generation on by at most one step
(`Heap.Op.ages`). A run of `n` calls moves each by at most `n` (`Heap.Calls.ages`). Hence for
fewer than `halfWord` calls after a point where a handle named a live node, a handle whose node
has meanwhile been destroyed names nothing: it is not defined, not an allocation failure,
releasing it changes nothing, and every call that locates it faults with the stale-handle error
(`stale_handle_stays_stale`). No bound of this kind can be dropped: with a single usable slot
the generation comes round after `halfWord` allocations and releases, and the handle names the
node then made.
-/

namespace TreeArena

namespace SlotTable

variable {t t' t'' : SlotTable} {m n : Nat}

/-- From `t` to `t'` each slot's generation has moved on by at most `n` steps, and a live slot
whose generation has not moved is live still. -/
structure Aged (n : Nat) (t t' : SlotTable) : Prop where
  size_eq : t'.size = t.size
  slot : ∀ s, (t'.generation s = t.generation s ∧ (t.isFree s = false → t'.isFree s = false)) ∨
    ∃ j, 0 < j ∧ j ≤ n ∧ t'.generation s = (t.generation s + j) % halfWord

theorem Aged.refl (n : Nat) (t : SlotTable) : t.Aged n t := ⟨rfl, fun _ => .inl ⟨rfl, id⟩⟩

theorem Aged.mono (hmn : m ≤ n) (h : t.Aged m t') : t.Aged n t' :=
  ⟨h.size_eq, fun s => (h.slot s).imp_right fun ⟨j, hj, hjm, hg⟩ => ⟨j, hj, by omega, hg⟩⟩

theorem Aged.trans (h : t.Aged m t') (h' : t'.Aged n t'') : t.Aged (m + n) t'' := by
  refine ⟨h'.size_eq.trans h.size_eq, fun s => ?_⟩
  rcases h.slot s with ⟨hg, hl⟩ | ⟨j, hj, hjm, hg⟩ <;>
    rcases h'.slot s with ⟨hg', hl'⟩ | ⟨j', hj', hjn, hg'⟩
  · exact .inl ⟨hg'.trans hg, fun hs => hl' (hl hs)⟩
  · exact .inr ⟨j', hj', by omega, by rw [hg', hg]⟩
  · exact .inr ⟨j, hj, by omega, by rw [hg', hg]⟩
  · refine .inr ⟨j + j', by omega, by omega, ?_⟩
    rw [hg', hg, Nat.mod_add_mod, Nat.add_assoc]

/-- Freeing slots moves each generation on by at most one: a slot is freed once. -/
theorem Frees.aged {P : Nat → Prop} (h : t.Frees P t') : t.Aged 1 t' := by
  refine ⟨h.size_eq, fun s => ?_⟩
  rcases h.slot s with ⟨hf, hg⟩ | ⟨-, -, -, hg⟩
  · exact .inl ⟨hg, fun hs => hf.trans hs⟩
  · exact .inr ⟨1, Nat.one_pos, le_rfl, hg⟩

theorem aged_zero (hsize : t'.size = t.size) (hg : t'.generations = t.generations)
    (hl : ∀ s, t.isFree s = false → t'.isFree s = false) : t.Aged 0 t' :=
  ⟨hsize, fun s => .inl ⟨by unfold generation; rw [hg], hl s⟩⟩

/-- Moving a generation on by fewer than `halfWord` steps never brings it back. -/
theorem add_mod_ne_self {g j : Nat} (hj : 0 < j) (hjw : j < halfWord) : (g + j) % halfWord ≠ g := by
  unfold halfWord at *
  omega

/-- An identifier a table resolved, and that `m` steps on it no longer resolves, resolves nothing
`n` steps further on while fewer than `halfWord` steps were taken in all. -/
theorem Aged.resolve_eq_none {t₁ t₂ t₃ : SlotTable} {id : NodeId} (h₁₂ : t₁.Aged m t₂)
    (h₂₃ : t₂.Aged n t₃) (hmn : m + n < halfWord) (hres : (t₁.resolve id).isSome)
    (hgone : t₂.resolve id = none) : t₃.resolve id = none := by
  obtain ⟨hnone, hs, hg, hlive⟩ := (resolve_isSome_iff t₁ id).mp hres
  rcases h₁₂.slot id.slot with ⟨hg₂, hl₂⟩ | ⟨j, hj, hjm, hg₂⟩
  · -- the slot kept its generation, so it was never freed and still resolves the identifier
    have hres₂ : (t₂.resolve id).isSome :=
      (resolve_isSome_iff t₂ id).mpr ⟨hnone, h₁₂.size_eq ▸ hs, hg₂.trans hg, hl₂ hlive⟩
    rw [hgone] at hres₂
    cases hres₂
  · -- the generation moved on by `j`, and then by at most `n` more steps
    have hmoved : ∃ J, 0 < J ∧ J < halfWord ∧ t₃.generation id.slot = (id.generation + J) % halfWord := by
      rcases h₂₃.slot id.slot with ⟨hg₃, -⟩ | ⟨j', -, hjn, hg₃⟩
      · exact ⟨j, hj, by omega, by rw [hg₃, hg₂, hg]⟩
      · refine ⟨j + j', by omega, by omega, ?_⟩
        rw [hg₃, hg₂, hg, Nat.mod_add_mod, Nat.add_assoc]
    obtain ⟨J, hJ, hJw, hg₃⟩ := hmoved
    cases hr : t₃.resolve id with
    | none => rfl
    | some i =>
      obtain ⟨-, -, hg', -⟩ := (resolve_isSome_iff t₃ id).mp (by rw [hr]; rfl)
      exact absurd (hg₃.symm.trans hg') (add_mod_ne_self hJ hJw)

end SlotTable

namespace Pool

open TreeArena.Tree SlotTable

variable {p p' : Pool} {w : Nat → Nat} {ts : List Tree}

theorem Follows.aged (hf : p.Follows (fun _ => False) p')
    (hg : p'.slots.generations = p.slots.generations) : p.slots.Aged 0 p'.slots :=
  aged_zero hf.size_eq hg fun s hs => (hf.kept s hs id).1

theorem aged_of_slots_eq (hs : p'.slots = p.slots) : p.slots.Aged 0 p'.slots := by
  rw [hs]
  exact Aged.refl 0 _

theorem Appends.aged {recs : List Node} (ha : p.Appends recs p') : p.slots.Aged 0 p'.slots :=
  aged_zero ha.size_eq ha.generations_eq fun s hs => by
    unfold SlotTable.isFree at hs ⊢
    rw [ha.kept s hs]
    exact hs

theorem create_ages {l : List Node} (hl : p.slots.Locates l) {kind : Nat} {payload : List UInt8}
    {a : NodeId} (hrun : (create kind payload).run p = .ok a p') : p.slots.Aged 0 p'.slots := by
  rcases create_cases hl hrun with ⟨-, -, hs, -⟩ | ⟨s, nodes, j, hfs, -, rfl⟩
  · exact aged_of_slots_eq hs
  · exact Follows.aged (follows_claim hfs rfl rfl) rfl

theorem Sound.cloneAt_ages {c : Ctx} {U : Tree} (hS : p.Sound w (c.fill [U])) :
    ∃ a p', (cloneAt c.pos).run p = .ok a p' ∧ p.slots.Aged 0 p'.slots := by
  rcases cloneAt_spec hS with ⟨p', hrun, -, hs, -⟩ | ⟨T, p', hrun, -, -, -, ha, -⟩
  · exact ⟨_, p', hrun, aged_of_slots_eq hs⟩
  · exact ⟨_, p', hrun, ha.aged⟩

theorem Sound.importTree_ages (hS : p.Sound w ts) (data : List UInt8) :
    ∃ a p', (importTree data).run p = .ok a p' ∧ p.slots.Aged 0 p'.slots := by
  rcases importTree_spec hS data with ⟨e, -, hrun⟩ | ⟨p', hrun, -, hs, -⟩ |
    ⟨T, p', hrun, -, -, -, ha, -⟩
  · exact ⟨_, p, hrun, Aged.refl 0 _⟩
  · exact ⟨_, p', hrun, aged_of_slots_eq hs⟩
  · exact ⟨_, p', hrun, ha.aged⟩

end Pool

namespace Heap

open Pool TreeArena.Tree SlotTable

variable {α : Type} {h h' : Heap} {own own' lost : List Handle} {m : HeapM α}
  {R : SlotTable → SlotTable → Prop}

theorem Guarded.and {Q Q' : α → Heap → Prop} (hg : Guarded m h Q) (hg' : Guarded m h Q') :
    Guarded m h fun a h' => Q a h' ∧ Q' a h' := by
  unfold Guarded at hg hg' ⊢
  split
  · rename_i a h' hm
    rw [hm] at hg hg'
    exact ⟨hg, hg'⟩
  · rename_i e h' hm
    rw [hm] at hg
    exact hg

theorem Tables.aged {P : Nat → Prop} (hT : Tables (SlotTable.Frees P) h h') :
    Tables (SlotTable.Aged 1) h h' :=
  hT.mono fun _ _ hf => hf.aged

/-- Whether a run returns or faults, the heap it leaves is the one the run relates. -/
theorem tables_after (he : Ends m h (fun _ h' => Tables R h h') fun h' => Tables R h h') :
    Tables R h (after m h) := by
  unfold after
  cases hm : m.run h with
  | ok a h' => exact he.ok hm
  | error e h' => exact he.error hm

theorem tables_after_guarded (hR : ∀ t, R t t) (hg : Guarded m h fun _ h' => Tables R h h') :
    Tables R h (after m h) :=
  tables_after (hg.ends (Tables.refl hR h))

/-- An operation on pool `k` that relates the tables by `R` whenever it runs on that pool. -/
theorem guarded_onPool_tables (hR : ∀ t, R t t) {k : Nat} {m : PoolM α}
    (hm : ∀ p, h.pools[k]? = some p → ∃ a p', m.run p = .ok a p' ∧ R p.slots p'.slots) :
    Guarded (onPool k m) h fun _ h' => Tables R h h' := by
  cases hp : h.pools[k]? with
  | none => exact guarded_onPool_none hp
  | some p =>
    obtain ⟨a, p', hrun, hrel⟩ := hm p hp
    exact guarded_onPool hp (.inr ⟨a, p', hrun, tables_set hR hp hrel⟩)

/-! ### What one call does to the generations -/

theorem Exact.create_ages (hE : h.Exact own) (k : Nat) {kind : Nat} (hkind : kind < 256)
    (payload : List UInt8) :
    Guarded (Heap.create k kind payload) h fun _ h' => Tables (Aged 0) h h' := by
  refine Guarded.bind_ok (guarded_onPool_tables (Aged.refl 0) fun p hp => ?_)
    fun _ _ hT => returns_pure hT
  obtain ⟨ts, hK⟩ := hE.kept hp
  rcases hK.create (hE.free_owes hp hK) hkind payload with ⟨p', hrun, -⟩ | ⟨s, p', hrun, -⟩
  · exact ⟨_, p', hrun, Pool.create_ages hK.sound.laid.locates hrun⟩
  · exact ⟨_, p', hrun, Pool.create_ages hK.sound.laid.locates hrun⟩

theorem Exact.clone_ages (hE : h.Exact own) (r : Handle) :
    Guarded (Heap.clone r) h fun _ h' => Tables (Aged 0) h h' := by
  unfold Heap.clone
  refine guarded_locate_homeOf r fun k p off hf => ?_
  obtain ⟨c, nd, ks, hK, -, rfl⟩ := hE.site hf
  refine Guarded.bind_ok (guarded_onPool_tables (Aged.refl 0) fun q hq => ?_)
    fun _ _ hT => returns_pure hT
  obtain rfl := Option.some.inj (hf.pool.symm.trans hq)
  exact hK.sound.cloneAt_ages

theorem Exact.decodeInto_ages (hE : h.Exact own) (k : Nat) (data : List UInt8) :
    Guarded (Heap.decodeInto k data) h fun _ h' => Tables (Aged 0) h h' := by
  unfold Heap.decodeInto
  refine Guarded.bind_ok (guarded_onPool_tables (Aged.refl 0) fun p hp => ?_) fun a _ hT => ?_
  · obtain ⟨ts, hK⟩ := hE.kept hp
    exact hK.sound.importTree_ages data
  · split <;> exact returns_pure hT

theorem setLimit_ages (k : Nat) (n : Int) :
    Guarded (onPool k (Pool.setLimit n)) h fun _ h' => Tables (Aged 0) h h' :=
  guarded_onPool_tables (Aged.refl 0) fun p _ => ⟨(), _, run_setLimit n p, Aged.refl 0 _⟩

theorem Exact.assign_ages (hE : h.Exact own) {r o : Handle} (hr : h.owns r = true → r ∈ own) :
    Guarded (Heap.assign r o) h fun _ h' => Tables (Aged 1) h h' := by
  unfold Heap.assign
  split
  · exact guarded_pure (Tables.refl (Aged.refl 1) h)
  refine Guarded.bind_ok (hE.copy o) fun c h₁ hQ => ?_
  obtain ⟨hE₁, hsame, -, hT₁⟩ := hQ
  refine (hE₁.release (mem_gain_of_owns hsame hr)).bind fun _ h₂ hQ₂ => returns_pure ?_
  exact (Tables.trans (R := SlotTable.Frees fun _ => True) (fun _ _ _ => SlotTable.Frees.trans) hT₁
    hQ₂.2.2.2).aged

/-- One call moves each slot's generation on by at most one step. -/
theorem Exact.call_ages (hE : h.Exact own) {c : Call} (hc : c.Fits)
    (ht : ∀ r, c.takes = some r → h.owns r = true → r ∈ own) :
    Tables (Aged 1) h (after c.run h) := by
  refine tables_after_guarded (Aged.refl 1) ?_
  -- the calls that allocate keep every generation, the others only free slots
  have hzero : ∀ h', Tables (Aged 0) h h' → Tables (Aged 1) h h' := fun _ hT =>
    hT.mono fun _ _ hA => hA.mono (Nat.zero_le 1)
  cases c with
  | query q => exact (Query.reads q).bind fun _ _ => guarded_pure (Tables.refl (Aged.refl 1) h)
  | edit e => exact Guarded.bind_ok (hE.edit e) fun _ _ hk => returns_pure hk.frees.aged
  | create k kind payload =>
    exact Guarded.bind_ok (hE.create_ages k hc payload) fun _ h' hT => returns_pure (hzero h' hT)
  | copy r => exact Guarded.bind_ok (hE.copy r) fun _ _ hQ => returns_pure hQ.2.2.2.aged
  | assign r o =>
    exact Guarded.bind_ok (hE.assign_ages (ht r rfl)) fun _ _ hT => returns_pure hT
  | release r =>
    exact Returns.guarded ((hE.release (ht r rfl)).bind fun _ _ hQ => returns_pure hQ.2.2.2.aged)
  | childAt r i => exact Guarded.bind_ok (hE.childAt r i) fun _ _ hQ => returns_pure hQ.2.2.2.aged
  | parent r => exact Guarded.bind_ok (hE.parent r) fun _ _ hQ => returns_pure hQ.2.aged
  | clone r => exact Guarded.bind_ok (hE.clone_ages r) fun _ h' hT => returns_pure (hzero h' hT)
  | decodeInto k data =>
    exact Guarded.bind_ok (hE.decodeInto_ages k data) fun _ h' hT => returns_pure (hzero h' hT)
  | setLimit k n =>
    exact Guarded.bind_ok (setLimit_ages k n) fun _ h' hT => returns_pure (hzero h' hT)

/-- A constructor allocates its node before it installs the operands, which only frees slots: it
too moves each generation on by at most one step, whether it returns or faults. -/
theorem Exact.operator_ages {cs base : List Handle} (hE : h.Exact (cs ++ base)) (k : Nat) {t : Nat}
    (ht : t < 256) : Tables (Aged 1) h (after (Expr.operator k t cs) h) := by
  refine tables_after ?_
  unfold Expr.operator
  refine (((hE.create k ht []).and (hE.create_ages k ht [])).ends
    (Tables.refl (Aged.refl 1) h)).bind fun r h₁ hQ => ?_
  obtain ⟨hE₁, hT₁⟩ := hQ
  -- installing the operands only frees slots, whether it returns or faults
  have hstep : ∀ h₂, Tables (SlotTable.Frees fun _ => True) h₁ h₂ → Tables (Aged 1) h h₂ :=
    fun _ hF => Tables.comp (fun _ _ _ hA hf => hA.trans hf.aged) hT₁ hF
  have hall : Ends (Expr.installAll r 0 cs) h₁ (fun _ h₂ => Tables (Aged 1) h h₂)
      fun h₂ => Tables (Aged 1) h h₂ :=
    (Exact.installAll r cs 0 (hE₁.perm (perm_gain_operands h₁ r cs base))).mono
      (fun _ h₂ hk => hstep h₂ hk.frees) fun h₂ hL => hstep h₂ hL.choose_spec.frees
  exact hall.bind fun _ h₂ hT => ends_pure hT

/-- One step of a run, a call or a constructor, moves each generation on by at most one. -/
theorem Op.ages {b : Bool} (hop : Op b own h own' h') (hE : h.Exact (own ++ lost)) :
    Tables (Aged 1) h h' := by
  cases hop with
  | call c hc ht => exact hE.call_ages hc fun r htk ho => List.mem_append_left lost (ht r htk ho)
  | operator k t cs ht hcs => exact (hE.perm (operands_perm hcs lost)).operator_ages k ht

/-- A run of `n` calls: `Ops`, counted. -/
inductive Calls : Nat → List Handle → Heap → List Handle → Heap → Prop where
  | refl {own : List Handle} {h : Heap} : Calls 0 own h own h
  | step {n : Nat} {b : Bool} {own own₁ own' : List Handle} {h h₁ h' : Heap}
      (hop : Op b own h own₁ h₁) (hrest : Calls n own₁ h₁ own' h') : Calls (n + 1) own h own' h'

/-- A run of `n` calls moves each generation on by at most `n` steps, and keeps the heap exact
for the handles held at its end and some lost on the way. -/
theorem Calls.ages {n : Nat} (hrun : Calls n own h own' h') (hE : h.Exact (own ++ lost)) :
    Tables (Aged n) h h' ∧ ∃ L, h'.Exact (own' ++ L) := by
  -- induction on the run, carrying the handles lost so far
  induction hrun generalizing lost with
  | refl => exact ⟨Tables.refl (Aged.refl 0) _, lost, hE⟩
  | step hop _ ih =>
    have hT₁ := hop.ages hE
    obtain ⟨L₁, hE₁, -⟩ := hop.exact hE
    rw [List.append_assoc] at hE₁
    obtain ⟨hT, hrest⟩ := ih hE₁
    exact ⟨Tables.comp (fun _ _ _ hA hA' => (hA.trans hA').mono (by omega)) hT₁ hT, hrest⟩

/-! ### Stale handles -/

/-- What a client sees through a handle that names no live node: it is not defined and not an
allocation failure, releasing it hands back its cleared handle and changes nothing, and every
call that first locates it faults with the stale-handle error, changing nothing. -/
structure Stale (h : Heap) (v : Handle) : Prop where
  undefined : h.isDefined v = false
  not_failure : h.isFailure v = false
  release_noop : (release v).run h = .ok v.cleared h
  locate_faults : ∀ {β : Type} (f : Nat → HeapM β),
    (locate v >>= f).run h = .error (.staleHandle v.id) h

theorem stale_of_resolve {v : Handle} {k : Nat} (hhome : v.home = some k)
    (hid : v.id ≠ NodeId.none) (hv : h.resolve v = none) : h.Stale v := by
  have hdef : h.isDefined v = false := by
    unfold isDefined
    rw [hv]
    rfl
  have hloc : (locate v).run h = .error (.staleHandle v.id) h := by
    simp only [locate, homeOf, hhome, hid, if_false, pure_bind]
    rw [run_get_bind, hv]
    rfl
  refine ⟨hdef, ?_, ?_, fun f => run_bind_error hloc⟩
  · unfold isFailure
    rw [hv]
  · unfold release
    rw [run_get_bind, hdef]
    rfl

/-- A handle that named a live node, and `m` calls later names none, names none `n` calls further
on while fewer than `halfWord` calls were made in all. -/
theorem resolve_stays_none {h₁ h₂ h₃ : Heap} {m n : Nat} {v : Handle}
    (h₁₂ : Tables (Aged m) h₁ h₂) (h₂₃ : Tables (Aged n) h₂ h₃) (hmn : m + n < halfWord)
    (hv : h₁.isDefined v = true) (hgone : h₂.isDefined v = false) : h₃.resolve v = none := by
  obtain ⟨k, p₁, i, hf⟩ := isDefined_iff_finds.mp hv
  -- the pool is in every heap of the run, which keeps the number of pools
  have hk₂ : k < h₂.pools.size := by
    rw [h₁₂.1]
    exact (Array.getElem?_eq_some_iff.mp hf.pool).1
  have hk₃ : k < h₃.pools.size := by
    rw [h₂₃.1]
    exact hk₂
  have hp₂ := Array.getElem?_eq_getElem hk₂
  have hp₃ := Array.getElem?_eq_getElem hk₃
  have hgone₂ : h₂.pools[k].slots.resolve v.id = none := by
    cases hr : h₂.pools[k].slots.resolve v.id with
    | none => rfl
    | some j =>
      have hdef := isDefined_iff_finds.mpr ⟨k, _, j, ⟨hf.home, hp₂, hr⟩⟩
      rw [hgone] at hdef
      cases hdef
  have hnone := Aged.resolve_eq_none (h₁₂.2 k _ _ hf.pool hp₂) (h₂₃.2 k _ _ hp₂ hp₃) hmn
    (by rw [hf.resolve]; rfl) hgone₂
  simp [Heap.resolve, hf.home, hp₃, hnone]

/-- Once the node a handle names is destroyed, the handle stays stale: for as long as fewer than
`halfWord` calls were made since it named a live node, it is not defined, not an allocation
failure, releasing it changes nothing, and every call that locates it faults with the
stale-handle error. -/
theorem stale_handle_stays_stale {b : Bool} {h₀ h₁ h₂ h₃ : Heap} {own₁ own₂ own₃ : List Handle}
    {m n : Nat} (hf : h₀.Fresh) (hrun : Ops b [] h₀ own₁ h₁) {v : Handle}
    (hv : h₁.isDefined v = true) (hrun₁ : Calls m own₁ h₁ own₂ h₂) (hgone : h₂.isDefined v = false)
    (hrun₂ : Calls n own₂ h₂ own₃ h₃) (hmn : m + n < halfWord) : h₃.Stale v := by
  obtain ⟨L, hE₁, -⟩ := fresh_runs_exact hf hrun
  obtain ⟨h₁₂, L₂, hE₂⟩ := hrun₁.ages hE₁
  obtain ⟨h₂₃, -⟩ := hrun₂.ages hE₂
  obtain ⟨k, p, i, hfd⟩ := isDefined_iff_finds.mp hv
  have hid : v.id ≠ NodeId.none := ((resolve_isSome_iff _ _).mp (by rw [hfd.resolve]; rfl)).1
  exact stale_of_resolve hfd.home hid (resolve_stays_none h₁₂ h₂₃ hmn hv hgone)


/-- A node created in a pool just built and then released leaves its handle stale. -/
theorem released_handle_is_stale :
    ∃ p, Pool.new 0 64 {} = .ok p ∧
      (after (Call.release ⟨some 0, ⟨1, 0⟩⟩).run
        (after (Call.create 0 1 []).run ⟨#[p]⟩)).Stale ⟨some 0, ⟨1, 0⟩⟩ := by
  have hp : Pool.new 0 64 {} = .ok _ := rfl
  refine ⟨_, hp, ?_⟩
  exact stale_handle_stays_stale (fresh_of_new hp)
    (.step (.call (Call.create 0 1 []) (by decide) (by simp [Call.takes])) .refl) (by decide)
    (.step (.call (Call.release ⟨some 0, ⟨1, 0⟩⟩) trivial (by decide)) .refl) (by decide) .refl
    (by decide)

end Heap

end TreeArena
