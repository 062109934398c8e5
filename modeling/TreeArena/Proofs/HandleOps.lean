import TreeArena.Proofs.Queries

/-!
# Owning handles: copying, releasing, allocating

Over an exact heap, each handle operation that takes or hands out units keeps the heap exact for
the handles the client owns afterwards. A handle that owns a unit after the run is gained
(`Heap.gain`): a copy of a live record other than the failure node, a child or a parent, a new
node, a clone or an imported tree. A released handle is dropped; releasing it gives its unit
back, and whatever the release destroys is owed nothing, so every other owning handle still
names a live record.

Each operation is guarded: it faults, if at all, before it changes anything (a full retain count
is the one fault of copying, found before the count is written).
-/

namespace TreeArena

theorem addUnit_comm (w : Nat → Nat) (a b : Nat) :
    addUnit (addUnit w a) b = addUnit (addUnit w b) a := by
  funext x
  simp only [addUnit]
  split_ifs <;> omega

namespace SlotTable

/-- Two identifiers that resolve with one slot are the same: the slot is in one generation. -/
theorem eq_of_resolve_isSome {t : SlotTable} {a b : NodeId} (ha : (t.resolve a).isSome)
    (hb : (t.resolve b).isSome) (hs : a.slot = b.slot) : a = b := by
  rw [resolve_isSome_iff] at ha hb
  cases a
  cases b
  simp only at hs
  subst hs
  simp only [NodeId.mk.injEq, true_and]
  exact ha.2.2.1.symm.trans hb.2.2.1

theorem Frees.resolve_isSome_of_after {P : Nat → Prop} {t t' : SlotTable} (hf : t.Frees P t')
    {id : NodeId} (hr : (t'.resolve id).isSome) : (t.resolve id).isSome := by
  rw [resolve_isSome_iff] at hr ⊢
  obtain ⟨h0, hs, hg, hfree⟩ := hr
  rcases hf.slot id.slot with ⟨f, g⟩ | ⟨-, -, f, -⟩
  · exact ⟨h0, hf.size_eq ▸ hs, g.symm.trans hg, f.symm.trans hfree⟩
  · rw [f] at hfree
    cases hfree

end SlotTable

namespace Arena

theorem modify_retain_restore {a : Arena} {i : Nat} {nd : Node} (hnd : a[i]? = some nd) (n : Nat) :
    (a.modify i fun x => { x with retain := n }).modify i (fun x => { x with retain := nd.retain }) =
      a := by
  unfold Arena.modify
  refine Array.ext (by simp) fun j hj₁ hj₂ => ?_
  simp only [Array.getElem_modify]
  split
  · subst_vars
    simp only [Array.getElem?_eq_some_iff] at hnd
    obtain ⟨_, rfl⟩ := hnd
    rfl
  · rfl

theorem pinnedAt_modify_retain (a : Arena) (i n : Nat) :
    (a.modify i fun x => { x with retain := n }).pinnedAt i = a.pinnedAt i := by
  simp only [Arena.pinnedAt, Arena.modify, Array.getElem?_modify, if_true]
  cases a[i]? <;> rfl

theorem retainAt_modify_retain {a : Arena} {i : Nat} {nd : Node} (hnd : a[i]? = some nd) (n : Nat) :
    (a.modify i fun x => { x with retain := n }).retainAt i = n := by
  simp [Arena.retainAt, Arena.modify, Array.getElem?_modify, hnd]

end Arena

namespace Pool

open TreeArena.Tree

variable {p : Pool} {w : Nat → Nat} {ts : List Tree} {c : Ctx} {nd : Node} {ks : List Tree}
  {t : Tree}

theorem retain_pinned {c : Ctx} {h : Node} {ks : List Tree} (hS : p.Sound w (c.fill [node h ks]))
    (hp : h.pinned = true) : (retain h.slot).run p = .ok () p := by
  have hl : p.nodes.toList = c.before ++ h :: (layout ks ++ c.after) := by
    rw [← hS.laid.layout_eq, Ctx.layout_fill]
    simp
  have hpos : p.position h.slot = c.pos := hS.laid.position_fill
  rw [retain, run_get_bind, hpos]
  dsimp only
  rw [show c.pos = c.before.length from rfl, Arena.pinnedAt_of_toList hl, hp]
  rfl

theorem release_pinned {c : Ctx} {h : Node} {ks : List Tree} (hS : p.Sound w (c.fill [node h ks]))
    (hp : h.pinned = true) : (release h.slot).run p = .ok () p := by
  have hl : p.nodes.toList = c.before ++ h :: (layout ks ++ c.after) := by
    rw [← hS.laid.layout_eq, Ctx.layout_fill]
    simp
  have hd : 0 < p.depth := by unfold depth; omega
  obtain ⟨f, hf⟩ : ∃ f, p.depth = f + 1 := ⟨p.depth - 1, by omega⟩
  have hpos : p.position h.slot = c.pos := hS.laid.position_fill
  rw [release, run_get_bind, hf, releaseWithin, run_get_bind, hpos]
  dsimp only
  rw [show c.pos = c.before.length from rfl, Arena.pinnedAt_of_toList hl, hp]
  rfl

/-- In a pool that keeps its invariant, a live identifier names a pinned record exactly when it is
the failure node's. -/
theorem Kept.pinned_iff (hK : p.Kept w (c.fill [node nd ks])) {id : NodeId}
    (hr : (p.slots.resolve id).isSome) (hs : nd.slot = id.slot) : nd.pinned = true ↔ id = p.failure := by
  have hP : nd.Proper p.failure.slot c.up.isEmpty := hK.every_fill.head
  rw [hP.pinned_iff, hs]
  exact ⟨fun h => SlotTable.eq_of_resolve_isSome hr hK.failure_live h, fun h => by rw [h]⟩

theorem Kept.pinned_eq_false_of_up (hK : p.Kept w (c.fill [t])) (hup : c.up ≠ []) :
    t.head.pinned = false := by
  have hP := hK.every_fill.head
  rw [show c.up.isEmpty = false by simpa using hup] at hP
  exact hP.pinned_eq_false hP.kind_ne

theorem Kept.pinned_eq_false_of_children (hK : p.Kept w (c.fill [node nd ks]))
    (hc : nd.children ≠ 0) : nd.pinned = false := by
  have hP := hK.every_fill.head
  exact hP.pinned_eq_false (hP.kind_ne_of_children hc)


/-! ### Taking a unit and giving it back -/

/-- A live record that is not pinned holds at least one unit: its parent's edge or an owner's. -/
theorem Kept.retain_ne_zero {c : Ctx} {nd : Node} {ks : List Tree}
    (hK : p.Kept w (c.fill [node nd ks])) (hpn : nd.pinned = false) : nd.retain ≠ 0 := by
  have hheld := (held_node_iff.mp hK.sound.held_fill).1
  unfold Node.Holds at hheld
  rw [hpn] at hheld
  simp only [Bool.false_eq_true, false_or] at hheld
  cases hup : c.up with
  | nil =>
    -- a root is owned
    have hmem : node nd ks ∈ c.fill [node nd ks] := by simp [Ctx.fill, hup, Frame.closeAll]
    have := hK.owed _ hmem hpn
    simp only [hup, List.isEmpty_nil, if_true] at hheld
    simp only [head] at this
    omega
  | cons f fs =>
    simp only [hup, List.isEmpty_cons, Bool.false_eq_true, if_false] at hheld
    omega

/-- A live record that is not pinned holds at most its parent's edge and its owners' units. -/
theorem Kept.retain_le {c : Ctx} {nd : Node} {ks : List Tree}
    (hK : p.Kept w (c.fill [node nd ks])) (hpn : nd.pinned = false) : nd.retain ≤ 1 + w nd.slot := by
  have hheld := (held_node_iff.mp hK.sound.held_fill).1
  unfold Node.Holds at hheld
  rw [hpn] at hheld
  simp only [Bool.false_eq_true, false_or] at hheld
  split at hheld <;> omega

/-- Giving back a unit just taken on a record that held one already restores the pool. -/
theorem release_retain {p p' : Pool} {s : Nat} (hrun : (retain s).run p = .ok () p')
    (hpos : p.nodes.retainAt (p.position s) ≠ 0) : (release s).run p' = .ok () p := by
  unfold retain at hrun
  rw [run_get_bind] at hrun
  dsimp only at hrun
  rw [release, run_get_bind, show p'.depth = (2 * p'.nodes.size + 1) + 1 from rfl, releaseWithin,
    run_get_bind]
  dsimp only
  split at hrun
  · -- a pinned record holds no count, and nothing changed
    rename_i hpin
    obtain rfl : p = p' := by simpa using hrun
    rw [if_pos hpin]
    rfl
  · rename_i hpin
    split at hrun
    · cases hrun
    rw [run_setRetain] at hrun
    obtain rfl := (EStateM.Result.ok.inj hrun).2
    obtain ⟨nd, hnd⟩ : ∃ nd, p.nodes[p.position s]? = some nd := by
      cases h : p.nodes[p.position s]? with
      | none => simp [Arena.retainAt, h] at hpos
      | some nd => exact ⟨nd, rfl⟩
    have hc : p.nodes.retainAt (p.position s) = nd.retain := by simp [Arena.retainAt, hnd]
    have hposeq : ∀ a : Arena, ({ p with nodes := a } : Pool).position s = p.position s :=
      fun _ => rfl
    simp only [hposeq, Arena.pinnedAt_modify_retain, Arena.retainAt_modify_retain hnd,
      if_neg hpin, hc]
    rw [hc] at hpos
    -- the count goes back down without reaching zero, so nothing is destroyed
    have hlow : lower (nd.retain + 1) = nd.retain := by simp [lower]
    rw [hlow, run_bind_ok (run_setRetain _ _ _), if_neg (by omega)]
    simp only [Arena.modify_retain_restore hnd]
    rfl

end Pool

namespace Heap

open Pool TreeArena.Tree

variable {h : Heap} {own : List Handle}

/-- The handles the client owns after a run that returns `r`: `r` joins them when it owns a
unit. -/
def gain (h : Heap) (r : Handle) (own : List Handle) : List Handle :=
  if h.owns r then r :: own else own

theorem owns_iff {r : Handle} : h.owns r = true ↔ ∃ k p i, h.Finds r k p i ∧ r.id ≠ p.failure := by
  unfold owns
  constructor
  · intro ho
    split at ho
    · cases ho
    · rename_i p hp
      obtain ⟨k, hk, hkp⟩ := Option.bind_eq_some_iff.mp hp
      simp only [Bool.and_eq_true, bne_iff_ne, ne_eq] at ho
      obtain ⟨i, hi⟩ := Option.isSome_iff_exists.mp ho.1
      exact ⟨k, p, i, ⟨hk, hkp, hi⟩, ho.2⟩
  · rintro ⟨k, p, i, hf, hne⟩
    simp [hf.home, hf.pool, hf.resolve, hne]

theorem owns_cleared (r : Handle) : h.owns r.cleared = false := by
  cases ho : h.owns r.cleared
  · rfl
  · obtain ⟨k, p, i, hf, -⟩ := owns_iff.mp ho
    have := hf.resolve
    simp [Handle.cleared, SlotTable.resolve] at this

theorem owns_undefinedIn (k : Nat) : h.owns (Handle.undefinedIn k) = false := by
  cases ho : h.owns (Handle.undefinedIn k)
  · rfl
  · obtain ⟨k, p, i, hf, -⟩ := owns_iff.mp ho
    have := hf.resolve
    simp [Handle.undefinedIn, SlotTable.resolve] at this

theorem owns_of_finds {r : Handle} {k : Nat} {p : Pool} {i : Nat} (hf : h.Finds r k p i) :
    h.owns r = true ↔ r.id ≠ p.failure := by
  rw [owns_iff]
  constructor
  · rintro ⟨k', p', i', hf', hne⟩
    obtain ⟨-, rfl, -⟩ := hf.unique hf'
    exact hne
  · exact fun hne => ⟨k, p, i, hf, hne⟩

/-- After a step on pool `k` that only frees slots, a handle that owns a unit owned one before. -/
theorem owns_of_steps {k : Nat} {p p' : Pool} (hp : h.pools[k]? = some p) {P : Nat → Prop}
    (hst : p.Steps P p') {x : Handle} (hx : owns ⟨h.pools.setIfInBounds k p'⟩ x = true) :
    h.owns x = true := by
  obtain ⟨k₁, q, i, hf, hne⟩ := owns_iff.mp hx
  have hq := hf.pool
  rw [getElem?_setIfInBounds_pools hp] at hq
  split at hq
  · subst_vars
    cases hq
    obtain ⟨a, t, rfl, hfr⟩ := hst
    obtain ⟨j, hj⟩ := Option.isSome_iff_exists.mp
      (hfr.resolve_isSome_of_after (Option.isSome_iff_exists.mpr ⟨i, hf.resolve⟩))
    exact owns_iff.mpr ⟨k₁, p, j, ⟨hf.home, hp, hj⟩, hne⟩
  · exact owns_iff.mpr ⟨k₁, q, i, ⟨hf.home, hq, hf.resolve⟩, hne⟩

theorem owns_of_steps_false {k : Nat} {p p' : Pool} (hp : h.pools[k]? = some p)
    (hst : p.Steps (fun _ => False) p') (x : Handle) :
    owns ⟨h.pools.setIfInBounds k p'⟩ x = h.owns x := by
  apply Bool.eq_iff_iff.mpr
  refine ⟨owns_of_steps hp hst, fun hx => ?_⟩
  obtain ⟨k₁, q, i, hf, hne⟩ := owns_iff.mp hx
  by_cases hk : k₁ = k
  · subst hk
    obtain rfl : q = p := Option.some.inj (hf.pool.symm.trans hp)
    obtain ⟨a, t, rfl, hfr⟩ := hst
    obtain ⟨j, hj⟩ := Option.isSome_iff_exists.mp
      (hfr.resolve_isSome id (Option.isSome_iff_exists.mpr ⟨i, hf.resolve⟩))
    exact owns_iff.mpr ⟨k₁, { q with nodes := a, slots := t }, j,
      ⟨hf.home, by simp [getElem?_setIfInBounds_pools hp], hj⟩, hne⟩
  · refine owns_iff.mpr ⟨k₁, q, i, ⟨hf.home, ?_, hf.resolve⟩, hne⟩
    rw [getElem?_setIfInBounds_pools hp, if_neg (Ne.symm hk)]
    exact hf.pool

theorem guarded_onPool_none {α : Type} {m : PoolM α} {k : Nat} {Q : α → Heap → Prop}
    (hp : h.pools[k]? = none) : Guarded (onPool k m) h Q := by
  have hrun : (onPool k m).run h = .error .undefinedHandle h := by
    show onPool k m h = _
    unfold onPool
    rw [hp]
  unfold Guarded
  rw [hrun]

theorem owns_setIfInBounds {k : Nat} {p p' : Pool} (hp : h.pools[k]? = some p) {x : Handle}
    (hx : x.home = some k) :
    Heap.owns ⟨h.pools.setIfInBounds k p'⟩ x = ((p'.slots.resolve x.id).isSome && x.id != p'.failure) := by
  simp [owns, hx, getElem?_setIfInBounds_pools hp]

/-- A run of a pool operation on pool `k` is guarded when the operation faults only with the pool
as it was. -/
theorem guarded_onPool {α : Type} {m : PoolM α} {k : Nat} {p : Pool} {Q : α → Heap → Prop}
    (hp : h.pools[k]? = some p)
    (hm : (∃ e, m.run p = .error e p) ∨ ∃ a p', m.run p = .ok a p' ∧ Q a ⟨h.pools.setIfInBounds k p'⟩) :
    Guarded (onPool k m) h Q := by
  rcases hm with ⟨e, he⟩ | ⟨a, p', hm, hQ⟩
  · unfold Guarded
    rw [run_onPool_error hp he, setIfInBounds_self hp]
  · exact Guarded.of_ok (run_onPool_ok hp hm) hQ

/-- An operation on pool `k` that keeps its invariant for some of the handles, the same in the
other pools, and frees only slots those owe nothing, keeps the heap exact for them. -/
theorem Exact.follows_sub (hE : h.Exact own) {k : Nat} {p p' : Pool} (hp : h.pools[k]? = some p)
    {own' : List Handle} (hsub : ∀ r ∈ own', r ∈ own)
    (hother : ∀ k', k' ≠ k → (inPool own' k').Perm (inPool own k')) {P : Nat → Prop}
    (hf : p.Follows P p') (hP : ∀ s, P s → units own' k s = 0) {ts : List Tree}
    (hK : p'.Kept (addUnit (units own' k) p.failure.slot) ts) :
    Exact ⟨h.pools.setIfInBounds k p'⟩ own' := by
  refine hE.onPool hp ⟨⟨ts, hf.failure_eq ▸ hK⟩, fun r hr hk => ?_⟩ hother
    fun r hr => hE.homes r (hsub r hr)
  obtain ⟨hres, hne⟩ := (hE.pools k p hp).2 r (hsub r hr) hk
  refine ⟨hf.resolve_isSome (fun hPs => ?_) hres, hf.failure_eq ▸ hne⟩
  have : 0 < units own' k r.slot := List.countP_pos_iff.mpr ⟨r, hr, by simp [hk]⟩
  exact absurd (hP _ hPs) (Nat.pos_iff_ne_zero.mp this)

/-- An operation on pool `k` that keeps its invariant for the same handles, and frees only slots
they owe nothing, keeps the heap exact. -/
theorem Exact.follows (hE : h.Exact own) {k : Nat} {p p' : Pool} (hp : h.pools[k]? = some p)
    {P : Nat → Prop} (hf : p.Follows P p') (hP : ∀ s, P s → units own k s = 0) {ts : List Tree}
    (hK : p'.Kept (addUnit (units own k) p.failure.slot) ts) :
    Exact ⟨h.pools.setIfInBounds k p'⟩ own :=
  hE.follows_sub hp (fun _ h => h) (fun _ _ => .refl _) hf hP hK

/-- An operation on pool `k` that owes one unit more to the record a handle of the pool names,
and frees nothing, keeps the heap exact with that handle owned. -/
theorem Exact.follows_gain (hE : h.Exact own) {k : Nat} {p p' : Pool} (hp : h.pools[k]? = some p)
    {r : Handle} (hr : r.home = some k) (hf : p.Follows (fun _ => False) p') {ts : List Tree}
    (hK : p'.Kept (addUnit (addUnit (units own k) p.failure.slot) r.slot) ts)
    (hres : (p'.slots.resolve r.id).isSome) (hne : r.id ≠ p.failure) :
    Exact ⟨h.pools.setIfInBounds k p'⟩ (r :: own) := by
  have hw : addUnit (units (r :: own) k) p'.failure.slot =
      addUnit (addUnit (units own k) p.failure.slot) r.slot := by
    rw [units_cons_self hr, hf.failure_eq, addUnit_comm]
  refine hE.onPool hp ⟨⟨ts, hw ▸ hK⟩, fun r' hr' hk => ?_⟩ (fun k' hk' => ?_) fun r' hr' => ?_
  · rcases List.mem_cons.mp hr' with rfl | hr'
    · exact ⟨hres, hf.failure_eq ▸ hne⟩
    · obtain ⟨hres', hne'⟩ := (hE.pools k p hp).2 r' hr' hk
      exact ⟨hf.resolve_isSome id hres', hf.failure_eq ▸ hne'⟩
  · simp [inPool, hr, Ne.symm hk']
  · rcases List.mem_cons.mp hr' with rfl | hr'
    · exact ⟨k, hr, (Array.getElem?_eq_some_iff.mp hp).1⟩
    · exact hE.homes r' hr'

/-! ### Copying and releasing -/

/-- Copying a handle that owns a unit owns one unit more; copying any other handle changes
nothing. No handle's ownership changes, and the copy owns a unit only if it is the handle
copied. -/
theorem Exact.copy (hE : h.Exact own) (r : Handle) :
    Guarded (copy r) h fun c h' => h'.Exact (gain h' c own) ∧ (∀ x, h'.owns x = h.owns x) ∧
      (h'.owns c = true → c = r) ∧ Tables (SlotTable.Frees fun _ => True) h h' := by
  unfold Heap.copy
  refine guarded_get_bind ?_
  split
  · refine guarded_pure ⟨?_, fun _ => rfl, (fun hc => by rw [owns_cleared] at hc; cases hc),
      Tables.refl (SlotTable.Frees.refl _) h⟩
    rw [gain, owns_cleared]
    exact hE
  · rename_i hd
    obtain ⟨k, p, i, hf⟩ := isDefined_iff_finds.mp (by simpa using hd)
    refine hf.reads_homeOf.bind fun k' hk' => ?_
    subst hk'
    obtain ⟨c, nd, ks, hK, hslot, -⟩ := hE.site hf
    have hrs : r.slot = nd.slot := hslot.symm
    have hres : (p.slots.resolve r.id).isSome := by simp [hf.resolve]
    have hpin := hK.pinned_iff hres hslot
    refine Guarded.bind_ok (guarded_onPool hf.pool ?_) fun _ h' hQ => returns_pure hQ
    rw [hrs]
    cases hpn : nd.pinned
    · -- a record other than the failure node owes one unit more
      have hne : r.id ≠ p.failure := fun heq => by simp [hpn] at hpin; exact hpin heq
      rcases hK.retain with ⟨-, -, hover⟩ | ⟨p', hrun, hK', hst⟩
      · exact .inl ⟨_, hover⟩
      refine .inr ⟨(), p', hrun, ?_⟩
      have hsame := owns_of_steps_false hf.pool hst
      have hown : Heap.owns ⟨h.pools.setIfInBounds k p'⟩ r = true :=
        (hsame r).trans ((owns_of_finds hf).mpr hne)
      refine ⟨?_, hsame, fun _ => rfl,
        tables_set (SlotTable.Frees.refl _) hf.pool (hst.frees.mono fun _ h => h.elim)⟩
      rw [gain, hown, if_pos rfl]
      obtain ⟨i', hi'⟩ := Option.isSome_iff_exists.mp (hst.follows.resolve_isSome id hres)
      exact hE.follows_gain hf.pool hf.home hst.follows (hrs ▸ hK') (by simp [hi']) hne
    · -- the failure node holds no count: nothing changes
      refine .inr ⟨(), p, retain_pinned hK.sound hpn, ?_⟩
      have hno : h.owns r = false := by
        simpa using mt (owns_of_finds hf).mp (not_not.mpr (hpin.mp hpn))
      rw [setIfInBounds_self hf.pool, gain, hno]
      exact ⟨hE, fun _ => rfl, fun _ => rfl, Tables.refl (SlotTable.Frees.refl _) h⟩

/-- Copying returns when the handles own fewer than `maxCount - 1` units on the copied slot: the
record's count, at most its parent's edge and those units, cannot be at its largest. -/
theorem Exact.copy_returns (hE : h.Exact own) {r : Handle}
    (hu : ∀ k, r.home = some k → units own k r.slot + 1 < maxCount) :
    Returns (Heap.copy r) h fun c _ => h.isDefined r = true → c = r := by
  unfold Heap.copy
  refine returns_get_bind ?_
  split
  · rename_i hnd
    exact returns_pure fun hd => by simp [hd] at hnd
  · rename_i hd
    obtain ⟨k, p, i, hf⟩ := isDefined_iff_finds.mp (by simpa using hd)
    refine (returns_homeOf hf.home).bind fun a h₁ hah => ?_
    obtain ⟨rfl, rfl⟩ := hah
    obtain ⟨c, nd, ks, hK, hslot, -⟩ := hE.site hf
    have hrs : r.slot = nd.slot := hslot.symm
    rcases hK.retain with ⟨hpn, hmax, -⟩ | ⟨p', hrun, -, -⟩
    · -- at its largest count the record would hold more units than the handles own
      have hP : nd.Proper p.failure.slot c.up.isEmpty := hK.every_fill.head
      have hsf : nd.slot ≠ p.failure.slot := fun heq => by
        have := hP.pinned_iff.mpr heq
        rw [hpn] at this
        cases this
      have hle := hK.retain_le hpn
      rw [addUnit_of_ne _ hsf, ← hrs] at hle
      have := hu a hf.home
      omega
    · rw [← hrs] at hrun
      exact (returns_onPool hf.pool hrun).bind fun _ _ _ => returns_pure fun _ => rfl

theorem run_copy_undefined {r : Handle} (hnd : h.isDefined r = false) :
    (Heap.copy r).run h = .ok r.cleared h := by
  unfold Heap.copy
  simp [hnd]

/-- A live handle that owns nothing names its pool's failure node. -/
theorem Exact.isFailure_of_owns_false (hE : h.Exact own) {r : Handle} (hd : h.isDefined r = true)
    (hno : h.owns r = false) : h.isFailure r = true := by
  obtain ⟨k, p, i, hf⟩ := isDefined_iff_finds.mp hd
  have hid : r.id = p.failure := by
    by_contra hne
    rw [(owns_of_finds hf).mpr hne] at hno
    cases hno
  obtain ⟨c, nd, ks, hK, hslot, rfl⟩ := hE.site hf
  have hres : (p.slots.resolve r.id).isSome := by simp [hf.resolve]
  have hP : nd.Proper p.failure.slot c.up.isEmpty := hK.every_fill.head
  have hkind := (hP.pinned_spec ((hK.pinned_iff hres hslot).mpr hid)).1
  rw [isFailure_of_finds hf, hK.sound.kindAt_pos, hkind]
  rfl

theorem inPool_erase_perm {r : Handle} {k k' : Nat} (hr : r.home = some k) (hk : k' ≠ k) :
    (inPool (own.erase r) k').Perm (inPool own k') := by
  by_cases hm : r ∈ own
  · have := (List.perm_cons_erase hm).filter (fun r => decide (r.home = some k'))
    rw [List.filter_cons_of_neg (by simp [hr, Ne.symm hk])] at this
    exact this.symm
  · rw [List.erase_of_not_mem hm]

/-- Releasing an owned handle gives its unit back and drops it; releasing a handle that owns
nothing changes nothing. Every other owned handle still names a live record, no handle owns a
unit it did not own before, and the tables only free slots. -/
theorem Exact.release (hE : h.Exact own) {r : Handle} (hr : h.owns r = true → r ∈ own) :
    Returns (release r) h fun c h' => c = r.cleared ∧ h'.Exact (own.erase r) ∧
      (∀ x, h'.owns x = true → h.owns x = true) ∧ Tables (SlotTable.Frees fun _ => True) h h' := by
  unfold Heap.release
  refine returns_get_bind ?_
  have hnot : h.owns r = false → own.erase r = own := fun hno =>
    List.erase_of_not_mem fun hm => by rw [hE.owns hm] at hno; cases hno
  split
  · rename_i hd
    obtain ⟨k, p, i, hf⟩ := isDefined_iff_finds.mp hd
    obtain ⟨c, nd, ks, hK, hslot, -⟩ := hE.site hf
    have hrs : r.slot = nd.slot := hslot.symm
    have hres : (p.slots.resolve r.id).isSome := by simp [hf.resolve]
    have hpin := hK.pinned_iff hres hslot
    -- the pool operation returns, freeing only what the other handles owe nothing
    obtain ⟨p', hrun, hst, hE'⟩ : ∃ p', (Pool.release r.slot).run p = .ok () p' ∧
        p.Steps (fun _ => True) p' ∧ Exact ⟨h.pools.setIfInBounds k p'⟩ (own.erase r) := by
      rw [hrs]
      cases hpn : nd.pinned
      · -- the handle owns its unit, which goes back to the record
        have hne : r.id ≠ p.failure := fun heq => by simp [hpn] at hpin; exact hpin heq
        have hmem : r ∈ own := hr ((owns_of_finds hf).mpr hne)
        have hu : units own k = units (r :: own.erase r) k :=
          units_congr (by unfold inPool; exact (List.perm_cons_erase hmem).filter _)
        have hw : addUnit (units own k) p.failure.slot =
            addUnit (addUnit (units (own.erase r) k) p.failure.slot) nd.slot := by
          rw [hu, units_cons_self hf.home, hrs, addUnit_comm]
        obtain ⟨p', ts', hrun, -, hK', hst⟩ := (hw ▸ hK).release (by simp)
        refine ⟨p', hrun, hst.mono fun _ _ => trivial, ?_⟩
        refine hE.follows_sub hf.pool (fun _ h => List.mem_of_mem_erase h)
          (fun k' hk' => inPool_erase_perm hf.home hk') hst.follows ?_ hK'
        intro s hs
        by_cases hsf : s = p.failure.slot
        · subst hsf
          simp at hs
        · rw [addUnit_of_ne _ hsf] at hs
          exact hs
      · -- the failure node keeps its count
        refine ⟨p, release_pinned hK.sound hpn, Steps.refl _ p, ?_⟩
        have hno : h.owns r = false := by
          simpa using mt (owns_of_finds hf).mp (not_not.mpr (hpin.mp hpn))
        rw [setIfInBounds_self hf.pool, hnot hno]
        exact hE
    dsimp only
    refine (returns_homeOf hf.home).bind fun a h₁ ⟨ha, hh⟩ => ?_
    subst a h₁
    refine (returns_onPool hf.pool hrun).bind fun b h₂ ⟨_, hh⟩ => ?_
    subst h₂
    exact returns_pure ⟨rfl, hE', fun x hx => owns_of_steps hf.pool hst hx,
      tables_set (SlotTable.Frees.refl _) hf.pool hst.frees⟩
  · rename_i hnd
    dsimp only
    refine returns_pure ⟨rfl, ?_, fun _ hx => hx, Tables.refl (SlotTable.Frees.refl _) h⟩
    have hno : h.owns r = false := by
      cases ho : h.owns r
      · rfl
      · obtain ⟨k, p, i, hf, -⟩ := owns_iff.mp ho
        exact absurd (isDefined_iff_finds.mpr ⟨k, p, i, hf⟩) hnd
    rw [hnot hno]
    exact hE

/-- A handle the client holds is held still after a call that changed no ownership. -/
theorem mem_gain_of_owns {h₁ : Heap} {r c : Handle} (hsame : ∀ x, h₁.owns x = h.owns x)
    (hr : h.owns r = true → r ∈ own) : h₁.owns r = true → r ∈ gain h₁ c own := fun ho => by
  have hmem := hr ((hsame r).symm.trans ho)
  unfold gain
  split
  · exact List.mem_cons_of_mem _ hmem
  · exact hmem

/-- Assigning a handle to another one gives back the assigned handle's unit and owns one of the
other's node, when that handle owns one. -/
theorem Exact.assign (hE : h.Exact own) {r o : Handle} (hr : h.owns r = true → r ∈ own)
    (hne : r ≠ o) : Guarded (assign r o) h fun c h' => h'.Exact (gain h' c (own.erase r)) := by
  unfold Heap.assign
  split
  · rename_i heq
    exact absurd heq hne
  refine Guarded.bind_ok (hE.copy o) fun c h₁ ⟨hE₁, hsame, hco, _⟩ => ?_
  refine (hE₁.release (mem_gain_of_owns hsame hr)).bind fun _ h₂ ⟨_, hE₂, hback, _⟩ => returns_pure ?_
  -- the copy owns a unit after the release exactly when it did before
  unfold gain at hE₂ ⊢
  by_cases hc : h₁.owns c = true
  · have hcr : c ≠ r := fun heq => hne (heq ▸ hco hc)
    rw [if_pos hc, List.erase_cons_tail (by simpa using hcr)] at hE₂
    rw [if_pos (hE₂.owns List.mem_cons_self)]
    exact hE₂
  · have hc₂ : h₂.owns c = false := by
      cases ho : h₂.owns c
      · rfl
      · exact absurd (hback c ho) hc
    rw [if_neg hc] at hE₂
    rw [if_neg (by simp [hc₂])]
    exact hE₂

/-! ### Owning handles on records found by navigation -/

theorem returns_release_of_finds {r : Handle} {k : Nat} {p p' : Pool} {i : Nat}
    (hf : h.Finds r k p i) (hm : (Pool.release r.slot).run p = .ok () p') :
    Returns (release r) h fun c h' => c = r.cleared ∧ h' = ⟨h.pools.setIfInBounds k p'⟩ := by
  unfold Heap.release
  refine returns_get_bind ?_
  rw [if_pos (isDefined_iff_finds.mpr ⟨k, p, i, hf⟩)]
  dsimp only
  refine (returns_homeOf hf.home).bind fun a h₁ ⟨ha, hh⟩ => ?_
  subst a h₁
  refine (returns_onPool hf.pool hm).bind fun b h₂ ⟨_, hh⟩ => ?_
  subst h₂
  exact returns_pure ⟨rfl, rfl⟩

/-- Taking an owning handle on a live record that is not pinned owes it one unit more and changes
no handle's ownership; giving the handle back restores the heap exactly. -/
theorem Exact.own_slot (hE : h.Exact own) {k : Nat} {p : Pool} (hp : h.pools[k]? = some p) {c : Ctx}
    {nd : Node} {ks : List Tree}
    (hK : p.Kept (addUnit (units own k) p.failure.slot) (c.fill [node nd ks]))
    (hpn : nd.pinned = false) :
    Guarded (Heap.own k nd.slot) h fun r h' =>
      h'.Exact (gain h' r own) ∧ (∀ x, h'.owns x = h.owns x) ∧
        (Heap.release r).run h' = .ok r.cleared h ∧ Tables (SlotTable.Frees fun _ => True) h h' := by
  unfold Heap.own
  have hP : nd.Proper p.failure.slot c.up.isEmpty := hK.every_fill.head
  have hnf : nd.slot ≠ p.failure.slot := fun hs => by
    rw [← hP.pinned_iff, hpn] at hs
    cases hs
  rcases hK.retain with ⟨-, -, hover⟩ | ⟨p', hrun, hK', hst⟩
  · exact Guarded.bind_ok (Q := fun _ _ => False) (guarded_onPool hp (.inl ⟨_, hover⟩))
      fun _ _ h => h.elim
  refine Guarded.bind_ok (Q := fun _ h' => h' = ⟨h.pools.setIfInBounds k p'⟩)
    (guarded_onPool hp (.inr ⟨(), p', hrun, rfl⟩)) fun _ h' hh => ?_
  subst hh
  refine (returns_readPool (p := p') (by simp [getElem?_setIfInBounds_pools hp]) _).mono
    fun r h'' hrh => ?_
  obtain ⟨rfl, rfl⟩ := hrh
  rw [hpn] at hK'
  have hres : p'.slots.resolve (p'.slots.idOf nd.slot) = some c.pos := hK'.sound.resolve_idOf
  have hne : p'.slots.idOf nd.slot ≠ p.failure := fun heq => hnf (congrArg NodeId.slot heq)
  have hown : Heap.owns ⟨h.pools.setIfInBounds k p'⟩ ⟨some k, p'.slots.idOf nd.slot⟩ = true :=
    (owns_of_finds (p := p') ⟨rfl, by simp [getElem?_setIfInBounds_pools hp], hres⟩).mpr
      (hst.follows.failure_eq ▸ hne)
  rw [gain, hown, if_pos rfl]
  refine ⟨hE.follows_gain hp rfl hst.follows hK' (by simp [hres]) hne, owns_of_steps_false hp hst, ?_,
    tables_set (SlotTable.Frees.refl _) hp (hst.frees.mono fun _ h => h.elim)⟩
  -- the record held a unit already, so giving the new one back only lowers its count again
  have hpos : p.position nd.slot = c.pos := hK.sound.laid.position_fill
  have hback : (Pool.release nd.slot).run p' = .ok () p :=
    release_retain hrun (by rw [hpos, hK.sound.retainAt_pos]; exact hK.retain_ne_zero hpn)
  obtain ⟨_, _, hrel, rfl, rfl⟩ := returns_release_of_finds
    (h := ⟨h.pools.setIfInBounds k p'⟩) (r := ⟨some k, p'.slots.idOf nd.slot⟩)
    ⟨rfl, by simp [getElem?_setIfInBounds_pools hp], hres⟩ hback
  rw [hrel, Array.setIfInBounds_setIfInBounds, setIfInBounds_self hp]

/-- A child taken by its index owes one unit more; giving the handle back restores the heap. -/
theorem Exact.childAt (hE : h.Exact own) (r : Handle) (i : Int) :
    Guarded (childAt r i) h fun c h' =>
      h'.Exact (gain h' c own) ∧ (∀ x, h'.owns x = h.owns x) ∧
        (Heap.release c).run h' = .ok c.cleared h ∧ Tables (SlotTable.Frees fun _ => True) h h' := by
  unfold Heap.childAt
  refine guarded_locate_homeOf r fun k p off hf => ?_
  refine hf.reads_pool.bind fun q hq => ?_
  subst hq
  dsimp only
  split
  · exact guarded_throw _
  rename_i hi
  obtain ⟨c, nd, ks, hK, -, rfl⟩ := hE.site hf
  have hn : p.nodes.childrenAt c.pos = ks.length := by
    rw [hK.sound.childrenAt_pos, hK.sound.children_eq]
  have hm : i.toNat < ks.length := by omega
  -- the child is the root of a child hole, and has a parent, so it is not pinned
  rw [hK.sound.child_of_start hm]
  rw [← child_hole c nd hm, ← eta ks[i.toNat]] at hK
  rw [hK.sound.slotAt_pos]
  exact hE.own_slot hf.pool hK (by simpa using hK.pinned_eq_false_of_up (by simp [Ctx.child]))

/-- The parent taken owes one unit more; a root has none. -/
theorem Exact.parent (hE : h.Exact own) (r : Handle) :
    Guarded (parent r) h fun c h' =>
      h'.Exact (gain h' c own) ∧ Tables (SlotTable.Frees fun _ => True) h h' := by
  unfold Heap.parent
  refine guarded_locate_homeOf r fun k p off hf => ?_
  refine hf.reads_pool.bind fun q hq => ?_
  subst hq
  obtain ⟨c, nd, ks, hK, -, rfl⟩ := hE.site hf
  rw [Arena.parentOf_fill hK.sound.laid.layout_eq.symm hK.sound.wf]
  cases hc : c.up with
  | nil =>
    rw [show c.parent = none by simp [Ctx.parent, hc]]
    refine guarded_pure ⟨?_, Tables.refl (SlotTable.Frees.refl _) h⟩
    rw [gain, owns_undefinedIn]
    exact hE
  | cons f fs =>
    rw [show c.parent = some ⟨fs, c.left, c.right⟩ by simp [Ctx.parent, hc]]
    dsimp only [Option.map_some]
    rw [Ctx.eq_child_of_up hc, Ctx.child_fill] at hK
    rw [hK.sound.slotAt_pos]
    -- the parent has a child, so it is not pinned
    exact (hE.own_slot hf.pool hK
      (hK.pinned_eq_false_of_children (by rw [hK.sound.children_eq]; simp))).mono
        fun _ _ h => ⟨h.1, h.2.2.2⟩

/-! ### Allocating -/

theorem Exact.free_owes (hE : h.Exact own) {k : Nat} {p : Pool} (hp : h.pools[k]? = some p)
    {ts : List Tree} (hK : p.Kept (addUnit (units own k) p.failure.slot) ts) :
    ∀ s, p.slots.isFree s = true → addUnit (units own k) p.failure.slot s = 0 := by
  intro s hs
  have hsf : s ≠ p.failure.slot := fun heq => by
    rw [heq, hK.failure_isFree] at hs
    cases hs
  rw [addUnit_of_ne _ hsf, units, List.countP_eq_zero]
  intro r hr hdec
  simp only [decide_eq_true_eq] at hdec
  obtain ⟨hk, rfl⟩ := hdec
  have hres := ((hE.pools k p hp).2 r hr (by simpa using hk)).1
  have hfree := ((SlotTable.resolve_isSome_iff _ _).mp hres).2.2.2
  change p.slots.isFree r.id.slot = true at hs
  rw [hfree] at hs
  cases hs

/-- A new root in a free slot of pool `k`, owned by its identifier, keeps the heap exact with
the identifier's handle owned. -/
theorem Exact.allocated (hE : h.Exact own) {k : Nat} {p p' : Pool} (hp : h.pools[k]? = some p)
    {s : Nat} (hs : p.slots.isFree s = true) {ts : List Tree} {c : Ctx} {t : Tree}
    (hK : p'.Kept (addUnit (addUnit (units own k) p.failure.slot) s) (c.fill [t]))
    (hslot : t.head.slot = s) (hf : p.Follows (fun _ => False) p') (hKp : p.Kept (addUnit (units own k) p.failure.slot) ts) :
    Exact ⟨h.pools.setIfInBounds k p'⟩ (gain ⟨h.pools.setIfInBounds k p'⟩ ⟨some k, p'.slots.idOf s⟩ own) := by
  have hsf : s ≠ p.failure.slot := fun heq => by
    rw [heq, hKp.failure_isFree] at hs
    cases hs
  have hres : p'.slots.resolve (p'.slots.idOf s) = some c.pos := hslot ▸ hK.sound.resolve_idOf
  have hne : p'.slots.idOf s ≠ p.failure := fun heq => hsf (congrArg NodeId.slot heq)
  have hown : Heap.owns ⟨h.pools.setIfInBounds k p'⟩ ⟨some k, p'.slots.idOf s⟩ = true :=
    (owns_of_finds (p := p') ⟨rfl, by simp [getElem?_setIfInBounds_pools hp], hres⟩).mpr
      (hf.failure_eq ▸ hne)
  rw [gain, hown, if_pos rfl]
  exact hE.follows_gain hp rfl hf hK (by simp [hres]) hne

/-- Creating a node of a type that fits its byte owns the new node, or hands out the failure node
and changes nothing the invariant reads. -/
theorem Exact.create (hE : h.Exact own) (k : Nat) {kind : Nat} (hkind : kind < 256)
    (payload : List UInt8) : Guarded (create k kind payload) h fun c h' => h'.Exact (gain h' c own) := by
  unfold Heap.create
  cases hp : h.pools[k]? with
  | none => exact Guarded.bind_ok (Q := fun _ _ => False) (guarded_onPool_none hp) fun _ _ h => h.elim
  | some p =>
    obtain ⟨ts, hK⟩ := hE.kept hp
    rcases hK.create (hE.free_owes hp hK) hkind payload with ⟨p', hrun, hK', hf⟩ |
      ⟨s, p', hrun, hs, hK', hf, hid⟩
    · refine Guarded.bind_ok (Q := fun a h' => a = p.failure ∧ h' = ⟨h.pools.setIfInBounds k p'⟩)
        (guarded_onPool hp (.inr ⟨_, p', hrun, rfl, rfl⟩)) fun a h' hah => ?_
      obtain ⟨rfl, rfl⟩ := hah
      refine returns_pure ?_
      -- the failure node's handle owns nothing
      rw [gain, owns_setIfInBounds hp rfl, hf.failure_eq]
      simpa using hE.follows hp hf (fun _ h => h.elim) hK'
    · refine Guarded.bind_ok (Q := fun a h' => a = p.slots.idOf s ∧ h' = ⟨h.pools.setIfInBounds k p'⟩)
        (guarded_onPool hp (.inr ⟨_, p', hrun, rfl, rfl⟩)) fun a h' hah => ?_
      obtain ⟨rfl, rfl⟩ := hah
      refine returns_pure ?_
      rw [← hid]
      exact hE.allocated hp hs (c := Ctx.top ts []) (by simpa [Ctx.top_fill] using hK') rfl hf hK

/-- Cloning a subtree owns the copy, or hands out the failure node and changes nothing the
invariant reads. -/
theorem Exact.clone (hE : h.Exact own) (r : Handle) :
    Guarded (clone r) h fun c h' => h'.Exact (gain h' c own) := by
  unfold Heap.clone
  refine guarded_locate_homeOf r fun k p off hf => ?_
  obtain ⟨c, nd, ks, hK, -, rfl⟩ := hE.site hf
  rcases hK.cloneAt (hE.free_owes hf.pool hK) with ⟨p', hrun, hK', hfo⟩ |
    ⟨T, p', hrun, hs, hK', hfo⟩
  · refine Guarded.bind_ok (Q := fun a h' => a = p.failure ∧ h' = ⟨h.pools.setIfInBounds k p'⟩)
      (guarded_onPool hf.pool (.inr ⟨_, p', hrun, rfl, rfl⟩)) fun a h' hah => ?_
    obtain ⟨rfl, rfl⟩ := hah
    refine returns_pure ?_
    rw [gain, owns_setIfInBounds hf.pool rfl, hfo.failure_eq]
    simpa using hE.follows hf.pool hfo (fun _ h => h.elim) hK'
  · refine Guarded.bind_ok
      (Q := fun a h' => a = p'.slots.idOf T.head.slot ∧ h' = ⟨h.pools.setIfInBounds k p'⟩)
      (guarded_onPool hf.pool (.inr ⟨_, p', hrun, rfl, rfl⟩)) fun a h' hah => ?_
    obtain ⟨rfl, rfl⟩ := hah
    exact returns_pure (hE.allocated hf.pool hs (c := Ctx.top (c.fill [node nd ks]) [])
      (by simpa [Ctx.top_fill] using hK') rfl hfo hK)

/-- Reading an encoded tree owns the new root, hands out the failure node changing nothing the
invariant reads, or changes nothing at all for malformed bytes. The handle returned is of pool
`k`, and a new root it owns is in a slot no handle owned before. -/
theorem Exact.decodeInto (hE : h.Exact own) (k : Nat) (data : List UInt8) :
    Guarded (decodeInto k data) h fun res h' =>
      h'.Exact (res.toOption.elim own fun c => gain h' c own) ∧
        ∀ c, res = .ok c → c.home = some k ∧ (h'.owns c = true → units own k c.slot = 0) := by
  unfold Heap.decodeInto
  cases hp : h.pools[k]? with
  | none => exact Guarded.bind_ok (Q := fun _ _ => False) (guarded_onPool_none hp) fun _ _ h => h.elim
  | some p =>
    obtain ⟨ts, hK⟩ := hE.kept hp
    rcases hK.importTree (hE.free_owes hp hK) data with ⟨e, hrun⟩ | ⟨p', hrun, hK', hfo⟩ |
      ⟨T, p', hrun, hs, hK', hfo⟩
    · refine Guarded.bind_ok (Q := fun a h' => a = .error e ∧ h' = h)
        (guarded_onPool hp (.inr ⟨_, p, hrun, rfl, setIfInBounds_self hp⟩)) fun a h' hah => ?_
      obtain ⟨rfl, rfl⟩ := hah
      exact returns_pure ⟨hE, fun c hc => by cases hc⟩
    · refine Guarded.bind_ok
        (Q := fun a h' => a = .ok (.failure p.failure) ∧ h' = ⟨h.pools.setIfInBounds k p'⟩)
        (guarded_onPool hp (.inr ⟨_, p', hrun, rfl, rfl⟩)) fun a h' hah => ?_
      obtain ⟨rfl, rfl⟩ := hah
      -- the failure node's handle owns nothing
      have hno : Heap.owns ⟨h.pools.setIfInBounds k p'⟩ ⟨some k, p.failure⟩ = false := by
        rw [owns_setIfInBounds hp rfl, hfo.failure_eq]
        simp
      refine returns_pure ⟨?_, fun c hc => ?_⟩
      · simp only [Except.toOption, Option.elim]
        rw [gain, hno]
        simpa using hE.follows hp hfo (fun _ h => h.elim) hK'
      · cases hc
        exact ⟨rfl, fun ho => by rw [hno] at ho; cases ho⟩
    · refine Guarded.bind_ok
        (Q := fun a h' => a = .ok (.root (p'.slots.idOf T.head.slot)) ∧
          h' = ⟨h.pools.setIfInBounds k p'⟩)
        (guarded_onPool hp (.inr ⟨_, p', hrun, rfl, rfl⟩)) fun a h' hah => ?_
      obtain ⟨rfl, rfl⟩ := hah
      refine returns_pure ⟨hE.allocated hp hs (c := Ctx.top ts []) (by simpa [Ctx.top_fill] using hK')
        rfl hfo hK, fun c hc => ?_⟩
      cases hc
      -- the new root's slot was free, so no handle owned it
      have hfree := hE.free_owes hp hK _ hs
      exact ⟨rfl, fun _ => Nat.eq_zero_of_le_zero (hfree ▸ addUnit_le _ _ _)⟩

theorem Exact.setLimit (hE : h.Exact own) (k : Nat) (n : Int) :
    Guarded (Heap.onPool k (Pool.setLimit n)) h fun _ h' => h'.Exact own := by
  cases hp : h.pools[k]? with
  | none => exact guarded_onPool_none hp
  | some p =>
    obtain ⟨ts, hK⟩ := hE.kept hp
    have hf : p.Follows (fun _ => False) (p.withLimit n) := follows_of_slots rfl rfl
    exact guarded_onPool hp (.inr ⟨(), _, run_setLimit n p,
      hE.follows hp hf (fun _ h => h.elim) (hK.withLimit n)⟩)

end Heap

end TreeArena
