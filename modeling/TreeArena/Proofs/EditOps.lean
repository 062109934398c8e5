import TreeArena.Proofs.HandleOps

/-!
# Edits keep the accounting exact

Every edit checks its arguments with reads and then runs one pool operation: attaching, cutting,
substituting, splicing, dropping children or degrading. Each of those keeps the pool's invariant
for the units the client's handles own, and frees only slots that no handle owns, so an edit keeps
the heap exact for the same handles (`Heap.Keeps`), and none of them comes to own a unit it did
not own before. A fault stops an edit before it changes anything.

The checks are what make the pool operations' side conditions hold: the cycle check puts the
receiver outside the argument's subtree (`Pool.Sound.not_mem_of_acyclic`), the child check finds
the child at a child hole of the receiver, and a child of a record outside a subtree is outside it
unless it is the subtree's root (`Pool.Sound.child_not_mem_records`).
-/

namespace TreeArena

namespace Pool

open TreeArena.Tree

variable {p : Pool} {w : Nat → Nat}

/-! ### Positions and subtrees -/

theorem Sound.subtreeEnd_pos {c : Ctx} {t : Tree} (hS : p.Sound w (c.fill [t])) :
    p.nodes.subtreeEnd c.pos = c.pos + t.size := by
  have hl : p.nodes.toList = c.before ++ t.records ++ c.after := by
    rw [← hS.laid.layout_eq, Ctx.layout_fill, layout_singleton]
  exact Arena.subtreeEnd_records hl hS.wf_fill

/-- A record at another position than a subtree's root, and not strictly inside its positions,
is not a record of the subtree. -/
theorem Sound.not_mem_of_acyclic {c cT : Ctx} {U T : Tree} (hS : p.Sound w (cT.fill [T]))
    (hU : c.fill [U] = cT.fill [T]) (hne : c.pos ≠ cT.pos)
    (hout : ¬ (cT.pos < c.pos ∧ c.pos < p.nodes.subtreeEnd cT.pos)) : U.head ∉ T.records := by
  rw [hS.head_mem_records_iff hU, ← hS.subtreeEnd_pos]
  omega

/-- A subtree whose root lies in another subtree, which is not inside it, has its parent record in
that subtree too. -/
theorem Sound.parent_mem_records {c cT : Ctx} {nd : Node} {L R : List Tree} {O T : Tree}
    (hS : p.Sound w (cT.fill [T])) (h : (c.child nd L R).fill [O] = cT.fill [T])
    (hT : T.head ∉ O.records) (hO : O.head ∈ T.records) : nd ∈ T.records := by
  rcases Ctx.fill_cases h (by rwa [layout_singleton]) with ⟨e, he, heu, -, -, gs, hgs⟩ | hdis
  · -- the subtree of `O` lies strictly inside `T`, and the innermost level above it is `nd`'s
    obtain ⟨f, fs, hf⟩ := List.exists_cons_of_ne_nil he
    have hnd : f.head = nd := by
      rw [hf, Ctx.child] at hgs
      exact (congrArg Frame.head (List.cons.inj hgs).1).symm
    have hT' : T.records = layout (e.fill [O]) := by rw [heu, layout_singleton]
    rw [hT', Ctx.layout_fill, Ctx.before, hf, Frame.before, ← hnd]
    simp
  · -- apart, the root of `O` is outside the positions of `T`
    obtain ⟨c', -, -, hpos⟩ := hdis [O]
    rw [hS.head_mem_records_iff h] at hO
    have := O.size_pos
    have hsize : O.size = O.records.length := rfl
    simp only [layout_singleton] at hpos
    omega

/-- A child of a record outside a subtree lies outside it, unless it is the subtree's root. -/
theorem Sound.child_not_mem_records {c cT : Ctx} {nd : Node} {L R : List Tree} {O T : Tree}
    (hS : p.Sound w (cT.fill [T])) (h : (c.child nd L R).fill [O] = cT.fill [T])
    (hnd : nd ∉ T.records) (hne : O.head ≠ T.head) : O.head ∉ T.records := by
  intro hO
  by_cases hT : T.head ∈ O.records
  · -- each root lies in the other's subtree: they sit at one position
    have hS' : p.Sound w ((c.child nd L R).fill [O]) := h ▸ hS
    have h₁ := (hS.head_mem_records_iff h).mp hO
    have h₂ := (hS'.head_mem_records_iff h.symm).mp hT
    have hpos : (c.child nd L R).pos = cT.pos := by omega
    have hS₁ : p.Sound w ((c.child nd L R).fill [node O.head O.kids]) := by rwa [eta]
    have hS₂ : p.Sound w (cT.fill [node T.head T.kids]) := by rwa [eta]
    have heq := hS₁.getElem?_pos
    rw [hpos, hS₂.getElem?_pos] at heq
    exact hne (Option.some.inj heq).symm
  · exact hnd (hS.parent_mem_records h hT hO)


theorem Sound.parentOf_eq_none_iff {c : Ctx} {t : Tree} (hS : p.Sound w (c.fill [t])) :
    p.nodes.parentOf c.pos = none ↔ c.up = [] := by
  rw [Arena.parentOf_fill hS.laid.layout_eq.symm hS.wf]
  cases hup : c.up <;> simp [Ctx.parent, hup]

theorem fill_of_up_nil {c : Ctx} (hup : c.up = []) (t : Tree) :
    c.fill [t] = c.left ++ t :: c.right := by
  simp [Ctx.fill, hup, Frame.closeAll]

end Pool

namespace Heap

open Pool TreeArena.Tree

variable {h : Heap} {own : List Handle}

/-! ### What an edit keeps -/

/-- A run from `h` to `h'` keeps the heap exact for the handles `own`, gives none of them a
unit it did not own before, and only frees slots. -/
structure Keeps (own : List Handle) (h h' : Heap) : Prop where
  exact : h'.Exact own
  narrows : ∀ x, h'.owns x = true → h.owns x = true
  frees : Tables (SlotTable.Frees fun _ => True) h h'

theorem Exact.keeps_self (hE : h.Exact own) : Keeps own h h :=
  ⟨hE, fun _ hx => hx, Tables.refl (SlotTable.Frees.refl _) h⟩

theorem Keeps.trans {h₁ h₂ : Heap} {own₁ : List Handle} (h₁₂ : Keeps own₁ h h₁)
    (h₂₃ : Keeps own h₁ h₂) : Keeps own h h₂ :=
  ⟨h₂₃.exact, fun x hx => h₁₂.narrows x (h₂₃.narrows x hx),
    h₁₂.frees.trans (fun _ _ _ => SlotTable.Frees.trans) h₂₃.frees⟩

/-- A handle that owns a unit once a pool's table freed some slots owned one before. -/
theorem owns_of_frees {k : Nat} {p p' : Pool} (hp : h.pools[k]? = some p) {P : Nat → Prop}
    (hfr : p.slots.Frees P p'.slots) (hf : p'.failure = p.failure) {x : Handle}
    (hx : owns ⟨h.pools.setIfInBounds k p'⟩ x = true) : h.owns x = true := by
  obtain ⟨k₁, q, i, hfd, hne⟩ := owns_iff.mp hx
  have hq := hfd.pool
  rw [getElem?_setIfInBounds_pools hp] at hq
  split at hq
  · subst_vars
    cases hq
    obtain ⟨j, hj⟩ := Option.isSome_iff_exists.mp
      (hfr.resolve_isSome_of_after (Option.isSome_iff_exists.mpr ⟨i, hfd.resolve⟩))
    exact owns_iff.mpr ⟨k₁, p, j, ⟨hfd.home, hp, hj⟩, hf ▸ hne⟩
  · exact owns_iff.mpr ⟨k₁, q, i, ⟨hfd.home, hq, hfd.resolve⟩, hne⟩

/-- A pool operation that keeps the invariant for the same handles and frees only slots they do
not own keeps the heap. -/
theorem Exact.keeps (hE : h.Exact own) {k : Nat} {p p' : Pool} (hp : h.pools[k]? = some p)
    {P : Nat → Prop} (hfr : p.slots.Frees P p'.slots) (hf : p'.failure = p.failure)
    (hP : ∀ s, P s → addUnit (units own k) p.failure.slot s = 0) {ts : List Tree}
    (hK : p'.Kept (addUnit (units own k) p.failure.slot) ts) :
    Keeps own h ⟨h.pools.setIfInBounds k p'⟩ := by
  have hfo : p.Follows P p' := ⟨hf, hfr.size_eq, fun s hs hPs => hfr.kept hs hPs⟩
  refine ⟨hE.follows hp hfo (fun s hs => ?_) hK, fun x hx => owns_of_frees hp hfr hf hx,
    tables_set (SlotTable.Frees.refl _) hp (hfr.mono fun _ _ => trivial)⟩
  have := addUnit_le (units own k) p.failure.slot s
  rw [hP s hs] at this
  omega

/-- Steps of a pool operation that keep the invariant and free only slots owed nothing keep the
heap. -/
theorem Exact.keeps_of_steps (hE : h.Exact own) {k : Nat} {p p' : Pool}
    (hp : h.pools[k]? = some p) {P : Nat → Prop} (hst : p.Steps P p')
    (hP : ∀ s, P s → addUnit (units own k) p.failure.slot s = 0) {ts : List Tree}
    (hK : p'.Kept (addUnit (units own k) p.failure.slot) ts) :
    Keeps own h ⟨h.pools.setIfInBounds k p'⟩ :=
  hE.keeps hp hst.frees hst.follows.failure_eq hP hK

/-! ### Degrading -/

/-- Degrading checks the count it is given, then turns the receiver and its ancestors into
failure nodes in place; a receiver that already is one is left alone. -/
theorem Exact.replaceWithFailure (hE : h.Exact own) (r : Handle) (count : Int) :
    Guarded (replaceWithFailure r count) h fun _ h' => Keeps own h h' := by
  unfold Heap.replaceWithFailure
  refine guarded_locate_homeOf r fun k p off hf => ?_
  refine hf.reads_failureAt.bind fun b hb => ?_
  subst hb
  split
  · exact guarded_pure hE.keeps_self
  rename_i hkind
  refine (reads_checkChildCount k off count).bind fun _ _ => ?_
  obtain ⟨c, nd, ks, hK, hs, rfl⟩ := hE.site hf
  have hk : nd.kind ≠ failureKind := by
    rw [hK.sound.kindAt_pos] at hkind
    simpa using hkind
  obtain ⟨p', ts', hrun, hK', hst⟩ := hK.degrade hk
  rw [show r.slot = nd.slot from hs.symm]
  exact guarded_onPool hf.pool (.inr ⟨(), p', hrun,
    hE.keeps hf.pool hst.frees hst.follows.failure_eq (fun _ h => h) hK'⟩)


/-! ### Attaching -/

/-- Where attaching lands once the checks pass: the argument's subtree sits at a hole of the pool's
forest, no failure, and the receiver lies outside it, no failure either. -/
theorem Exact.attach_site (hE : h.Exact own) {r t : Handle} {k : Nat} {p : Pool} {off toff : Nat}
    (hf : h.Finds r k p off) (ht : h.Finds t k p toff) (hne : off ≠ toff)
    (hnin : ¬ (toff < off ∧ off < p.nodes.subtreeEnd toff))
    (hkr : (p.nodes.kindAt off == failureKind) = false) (hkt : h.isFailure t = false) :
    ∃ (cT : Ctx) (T : Tree), p.Kept (addUnit (units own k) p.failure.slot) (cT.fill [T]) ∧
      T.head.slot = t.slot ∧ r.slot ∈ (layout (cT.fill [])).map Node.slot ∧
      (∀ x ∈ layout (cT.fill []), x.slot = r.slot → x.kind ≠ failureKind) ∧
      T.head.kind ≠ failureKind := by
  obtain ⟨cT, nt, kt, hK, hts, rfl⟩ := hE.site ht
  obtain ⟨c, nd, ks, hc, hs, rfl⟩ := hK.sound.hole_of_resolve hf.resolve
  -- the receiver's record lies outside the argument's subtree, and neither is a failure
  have hout : nd ∉ (node nt kt).records := hK.sound.not_mem_of_acyclic hc hne hnin
  have hmem : nd ∈ layout (cT.fill []) := head_mem_around hc hout
  refine ⟨cT, node nt kt, hK, hts, List.mem_map.mpr ⟨nd, hmem, hs⟩, fun x hx hxs => ?_, ?_⟩
  · have hsub : ∀ y ∈ layout (cT.fill []), y ∈ layout (cT.fill [node nt kt]) := by
      intro y hy
      rw [Ctx.layout_fill] at hy ⊢
      simp only [layout_nil, List.append_nil, List.mem_append] at hy ⊢
      tauto
    obtain rfl := hK.sound.eq_of_slot_eq (hsub x hx) (hsub nd hmem) (hxs.trans hs.symm)
    have hSc : p.Sound (addUnit (units own k) p.failure.slot) (c.fill [node x ks]) := by
      rw [hc]
      exact hK.sound
    rw [hSc.kindAt_pos] at hkr
    simpa using hkr
  · rw [isFailure_of_finds ht, hK.sound.kindAt_pos] at hkt
    simpa using hkt

/-- Adding a child checks the receiver, the count and the index, refuses a cycle, and then
attaches; a failure handed in degrades the receiver instead. -/
theorem Exact.addChild (hE : h.Exact own) (r t : Handle) (index count : Int) :
    Guarded (addChild r t index count) h fun _ h' => Keeps own h h' := by
  unfold Heap.addChild
  refine guarded_locate_homeOf r fun k p off hf => ?_
  refine hf.reads_failureAt.bind fun b hb => ?_
  subst hb
  split
  · exact guarded_pure hE.keeps_self
  rename_i hkr
  refine (hf.reads_sibling t).bind fun toff ht => ?_
  refine reads_get.bind fun h' hh => ?_
  subst hh
  split
  · exact Guarded.bind_ok (hE.replaceWithFailure r count) fun _ _ hk => returns_pure hk
  rename_i htf
  refine (reads_checkChildCount k off count).bind fun _ _ => ?_
  split
  · exact guarded_throw _
  refine (reads_checkAcyclic r t).bind fun _ hac => ?_
  obtain ⟨hne, hnin⟩ := hac k p off toff hf ht
  obtain ⟨cT, T, hK, hts, hr, hkr', hkT⟩ :=
    hE.attach_site hf ht hne hnin (by simpa using hkr) (by simpa using htf)
  rw [← hts]
  rcases hK.attach hr hkr' hkT index with ⟨-, -, -, hover⟩ | ⟨p', ts', hrun, hK', hst⟩
  · exact guarded_onPool hf.pool (.inl ⟨_, hover⟩)
  · exact guarded_onPool hf.pool (.inr ⟨(), p', hrun,
      hE.keeps_of_steps hf.pool hst (fun _ h => h.elim) hK'⟩)

/-! ### Removing children -/

/-- Child `i` of a record sits at a child hole of it, and its slot is read at the child's start. -/
theorem Exact.child_site (hE : h.Exact own) {r : Handle} {k : Nat} {p : Pool} {off : Nat}
    (hf : h.Finds r k p off) {i : Nat} (hi : i < p.nodes.childrenAt off) :
    ∃ (d : Ctx) (nd : Node) (L R : List Tree) (T : Tree),
      p.Kept (addUnit (units own k) p.failure.slot) ((d.child nd L R).fill [T]) ∧
      nd.slot = r.slot ∧ L.length = i ∧ p.nodes.slotAt (p.nodes.childStart off i) = T.head.slot := by
  obtain ⟨c, nd, ks, hK, hs, rfl⟩ := hE.site hf
  have hn : p.nodes.childrenAt c.pos = ks.length := by
    rw [hK.sound.childrenAt_pos, hK.sound.children_eq]
  have hm : i < ks.length := by omega
  have hstart := hK.sound.child_of_start hm
  rw [← child_hole c nd hm, ← eta ks[i]] at hK
  exact ⟨c, nd, _, _, _, hK, hs, List.length_take_of_le hm.le,
    by rw [hstart, hK.sound.slotAt_pos, head_node]⟩

/-- A child that the scan finds among a record's children sits at a child hole of it. -/
theorem Exact.found_site (hE : h.Exact own) {r t : Handle} {k : Nat} {p : Pool} {off toff n : Nat}
    (hf : h.Finds r k p off) (ht : h.Finds t k p toff)
    (hn : scanChildren p.nodes toff (p.nodes.next off) 0 (p.nodes.childrenAt off) = some n) :
    ∃ (d : Ctx) (nd : Node) (L R : List Tree) (T : Tree),
      p.Kept (addUnit (units own k) p.failure.slot) ((d.child nd L R).fill [T]) ∧
      nd.slot = r.slot ∧ T.head.slot = t.slot := by
  obtain ⟨c, nd, ks, hK, hs, rfl⟩ := hE.site hf
  obtain ⟨hm, hpos⟩ := hK.sound.scanChildren_eq_some hn
  rw [← child_hole c nd hm] at hK
  -- the child found sits at the argument's position, so it is the argument's record
  exact ⟨c, nd, _, _, ks[n], hK, hs,
    hK.sound.slot_of_position (hpos ▸ SlotTable.position_of_resolve ht.resolve)⟩

/-- Removing child `i` checks the index and cuts the child, which gives back its edge's unit. -/
theorem Exact.removeChildAt (hE : h.Exact own) (r : Handle) (i : Int) :
    Guarded (removeChildAt r i) h fun _ h' => Keeps own h h' := by
  unfold Heap.removeChildAt
  refine guarded_locate_homeOf r fun k p off hf => ?_
  refine hf.reads_pool.bind fun q hq => ?_
  subst hq
  dsimp only
  split
  · exact guarded_throw _
  rename_i hi
  obtain ⟨d, nd, L, R, T, hK, hs, -, hslot⟩ := hE.child_site hf (i := i.toNat) (by omega)
  rw [hslot, ← hs]
  obtain ⟨p', ts', hrun, hK', hst⟩ := hK.cut
  exact guarded_onPool hf.pool (.inr ⟨(), p', hrun, hE.keeps_of_steps hf.pool hst (fun _ h => h) hK'⟩)

theorem Exact.cut_found (hE : h.Exact own) {r t : Handle} {k : Nat} {p : Pool} {off toff n : Nat}
    (hf : h.Finds r k p off) (ht : h.Finds t k p toff)
    (hn : scanChildren p.nodes toff (p.nodes.next off) 0 (p.nodes.childrenAt off) = some n) :
    Returns (Heap.onPool k (Pool.cut r.slot t.slot)) h fun _ h' => Keeps own h h' := by
  obtain ⟨d, nd, L, R, T, hK, hs, hts⟩ := hE.found_site hf ht hn
  rw [← hts, ← hs]
  obtain ⟨p', ts', hrun, hK', hst⟩ := hK.cut
  exact (returns_onPool hf.pool hrun).mono fun _ h' ⟨_, hh⟩ =>
    hh ▸ hE.keeps_of_steps hf.pool hst (fun _ h => h) hK'

/-- Removing a child named by a handle checks that it is one and cuts it. -/
theorem Exact.removeChild (hE : h.Exact own) (r t : Handle) (count : Int) :
    Guarded (removeChild r t count) h fun _ h' => Keeps own h h' := by
  unfold Heap.removeChild
  refine (reads_sibling r t).bind fun toff _ => ?_
  refine (reads_hasChild r t).bind fun b hb => ?_
  split
  · exact guarded_throw _
  rename_i hb'
  obtain ⟨k, p, off, toff', hf, ht, n, hn⟩ := hb (by simpa using hb')
  refine hf.reads_homeOf.bind fun k' hk' => ?_
  subst hk'
  refine (reads_checkChildCount k toff count).bind fun _ _ => ?_
  exact (hE.cut_found hf ht hn).guarded

/-- Removing all children detaches and releases them one by one. -/
theorem Exact.removeChildren (hE : h.Exact own) (r : Handle) :
    Guarded (removeChildren r) h fun _ h' => Keeps own h h' := by
  unfold Heap.removeChildren
  refine guarded_locate_homeOf r fun k p off hf => ?_
  obtain ⟨c, nd, ks, hK, hs, rfl⟩ := hE.site hf
  obtain ⟨p', ts', hrun, hK', hst⟩ := hK.dropChildren
    (show ks.length ≤ p.nodes.childrenAt c.pos by rw [hK.sound.childrenAt_pos, hK.sound.children_eq])
  refine guarded_onPool hf.pool (.inr ⟨(), p', ?_, hE.keeps_of_steps hf.pool hst (fun _ h => h) hK'⟩)
  rw [run_get_bind, show r.slot = nd.slot from hs.symm]
  exact hrun


/-! ### Replacing -/

theorem Handle.eq_of_home_id {a b : Handle} (hh : a.home = b.home) (hi : a.id = b.id) : a = b := by
  cases a
  cases b
  simp_all

/-- Where substituting lands once the checks pass: the old child sits at a child hole of the
receiver, outside the new node's subtree, which is no failure. -/
theorem Exact.substitute_site (hE : h.Exact own) {r old new : Handle} {k : Nat} {p : Pool}
    {off ooff toff n : Nat} (hf : h.Finds r k p off) (ho : h.Finds old k p ooff)
    (ht : h.Finds new k p toff)
    (hn : scanChildren p.nodes ooff (p.nodes.next off) 0 (p.nodes.childrenAt off) = some n)
    (hne : off ≠ toff) (hnin : ¬ (toff < off ∧ off < p.nodes.subtreeEnd toff))
    (hon : old ≠ new) (hkt : h.isFailure new = false) :
    ∃ (cT d : Ctx) (nd : Node) (L R : List Tree) (O T : Tree),
      p.Kept (addUnit (units own k) p.failure.slot) (cT.fill [T]) ∧
      (d.child nd L R).fill [O] = cT.fill [T] ∧ O.head ∉ T.records ∧ T.head.kind ≠ failureKind ∧
      nd.slot = r.slot ∧ O.head.slot = old.slot ∧ T.head.slot = new.slot := by
  obtain ⟨cT, nt, kt, hK, hts, rfl⟩ := hE.site ht
  obtain ⟨c, nd, ks, hc, hs, rfl⟩ := hK.sound.hole_of_resolve hf.resolve
  have hSc : p.Sound (addUnit (units own k) p.failure.slot) (c.fill [node nd ks]) := by
    rw [hc]
    exact hK.sound
  obtain ⟨hm, hpos⟩ := hSc.scanChildren_eq_some hn
  have hO := (child_hole c nd hm).trans hc
  have hSO : p.Sound (addUnit (units own k) p.failure.slot)
      ((c.child nd (ks.take n) (ks.drop (n + 1))).fill [ks[n]]) := by
    rw [hO]
    exact hK.sound
  have hos : ks[n].head.slot = old.slot :=
    hSO.slot_of_position (hpos ▸ SlotTable.position_of_resolve ho.resolve)
  -- the old child is not the new subtree's root: the handles differ and both name live records
  have hroot : ks[n].head ≠ nt := by
    intro heq
    refine hon (Handle.eq_of_home_id (ho.home.trans ht.home.symm) ?_)
    exact SlotTable.eq_of_resolve_isSome (Option.isSome_iff_exists.mpr ⟨_, ho.resolve⟩)
      (Option.isSome_iff_exists.mpr ⟨_, ht.resolve⟩) (by show old.slot = new.slot; rw [← hts, ← heq, hos])
  have hout := hK.sound.child_not_mem_records hO (hK.sound.not_mem_of_acyclic hc hne hnin) hroot
  have hkT : nt.kind ≠ failureKind := by
    rw [isFailure_of_finds ht, hK.sound.kindAt_pos] at hkt
    simpa using hkt
  exact ⟨cT, c, nd, _, _, ks[n], node nt kt, hK, hO, hout, hkT, hs, hos, hts⟩

/-- Replacing a child checks that it is one and refuses a cycle, then substitutes; the same
handle twice, or a failure receiver, changes nothing, and a failure handed in degrades the
receiver. -/
theorem Exact.replaceChild (hE : h.Exact own) (r old new : Handle) :
    Guarded (replaceChild r old new) h fun _ h' => Keeps own h h' := by
  unfold Heap.replaceChild
  refine guarded_locate_homeOf r fun k p off hf => ?_
  split
  · exact guarded_pure hE.keeps_self
  rename_i hon
  refine hf.reads_failureAt.bind fun b hb => ?_
  subst hb
  split
  · exact guarded_pure hE.keeps_self
  refine (hf.reads_sibling new).bind fun toff ht => ?_
  refine reads_get.bind fun h' hh => ?_
  subst hh
  split
  · refine (reads_readPool k id).bind fun _ _ => ?_
    exact Guarded.bind_ok (hE.replaceWithFailure r _) fun _ _ hk => returns_pure hk
  rename_i htf
  refine (reads_hasChild r old).bind fun b hb => ?_
  split
  · exact guarded_throw _
  rename_i hb'
  obtain ⟨k₃, p₃, off₃, ooff, hf₃, ho, n, hn⟩ := hb (by simpa using hb')
  obtain ⟨rfl, rfl, rfl⟩ := hf₃.unique hf
  refine (reads_checkAcyclic r new).bind fun _ hac => ?_
  obtain ⟨hne, hnin⟩ := hac k p off toff hf ht
  obtain ⟨cT, d, nd, L, R, O, T, hK, hO, hout, hkT, -, hos, hts⟩ :=
    hE.substitute_site hf ho ht hn hne hnin hon (by simpa using htf)
  rw [← hos, ← hts]
  rcases hK.substitute hO (by simp [Ctx.child]) hout hkT with
    ⟨-, -, -, hover⟩ | ⟨p', ts', hrun, hK', hst⟩
  · exact guarded_onPool hf.pool (.inl ⟨_, hover⟩)
  · exact guarded_onPool hf.pool (.inr ⟨(), p', hrun,
      hE.keeps_of_steps hf.pool hst (fun _ h => h) hK'⟩)


/-- Replacing child `i` takes a handle on the old child, replaces it and gives the handle back,
also when the replacement faults: the heap is then as it was before the call. -/
theorem Exact.replaceChildAt (hE : h.Exact own) (r : Handle) (i : Int) (new : Handle) :
    Guarded (replaceChildAt r i new) h fun _ h' => Keeps own h h' := by
  unfold Heap.replaceChildAt
  refine (reads_inspect r _).bind fun n _ => ?_
  split
  · exact Guarded.bind_ok (Q := fun _ _ => False) (guarded_throw _) fun _ _ h => h.elim
  unfold Guarded
  dsimp only
  cases hc : (Heap.childAt r i).run h with
  | error e h₁ =>
    rw [run_bind_error hc]
    exact (hE.childAt r i).error hc
  | ok old h₁ =>
    obtain ⟨hE₁, hsame, hundo, htab₁⟩ := (hE.childAt r i).ok hc
    rw [run_bind_ok hc]
    have hg := hE₁.replaceChild r old new
    cases hrc : (Heap.replaceChild r old new).run h₁ with
    | error e h₂ =>
      obtain rfl := hg.error hrc
      -- the handle taken is given back before the fault goes on
      rw [run_bind_error (run_tryCatch_undo hrc hundo)]
    | ok u h₂ =>
      obtain ⟨hE₂, hnar, htab₂⟩ := hg.ok hrc
      rw [run_bind_ok (run_tryCatch_ok hrc)]
      have hr₂ : h₂.owns old = true → old ∈ gain h₁ old own := fun ho => by
        rw [gain, if_pos (hnar old ho)]
        exact List.mem_cons_self
      obtain ⟨c, h₃, hrel, -, hE₃, hnar₃, htab₃⟩ := hE₂.release hr₂
      rw [run_bind_ok hrel]
      -- the handle taken owned the only unit it added, which went back
      have herase : (gain h₁ old own).erase old = own := by
        unfold gain
        split
        · exact List.erase_cons_head old own
        · rename_i hno
          exact List.erase_of_not_mem fun hm => hno ((hsame old).trans (hE.owns hm))
      have htrans : ∀ a b c : SlotTable, a.Frees (fun _ => True) b → b.Frees (fun _ => True) c →
          a.Frees (fun _ => True) c := fun _ _ _ => SlotTable.Frees.trans
      exact ⟨herase ▸ hE₃, fun x hx => hsame x ▸ hnar x (hnar₃ x hx),
        (htab₁.trans htrans htab₂).trans htrans htab₃⟩


/-- A record that steps freeing nothing leave live is found again, maybe elsewhere. -/
theorem Finds.after_steps {r : Handle} {k : Nat} {p p' : Pool} {i : Nat} (hf : h.Finds r k p i)
    (hst : p.Steps (fun _ => False) p') : ∃ i', Heap.Finds ⟨h.pools.setIfInBounds k p'⟩ r k p' i' := by
  obtain ⟨i', hi'⟩ := Option.isSome_iff_exists.mp
    (hst.follows.resolve_isSome id (Option.isSome_iff_exists.mpr ⟨i, hf.resolve⟩))
  exact ⟨i', hf.home, getElem?_setIfInBounds_pools_self hf.pool _, hi'⟩

/-- Where moving a root lands once the checks pass: `t` and `r` are different roots, and moving
`t`'s block in front of `r`'s is reordering the roots. -/
theorem Exact.moveRoot_site (hE : h.Exact own) {r t : Handle} {k : Nat} {p : Pool} {off toff : Nat}
    (hf : h.Finds r k p off) (ht : h.Finds t k p toff) (hroot : p.nodes.parentOf off = none)
    (hid : r.id ≠ t.id) (htroot : p.nodes.parentOf toff = none ∧ p.nodes.pinnedAt toff = false) :
    ∃ (L R A B : List Tree) (T U : Tree),
      p.Kept (addUnit (units own k) p.failure.slot) (L ++ T :: R) ∧
      (Ctx.top A B).fill [U] = L ++ R ∧ p.position U.head.slot = off ∧
      p.position T.head.slot = toff := by
  obtain ⟨cT, nt, kt, hK, hts, rfl⟩ := hE.site ht
  obtain ⟨c, nd, ks, hc, hs, rfl⟩ := hK.sound.hole_of_resolve hf.resolve
  have hSc : p.Sound (addUnit (units own k) p.failure.slot) (c.fill [node nd ks]) := by
    rw [hc]
    exact hK.sound
  -- both are roots, and different ones
  have hup : c.up = [] := hSc.parentOf_eq_none_iff.mp hroot
  have hupT : cT.up = [] := hK.sound.parentOf_eq_none_iff.mp htroot.1
  have hne : node nd ks ≠ node nt kt := fun heq => by
    obtain ⟨rfl, -⟩ := node.inj heq
    exact hid (SlotTable.eq_of_resolve_isSome (Option.isSome_iff_exists.mpr ⟨_, hf.resolve⟩)
      (Option.isSome_iff_exists.mpr ⟨_, ht.resolve⟩) (hs.symm.trans hts))
  have hmem : node nd ks ∈ cT.left ++ cT.right := by
    have : node nd ks ∈ cT.fill [node nt kt] := by
      rw [← hc, fill_of_up_nil hup]
      simp
    rw [fill_of_up_nil hupT] at this
    simp only [List.mem_append, List.mem_cons] at this ⊢
    tauto
  obtain ⟨A, B, hAB⟩ := List.append_of_mem hmem
  have hposT : p.position nt.slot = cT.pos := hK.sound.laid.position_fill
  rw [fill_of_up_nil hupT] at hK
  exact ⟨cT.left, cT.right, A, B, node nt kt, node nd ks, hK, by rw [Ctx.top_fill, hAB]; simp,
    hSc.laid.position_fill, hposT⟩

/-- Putting `t` in the place of `r`: under a parent it replaces the child; of two roots, `t`'s
block moves in front of `r`'s, and anything else changes nothing. -/
theorem Exact.replaceWith (hE : h.Exact own) (r t : Handle) :
    Guarded (replaceWith r t) h fun _ h' => Keeps own h h' := by
  unfold Heap.replaceWith
  refine (reads_locate r).bind fun off hoff => ?_
  obtain ⟨k, p, hf⟩ := hoff
  refine (hf.reads_sibling t).bind fun toff ht => ?_
  refine hf.reads_homeOf.bind fun k' hk' => ?_
  subst hk'
  refine hf.reads_pool.bind fun q hq => ?_
  subst hq
  split
  · exact hE.replaceChild _ r t
  rename_i hroot
  split
  · exact guarded_pure hE.keeps_self
  rename_i hid
  split
  · exact guarded_pure hE.keeps_self
  rename_i htroot
  obtain ⟨L, R, A, B, T, U, hK, hsplit, hpos, hposT⟩ :=
    hE.moveRoot_site hf ht hroot hid (by simpa using htroot)
  obtain ⟨n, p', hrun, hK', hst⟩ := hK.moveRoot hsplit
  rw [hpos, hposT] at hrun
  refine guarded_onPool hf.pool (.inr ⟨(), p', ?_,
    hE.keeps_of_steps hf.pool hst (fun _ h => h.elim) hK'⟩)
  rw [run_bind_ok hrun]
  rfl


/-! ### Merging -/

/-- Merging checks the index and refuses a cycle, then splices `t`'s children into `r`'s and cuts
`t` if it was a child of `r`; a failure receiver changes nothing, and a failure handed in
degrades the receiver. -/
theorem Exact.merge (hE : h.Exact own) (r t : Handle) (i : Int) :
    Guarded (merge r t i) h fun _ h' => Keeps own h h' := by
  unfold Heap.merge
  refine guarded_locate_homeOf r fun k p off hf => ?_
  refine hf.reads_failureAt.bind fun b hb => ?_
  subst hb
  split
  · exact guarded_pure hE.keeps_self
  rename_i hkr
  refine (hf.reads_sibling t).bind fun toff ht => ?_
  refine reads_get.bind fun h' hh => ?_
  subst hh
  split
  · refine (reads_readPool k id).bind fun _ _ => ?_
    exact Guarded.bind_ok (hE.replaceWithFailure r _) fun _ _ hk => returns_pure hk
  refine hf.reads_pool.bind fun q hq => ?_
  subst hq
  dsimp only
  split
  · exact Guarded.bind_ok (Q := fun _ _ => False) (guarded_throw _) fun _ _ h => h.elim
  rename_i hi
  refine (reads_checkAcyclic r t).bind fun _ hac => ?_
  obtain ⟨hne, hnin⟩ := hac k p off toff hf ht
  obtain ⟨ct, nt, kt, hK, hts, rfl⟩ := hE.site ht
  obtain ⟨c, nd, ks, hc, hs, rfl⟩ := hK.sound.hole_of_resolve hf.resolve
  have hSc : p.Sound (addUnit (units own k) p.failure.slot) (c.fill [node nd ks]) := by
    rw [hc]
    exact hK.sound
  have hn : p.nodes.childrenAt c.pos = ks.length := by
    rw [hSc.childrenAt_pos, hSc.children_eq]
  have hkr' : nd.kind ≠ failureKind := by
    rw [hSc.kindAt_pos] at hkr
    simpa using hkr
  obtain ⟨p₁, ts₁, hrun, hK₁, hst⟩ :=
    hK.splice hc (hK.sound.not_mem_of_acyclic hc hne hnin) (i := i.toNat) (by omega) hkr'
  rw [show nd.slot = r.slot from hs, show nt.slot = t.slot from hts, ← hn,
    Int.toNat_of_nonneg (by omega)] at hrun
  have hk₁ := hE.keeps_of_steps hf.pool hst (fun _ h => h.elim) hK₁
  refine Guarded.bind_ok (Q := fun _ h₁ => h₁ = ⟨h'.pools.setIfInBounds k p₁⟩)
    (guarded_onPool hf.pool (.inr ⟨(), p₁, hrun, rfl⟩)) fun _ h₁ hh => ?_
  subst hh
  -- the splice frees nothing, so both records are found again, and `t` is cut if it is a child
  obtain ⟨off₁, hf₁⟩ := hf.after_steps hst
  obtain ⟨toff₁, ht₁⟩ := ht.after_steps hst
  refine (returns_hasChild hf₁ ht₁).bind fun b h₂ hb => ?_
  obtain ⟨rfl, hb⟩ := hb
  split
  · rename_i hbt
    obtain ⟨n, hn⟩ := Option.isSome_iff_exists.mp (hb.mp hbt)
    exact (hk₁.exact.cut_found hf₁ ht₁ hn).mono fun _ _ hk => hk₁.trans hk
  · exact returns_pure hk₁

end Heap

end TreeArena
