import TreeArena.Proofs.EditViews
import TreeArena.Proofs.Reachable
import TreeArena.Proofs.OperandSteps

/-!
# The public edits refine the edits of the abstract forest

Each public edit that returns normally changes one pool, the home of its receiver, and that pool's
abstract forest (`Pool.view`) goes from before to after as the matching edit of `Forest` says
(`Heap.EditsView`):

* adding a child that is no failure to a receiver that is no failure is `Forest.AddsChild`, with
  the position the caller gives, clamped to the receiver's children once the child is adopted;
* removing a child by position or by handle, and removing every child, are
  `Forest.RemovesChildAt`, `Forest.RemovesChild` and `Forest.RemovesChildren`;
* replacing a child of a receiver that is no failure by another node that is no failure is
  `Forest.ReplacesChild`;
* putting a node that is no failure in the place of another is `Forest.ReplacesWith`: below a
  parent it replaces that child, and on a root it leaves the forest as it is.

A fault leaves the heap as it was (`Heap.Guarded`). Main statement:
`Heap.reachable_edits_refine`, over every heap reached from pools just built.
-/

namespace TreeArena

namespace Heap

open Pool TreeArena.Tree Forest

variable {h : Heap} {own : List Handle}

/-- The run from `h` to `h'` changed only the pool `k` that is `r`'s home, and `E` relates that
pool's forest before to its forest after. -/
def EditsView (E : Forest → Forest → Prop) (r : Handle) (h h' : Heap) : Prop :=
  ∃ k p p', r.home = some k ∧ h.pools[k]? = some p ∧ h' = ⟨h.pools.setIfInBounds k p'⟩ ∧
    E p.view p'.view

/-- A run that leaves the heap as it was edits the view of `r`'s home as any `E` that holds of its
forest and itself. -/
theorem editsView_self {E : Forest → Forest → Prop} {r : Handle} {k : Nat} {p : Pool}
    (hk : r.home = some k) (hp : h.pools[k]? = some p) (hE : E p.view p.view) :
    EditsView E r h h :=
  ⟨k, p, p, hk, hp, (setIfInBounds_self hp).symm, hE⟩

theorem Finds.idOf_slot {r : Handle} {k : Nat} {p : Pool} {i : Nat} (hf : h.Finds r k p i) :
    p.slots.idOf r.slot = r.id :=
  SlotTable.idOf_of_resolve (Option.isSome_iff_exists.mpr ⟨_, hf.resolve⟩)

/-! ### Adding a child -/

theorem Exact.addChild_view (hE : h.Exact own) (r t : Handle) (index count : Int)
    (hr : h.isFailure r = false) (ht : h.isFailure t = false) :
    Guarded (Heap.addChild r t index count) h
      (fun _ => EditsView (fun F F' => AddsChild F r.id t.id index.toNat F') r h) := by
  unfold Heap.addChild
  refine guarded_locate_homeOf r fun k p off hf => ?_
  refine hf.reads_failureAt.bind fun b hb => ?_
  subst hb
  rw [isFailure_of_finds hf] at hr
  split
  · rename_i hkr
    rw [hr] at hkr
    cases hkr
  refine (hf.reads_sibling t).bind fun toff hft => ?_
  refine reads_get.bind fun h' hh => ?_
  subst hh
  split
  · rename_i htf
    rw [ht] at htf
    cases htf
  refine (reads_checkChildCount k off count).bind fun _ _ => ?_
  split
  · exact guarded_throw _
  refine (reads_checkAcyclic r t).bind fun _ hac => ?_
  obtain ⟨hne, hnin⟩ := hac k p off toff hf hft
  obtain ⟨cT, T, hK, hts, hrm, hkr, hkT⟩ := hE.attach_site hf hft hne hnin hr ht
  rw [← hts]
  rcases hK.attach hrm hkr hkT index with ⟨-, -, -, hover⟩ | ⟨p', -, hrun, -, -⟩
  · exact guarded_onPool hf.pool (.inl ⟨_, hover⟩)
  refine guarded_onPool hf.pool (.inr ⟨(), p', hrun, k, p, p', hf.home, hf.pool, rfl, ?_⟩)
  have hv := hK.attach_view hrm hkT hrun
  rwa [hf.idOf_slot, hts, hft.idOf_slot] at hv

/-! ### Removing children -/

theorem Exact.removeChildAt_view (hE : h.Exact own) (r : Handle) (i : Int) :
    Guarded (Heap.removeChildAt r i) h
      (fun _ => EditsView (fun F F' => RemovesChildAt F r.id i.toNat F') r h) := by
  unfold Heap.removeChildAt
  refine guarded_locate_homeOf r fun k p off hf => ?_
  refine hf.reads_pool.bind fun q hq => ?_
  subst hq
  dsimp only
  split
  · exact guarded_throw _
  rename_i hi
  obtain ⟨d, nd, L, R, T, hK, hs, hL, hslot⟩ := hE.child_site hf (i := i.toNat) (by omega)
  rw [hslot, ← hs]
  obtain ⟨p', -, hrun, -, -⟩ := hK.cut
  refine guarded_onPool hf.pool (.inr ⟨(), p', hrun, k, p, p', hf.home, hf.pool, rfl, ?_⟩)
  have hv := (hK.cut_removes hrun).1
  rwa [hL, hs, hf.idOf_slot] at hv

/-- Cutting a child that the scan finds among the receiver's children removes it in the view. -/
theorem Exact.cut_found_view (hE : h.Exact own) {r t : Handle} {k : Nat} {p : Pool}
    {off toff n : Nat} (hf : h.Finds r k p off) (ht : h.Finds t k p toff)
    (hn : scanChildren p.nodes toff (p.nodes.next off) 0 (p.nodes.childrenAt off) = some n) :
    Returns (Heap.onPool k (Pool.cut r.slot t.slot)) h
      (fun _ => EditsView (fun F F' => RemovesChild F r.id t.id F') r h) := by
  obtain ⟨d, nd, L, R, T, hK, hs, hts⟩ := hE.found_site hf ht hn
  rw [← hts, ← hs]
  obtain ⟨p', -, hrun, -, -⟩ := hK.cut
  have hv := (hK.cut_removes hrun).2
  rw [hts, ht.idOf_slot, hs, hf.idOf_slot] at hv
  exact (returns_onPool hf.pool hrun).mono fun _ h' hh => ⟨k, p, p', hf.home, hf.pool, hh.2, hv⟩

theorem Exact.removeChild_view (hE : h.Exact own) (r t : Handle) (count : Int) :
    Guarded (Heap.removeChild r t count) h
      (fun _ => EditsView (fun F F' => RemovesChild F r.id t.id F') r h) := by
  unfold Heap.removeChild
  refine (reads_sibling r t).bind fun toff _ => ?_
  refine (reads_hasChild r t).bind fun b hb => ?_
  split
  · exact guarded_throw _
  rename_i hb'
  obtain ⟨k, p, off, toff', hf, ht, n, hn⟩ := hb (by simpa using hb')
  refine hf.reads_homeOf.bind fun k' hk' => ?_
  subst hk'
  refine (reads_checkChildCount k toff count).bind fun _ _ => ?_
  exact (hE.cut_found_view hf ht hn).guarded

theorem Exact.removeChildren_view (hE : h.Exact own) (r : Handle) :
    Guarded (Heap.removeChildren r) h
      (fun _ => EditsView (fun F F' => RemovesChildren F r.id F') r h) := by
  unfold Heap.removeChildren
  refine guarded_locate_homeOf r fun k p off hf => ?_
  obtain ⟨c, nd, ks, hK, hs, rfl⟩ := hE.site hf
  have hb : ks.length ≤ p.nodes.childrenAt c.pos := by
    rw [hK.sound.childrenAt_pos, hK.sound.children_eq]
  obtain ⟨p', -, hrun, -, -⟩ := hK.dropChildren hb
  have hv := hK.dropChildren_view hb hrun
  rw [hs, hf.idOf_slot] at hv
  refine guarded_onPool hf.pool (.inr ⟨(), p', ?_, k, p, p', hf.home, hf.pool, rfl, hv⟩)
  rw [run_get_bind, show r.slot = nd.slot from hs.symm]
  exact hrun

/-! ### Replacing -/

theorem Exact.replaceChild_view (hE : h.Exact own) (r old new : Handle) (hne : old ≠ new)
    (hr : h.isFailure r = false) (hnew : h.isFailure new = false) :
    Guarded (Heap.replaceChild r old new) h
      (fun _ => EditsView (fun F F' => ReplacesChild F r.id old.id new.id F') r h) := by
  unfold Heap.replaceChild
  refine guarded_locate_homeOf r fun k p off hf => ?_
  split
  · exact absurd ‹old = new› hne
  refine hf.reads_failureAt.bind fun b hb => ?_
  subst hb
  rw [isFailure_of_finds hf] at hr
  split
  · rename_i hkr
    rw [hr] at hkr
    cases hkr
  refine (hf.reads_sibling new).bind fun toff ht => ?_
  refine reads_get.bind fun h' hh => ?_
  subst hh
  split
  · rename_i htf
    rw [hnew] at htf
    cases htf
  refine (reads_hasChild r old).bind fun b hb => ?_
  split
  · exact guarded_throw _
  rename_i hb'
  obtain ⟨k₃, p₃, off₃, ooff, hf₃, ho, n, hn⟩ := hb (by simpa using hb')
  obtain ⟨rfl, rfl, rfl⟩ := hf₃.unique hf
  refine (reads_checkAcyclic r new).bind fun _ hac => ?_
  obtain ⟨hna, hnin⟩ := hac k p off toff hf ht
  obtain ⟨cT, d, nd, L, R, O, T, hK, hO, hout, hkT, hs, hos, hts⟩ :=
    hE.substitute_site hf ho ht hn hna hnin hne hnew
  rw [← hos, ← hts]
  rcases hK.substitute hO (by simp [Ctx.child]) hout hkT with
    ⟨-, -, -, hover⟩ | ⟨p', -, hrun, -, -⟩
  · exact guarded_onPool hf.pool (.inl ⟨_, hover⟩)
  refine guarded_onPool hf.pool (.inr ⟨(), p', hrun, k, p, p', hf.home, hf.pool, rfl, ?_⟩)
  have hv := hK.substitute_view hO hout hkT hrun
  rwa [hs, hos, hts, hf.idOf_slot, ho.idOf_slot, ht.idOf_slot] at hv

/-- The parent of a record is found by the handle on its slot's current identifier, and has a
child, so it is no failure. -/
theorem Exact.parent_site (hE : h.Exact own) {r : Handle} {k : Nat} {p : Pool} {off q : Nat}
    (hf : h.Finds r k p off) (hq : p.nodes.parentOf off = some q) :
    h.Finds ⟨some k, p.slots.idOf (p.nodes.slotAt q)⟩ k p q ∧
      h.isFailure ⟨some k, p.slots.idOf (p.nodes.slotAt q)⟩ = false := by
  obtain ⟨c, nd, ks, hK, -, rfl⟩ := hE.site hf
  rw [Arena.parentOf_fill hK.sound.laid.layout_eq.symm hK.sound.wf] at hq
  cases hup : c.up with
  | nil => simp [Ctx.parent, hup] at hq
  | cons f fs =>
    rw [show c.parent = some ⟨fs, c.left, c.right⟩ by simp [Ctx.parent, hup]] at hq
    obtain rfl := Option.some.inj hq
    rw [Ctx.eq_child_of_up hup] at hK
    have hkf := hK.parent_kind_ne
    rw [Ctx.child_fill] at hK
    rw [hK.sound.slotAt_pos]
    have hfp : h.Finds ⟨some k, p.slots.idOf f.head.slot⟩ k p (Ctx.pos ⟨fs, c.left, c.right⟩) :=
      ⟨rfl, hf.pool, hK.sound.resolve_idOf⟩
    refine ⟨hfp, ?_⟩
    rw [isFailure_of_finds hfp, hK.sound.kindAt_pos]
    simpa using hkf

theorem Exact.replaceWith_view (hE : h.Exact own) (r t : Handle) (hne : r ≠ t)
    (ht : h.isFailure t = false) :
    Guarded (Heap.replaceWith r t) h
      (fun _ => EditsView (fun F F' => ReplacesWith F r.id t.id F') r h) := by
  unfold Heap.replaceWith
  refine (reads_locate r).bind fun off hoff => ?_
  obtain ⟨k, p, hf⟩ := hoff
  refine (hf.reads_sibling t).bind fun toff hft => ?_
  refine hf.reads_homeOf.bind fun k' hk' => ?_
  subst hk'
  refine hf.reads_pool.bind fun q hq => ?_
  subst hq
  obtain ⟨c, nd, ks, hK, hs, rfl⟩ := hE.site hf
  have hid : p.slots.idOf nd.slot = r.id := by
    rw [hs]
    exact hf.idOf_slot
  split
  · -- below a parent: replacing the child `r` of that parent
    rename_i q hq
    obtain ⟨hfp, hpr⟩ := hE.parent_site hf hq
    refine (hE.replaceChild_view _ r t hne hpr ht).mono fun _ h' hv => ?_
    obtain ⟨k', p', p'', hk', hp', rfl, hrel⟩ := hv
    obtain rfl : k = k' := Option.some.inj hk'
    obtain rfl : p = p' := Option.some.inj (hf.pool.symm.trans hp')
    exact ⟨k, p, p'', hf.home, hf.pool, rfl, hrel.replacesWith⟩
  rename_i hroot
  -- a root: the forest stays as it is
  have hup : c.up = [] := hK.sound.parentOf_eq_none_iff.mp hroot
  have horph : Forest.Orphan p.view r.id := by
    rw [← hid]
    exact hK.sound.view_orphan hup
  split
  · exact guarded_pure (editsView_self hf.home hf.pool (.inr ⟨horph, rfl⟩))
  rename_i hidt
  split
  · exact guarded_pure (editsView_self hf.home hf.pool (.inr ⟨horph, rfl⟩))
  rename_i htroot
  obtain ⟨L, R, A, B, T, U, hK', hsplit, hpos, hposT⟩ :=
    hE.moveRoot_site hf hft hroot hidt (by simpa using htroot)
  obtain ⟨n, p', hrun, -, -⟩ := hK'.moveRoot hsplit
  have hview := hK'.sound.moveRoot_view hsplit hrun
  rw [hpos, hposT] at hrun
  refine guarded_onPool hf.pool (.inr ⟨(), p', ?_, k, p, p', hf.home, hf.pool, rfl,
    .inr ⟨horph, hview⟩⟩)
  rw [run_bind_ok hrun]
  rfl

/-! ### Over every reachable heap -/

/-- Each public edit run from `h` that returns normally edits the view of its receiver's home as
the matching edit of `Forest` says, when the nodes the edit would check for failures are none. -/
structure EditsRefine (h : Heap) : Prop where
  addChild : ∀ r t index count, h.isFailure r = false → h.isFailure t = false →
    Guarded (Heap.addChild r t index count) h
      (fun _ => EditsView (fun F F' => AddsChild F r.id t.id index.toNat F') r h)
  removeChildAt : ∀ r i, Guarded (Heap.removeChildAt r i) h
    (fun _ => EditsView (fun F F' => RemovesChildAt F r.id i.toNat F') r h)
  removeChild : ∀ r t count, Guarded (Heap.removeChild r t count) h
    (fun _ => EditsView (fun F F' => RemovesChild F r.id t.id F') r h)
  removeChildren : ∀ r, Guarded (Heap.removeChildren r) h
    (fun _ => EditsView (fun F F' => RemovesChildren F r.id F') r h)
  replaceChild : ∀ r old new, old ≠ new → h.isFailure r = false → h.isFailure new = false →
    Guarded (Heap.replaceChild r old new) h
      (fun _ => EditsView (fun F F' => ReplacesChild F r.id old.id new.id F') r h)
  replaceWith : ∀ r t, r ≠ t → h.isFailure t = false →
    Guarded (Heap.replaceWith r t) h
      (fun _ => EditsView (fun F F' => ReplacesWith F r.id t.id F') r h)

theorem Exact.editsRefine (hE : h.Exact own) : h.EditsRefine :=
  ⟨hE.addChild_view, hE.removeChildAt_view, hE.removeChild_view, hE.removeChildren_view,
    hE.replaceChild_view, hE.replaceWith_view⟩

end Heap

end TreeArena
