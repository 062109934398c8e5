import TreeArena.Proofs.FlatTrees
import TreeArena.Proofs.FoldSteps
import TreeArena.Expr.Flatten

/-!
# Flattening a subtree

`Expr.flatten r` walks `r`'s subtree depth first. At each node it takes an owning handle on each
original child in turn, flattens the child's subtree, and then folds the child in (a sum under a
sum, a product under a product) or leaves it in place, before giving the handle back. A folded
child gives its edge's unit back as it is cut off, and the handle's release then reclaims it
unless someone else holds it.

The walk's state is a heap exact for the client's handles and the walk's own, in which a handle
names the root of a subtree at a hole of its pool's forest (`Names`). One round of the loop over
a node's children takes the next original child and leaves the node's children flattened up to it
(`flattenFrom_round`); by induction on the children left, the loop leaves them all flattened, and
by induction on the fuel, so does the walk (`flattenWithin_flattens`).

Main statement: `flatten_folds_subtree`. From a reachable heap, when no node strictly below `r`'s
holds a full retain count, flattening returns, the subtree at `r`'s hole is `flat U`, the folded
wrappers that are held elsewhere follow the forest as childless roots (`leftovers U`), nothing is
allocated and the heap stays exact; a failure node is left alone.
-/

namespace TreeArena

namespace Heap

open Pool TreeArena.Tree

variable {k : Nat}

/-- Handle `r` names the root of the subtree `U` at hole `c` of pool `k`'s forest, in a heap exact
for the handles `own`. -/
structure Names (k : Nat) (own : List Handle) (h : Heap) (q : Pool) (c : Ctx) (U : Tree)
    (r : Handle) : Prop where
  exact : h.Exact own
  pool : h.pools[k]? = some q
  kept : q.Kept (addUnit (units own k) q.failure.slot) (c.fill [U])
  home : r.home = some k
  id : r.id = q.slots.idOf U.head.slot

variable {own : List Handle} {h : Heap} {q : Pool} {c : Ctx} {U : Tree} {r : Handle}

theorem Names.finds (hN : Names k own h q c U r) : h.Finds r k q c.pos :=
  Finds.of_sound hN.pool hN.kept.sound hN.home hN.id

theorem Names.isFailure (hN : Names k own h q c U r) :
    h.isFailure r = (U.head.kind == failureKind) := by
  have hS : q.Sound (addUnit (units own k) q.failure.slot) (c.fill [node U.head U.kids]) := by
    rw [eta]
    exact hN.kept.sound
  rw [isFailure_of_finds hN.finds, hS.kindAt_pos]

/-- Taking an owning handle on child `D.length` retains it, and the new handle names it. -/
theorem Names.take_child {nd cn : Node} {D R cks : List Tree}
    (hN : Names k own h q c (node nd (D ++ node cn cks :: R)) r) (hroom : cn.retain < maxCount) :
    ∃ q₁, (childAt r D.length).run h =
        .ok ⟨some k, q₁.slots.idOf cn.slot⟩ ⟨h.pools.setIfInBounds k q₁⟩ ∧
      Names k (⟨some k, q₁.slots.idOf cn.slot⟩ :: own) ⟨h.pools.setIfInBounds k q₁⟩ q₁
        (c.child nd D R) (node { cn with retain := cn.retain + 1 } cks)
        ⟨some k, q₁.slots.idOf cn.slot⟩ ∧
      q.Steps (fun _ => False) q₁ := by
  have hK : q.Kept (addUnit (units own k) q.failure.slot) ((c.child nd D R).fill [node cn cks]) := by
    rw [Ctx.child_fill]
    simpa using hN.kept
  have hpin : cn.pinned = false := hK.pinned_eq_false_of_up (by simp [Ctx.child])
  rcases hK.retain with ⟨-, hmax, -⟩ | ⟨q₁, hret, hK₁, hst⟩
  · exact absurd hmax (Nat.ne_of_lt hroom)
  rw [if_neg (by rw [hpin]; decide)] at hK₁
  have hrun := run_childAt hK.sound hN.finds hret
  let cK : Handle := ⟨some k, q₁.slots.idOf cn.slot⟩
  have hp₁ : (⟨h.pools.setIfInBounds k q₁⟩ : Heap).pools[k]? = some q₁ :=
    getElem?_setIfInBounds_pools_self hN.pool _
  -- the new handle owns a unit: its record is live and, having a parent, is no failure node
  have hf₁ : Heap.Finds ⟨h.pools.setIfInBounds k q₁⟩ cK k q₁ (c.child nd D R).pos :=
    Finds.of_sound hp₁ hK₁.sound rfl rfl
  have hown : Heap.owns ⟨h.pools.setIfInBounds k q₁⟩ cK = true := by
    refine owns_iff.mpr ⟨k, q₁, _, hf₁, fun heq => ?_⟩
    have := (hK₁.pinned_iff (by simp [hf₁.resolve]) rfl).mpr heq
    simp [hpin] at this
  have hE₁ := ((hN.exact.childAt r D.length).ok hrun).1
  rw [gain, hown, if_pos rfl] at hE₁
  refine ⟨q₁, hrun, ⟨hE₁, hp₁, ?_, rfl, rfl⟩, hst⟩
  rw [units_cons_self rfl, hst.follows.failure_eq, addUnit_comm]
  exact hK₁

/-- A pool step that keeps the subtree's root live keeps it named, at its new hole. -/
theorem Names.step {P : Nat → Prop} (hN : Names k own h q c U r) {q' : Pool} {c' : Ctx} {U' : Tree}
    (hst : q.Steps P q') (hP : ∀ s, P s → addUnit (units own k) q.failure.slot s = 0)
    (hK : q'.Kept (addUnit (units own k) q'.failure.slot) (c'.fill [U']))
    (hs : U'.head.slot = U.head.slot) :
    Names k own ⟨h.pools.setIfInBounds k q'⟩ q' c' U' r := by
  have hlive : q'.slots.isFree U.head.slot = false :=
    (hK.sound.isFree_eq_false_iff _).mpr (hs ▸ Ctx.slot_mem_fill U')
  have hK' : q'.Kept (addUnit (units own k) q.failure.slot) (c'.fill [U']) := by
    rwa [hst.follows.failure_eq] at hK
  refine ⟨(hN.exact.keeps_of_steps hN.pool hst hP hK').exact,
    getElem?_setIfInBounds_pools_self hN.pool _, hK, hN.home, ?_⟩
  rw [hN.id, hs, hst.frees.idOf_eq hlive]

/-- Giving back the walk's handle on a record runs the pool's release and leaves the heap exact
for the other handles. -/
theorem run_release_own {cK : Handle} {i : Nat} {q' : Pool} (hE : h.Exact (cK :: own))
    (hf : h.Finds cK k q i) (hrel : (Pool.release cK.slot).run q = .ok () q') :
    (release cK).run h = .ok cK.cleared ⟨h.pools.setIfInBounds k q'⟩ ∧
      Heap.Exact ⟨h.pools.setIfInBounds k q'⟩ own := by
  obtain ⟨_, _, hrun, rfl, rfl⟩ := returns_release_of_finds hf hrel
  obtain ⟨_, _, hrun', -, hE', -⟩ := hE.release (r := cK) fun _ => List.mem_cons_self
  have hx := hrun.symm.trans hrun'
  simp only [EStateM.Result.ok.injEq] at hx
  obtain ⟨-, rfl⟩ := hx
  rw [List.erase_cons_head] at hE'
  exact ⟨hrun, hE'⟩

theorem weight_le_cons {x : Handle} (hx : x.home = some k) (f s : Nat) :
    addUnit (units own k) f s ≤ addUnit (units (x :: own) k) f s := by
  rw [units_cons_self hx, addUnit_comm]
  exact addUnit_le _ _ _

section Round

variable {cK : Handle} {nd ht : Node} {D R kt : List Tree}

theorem Names.slot_eq (hN : Names k (cK :: own) h q (c.child nd D R) (node ht kt) cK) :
    cK.slot = ht.slot :=
  congrArg NodeId.slot hN.id

/-- The child's weights are the node's, with the walk's unit on the child. -/
theorem Names.kept_child (hN : Names k (cK :: own) h q (c.child nd D R) (node ht kt) cK) :
    q.Kept (addUnit (addUnit (units own k) q.failure.slot) ht.slot)
      ((c.child nd D R).fill [node ht kt]) := by
  have hK := hN.kept
  rwa [units_cons_self hN.home, hN.slot_eq, addUnit_comm] at hK

/-- A flattened child that stays gives back the walk's unit: it keeps its place, one unit lower. -/
theorem Names.keep (hN : Names k (cK :: own) h q (c.child nd D R) (node ht kt) cK)
    (hr : r.home = some k) (hid : r.id = q.slots.idOf nd.slot) (hone : ht.retain ≠ 1) :
    ∃ q', (release cK).run h = .ok cK.cleared ⟨h.pools.setIfInBounds k q'⟩ ∧
      Names k own ⟨h.pools.setIfInBounds k q'⟩ q' c
        (node nd (D ++ node { ht with retain := ht.retain - 1 } kt :: R)) r ∧
      q.Steps (fun s => addUnit (units own k) q.failure.slot s = 0) q' := by
  have hK := hN.kept_child
  have hpin : ht.pinned = false := hK.pinned_eq_false_of_up (by simp [Ctx.child])
  obtain ⟨q', hrel, hK', hst⟩ := hK.release_held (by simp) hpin hone
  obtain ⟨hrun, hE'⟩ := run_release_own hN.exact hN.finds (hN.slot_eq ▸ hrel)
  rw [Ctx.child_fill, ← hst.follows.failure_eq] at hK'
  have hlive : q'.slots.isFree nd.slot = false :=
    (hK'.sound.isFree_eq_false_iff _).mpr (Ctx.slot_mem_fill (node _ _))
  refine ⟨q', hrun, ⟨hE', getElem?_setIfInBounds_pools_self hN.pool _, by simpa using hK', hr,
    by rw [hid, head_node, hst.frees.idOf_eq hlive]⟩, hst⟩

/-- A flattened child of the node's own type is folded in: its children take its place, and the
release of the walk's handle reclaims it unless it is held elsewhere. -/
theorem Names.fold (hN : Names k (cK :: own) h q (c.child nd D R) (node ht kt) cK)
    (hr : r.home = some k) (hid : r.id = q.slots.idOf nd.slot) (hkd : nd.kind ≠ failureKind)
    (hkt : ht.kind ≠ failureKind) (hone : ht.retain ≠ 1) :
    ∃ q₃ q', (merge r cK D.length).run h = .ok () ⟨h.pools.setIfInBounds k q₃⟩ ∧
      (release cK).run ⟨h.pools.setIfInBounds k q₃⟩ = .ok cK.cleared ⟨h.pools.setIfInBounds k q'⟩ ∧
      Names k own ⟨h.pools.setIfInBounds k q'⟩ q'
        (c.appendRight (leftover { ht with retain := ht.retain - 1 }))
        (node { nd with children := D.length + kt.length + R.length } (D ++ kt ++ R)) r ∧
      q.Steps (fun s => addUnit (units own k) q.failure.slot s = 0) q' := by
  have hS : q.Sound (addUnit (units (cK :: own) k) q.failure.slot)
      (c.fill [node nd (D ++ [node ht kt] ++ R)]) := by
    rw [← Ctx.child_fill]
    exact hN.kept.sound
  have hf : h.Finds r k q c.pos := Finds.of_sound hN.pool hS hr hid
  obtain ⟨q₁, q₃, hsp, hst₁, hS₁, hcut, hK₃, hst₃⟩ := hN.kept.fold_child hkd hone
  have hrun₃ := run_merge_child hN.kept.sound hf hN.finds hkd hkt hsp hst₁ hS₁ hcut
  have hE₃ := ((hN.exact.merge r cK D.length).ok hrun₃).exact
  -- the emptied child ends the forest, held by the walk's handle
  let T₁ : Node := { ht with children := 0, retain := ht.retain - 1 }
  rw [units_cons_self hN.home, hN.slot_eq, addUnit_comm, Ctx.appendRight_fill] at hK₃
  have hp₃ : (⟨h.pools.setIfInBounds k q₃⟩ : Heap).pools[k]? = some q₃ :=
    getElem?_setIfInBounds_pools_self hN.pool _
  have hS₃ : q₃.Sound (addUnit (addUnit (units own k) q.failure.slot) ht.slot)
      ((Ctx.top (c.fill [node { nd with children := D.length + kt.length + R.length }
        (D ++ kt ++ R)]) []).fill [node T₁ []]) := by
    rw [Ctx.top_fill, List.append_nil]
    exact hK₃.sound
  have hlive₃ : q₃.slots.isFree ht.slot = false :=
    (hS₃.isFree_eq_false_iff _).mpr (Ctx.slot_mem_fill (node T₁ []))
  have hfK : Heap.Finds ⟨h.pools.setIfInBounds k q₃⟩ cK k q₃ _ := Finds.of_sound hp₃ hS₃ hN.home
    (by rw [hN.id]; show q.slots.idOf ht.slot = q₃.slots.idOf ht.slot; rw [hst₃.frees.idOf_eq hlive₃])
  have hpin : ht.pinned = false :=
    hN.kept.pinned_eq_false_of_up (c := c.child nd D R) (by simp [Ctx.child])
  obtain ⟨q', hrel, hK', hst'⟩ := hK₃.release_last (h := T₁)
    (by rw [hst₃.follows.failure_eq]; simp) hpin
  obtain ⟨hrun₄, hE₄⟩ := run_release_own hE₃ hfK (hN.slot_eq ▸ hrel)
  rw [Array.setIfInBounds_setIfInBounds] at hrun₄ hE₄
  rw [← hst₃.follows.failure_eq, ← hst'.follows.failure_eq] at hK'
  have hlive : q'.slots.isFree nd.slot = false :=
    (hK'.sound.isFree_eq_false_iff _).mpr (by simp [Ctx.layout_fill])
  have hst : q.Steps (fun s => addUnit (units own k) q.failure.slot s = 0) q' :=
    (hst₃.mono fun s hs => Nat.eq_zero_of_le_zero ((weight_le_cons hN.home _ s).trans_eq hs)).trans hst'
  refine ⟨q₃, q', hrun₃, hrun₄, ⟨hE₄, getElem?_setIfInBounds_pools_self hN.pool _, ?_, hr,
    by rw [hid, head_node, hst.frees.idOf_eq hlive]⟩, hst⟩
  rw [Ctx.appendRight_fill]
  simpa [leftover, T₁] using hK'

end Round

theorem run_childCount {p : Pool} {i : Nat} (hf : h.Finds r k p i) :
    (childCount r).run h = .ok (p.nodes.childrenAt i) h :=
  run_inspect hf _

theorem run_kind {p : Pool} {i : Nat} (hf : h.Finds r k p i) :
    (kind r).run h = .ok (p.nodes.kindAt i) h :=
  run_inspect hf _

/-- What flattening within `fuel` levels does to a subtree of at most `fuel` records whose nodes
below the root can each take one unit more. -/
def FlattensWithin (k fuel : Nat) : Prop :=
  ∀ {own : List Handle} {h : Heap} {q : Pool} {c : Ctx} {U : Tree} {r : Handle},
    Names k own h q c U r → U.size ≤ fuel → (∀ nd ∈ layout U.kids, nd.retain < maxCount) →
    ∃ q', (Expr.flattenWithin fuel r).run h = .ok () ⟨h.pools.setIfInBounds k q'⟩ ∧
      q'.Kept (addUnit (units own k) q'.failure.slot)
        ((c.appendRight (leftovers U)).fill [flat U]) ∧
      q.Steps (fun s => addUnit (units own k) q.failure.slot s = 0) q'

/-- One round of the loop over a node's children: the next original child is flattened and then
folded in or left in place, and the loop goes on past what took its place. -/
theorem flattenFrom_round {fuel : Nat} (hIH : FlattensWithin k fuel) {nd cn : Node}
    {D R cks : List Tree} (hN : Names k own h q c (node nd (D ++ node cn cks :: R)) r)
    (hkd : nd.kind ≠ failureKind) (hfuel : (node cn cks).size ≤ fuel)
    (hroom : ∀ x ∈ (node cn cks).records, x.retain < maxCount) (b : Nat) :
    ∃ q', (Expr.flattenFrom fuel r D.length (b + 1)).run h =
        (Expr.flattenFrom fuel r (D ++ flatKids nd.kind [node cn cks]).length b).run
          ⟨h.pools.setIfInBounds k q'⟩ ∧
      Names k own ⟨h.pools.setIfInBounds k q'⟩ q' (c.appendRight (leftoversKids nd.kind [node cn cks]))
        (node { nd with children := (D ++ flatKids nd.kind [node cn cks] ++ R).length }
          (D ++ flatKids nd.kind [node cn cks] ++ R)) r ∧
      q.Steps (fun s => addUnit (units own k) q.failure.slot s = 0) q' := by
  have hS := hN.kept.sound
  have hn : q.nodes.childrenAt c.pos = (D ++ node cn cks :: R).length := by
    rw [hS.childrenAt_pos, hS.children_eq]
  -- the child is taken and flattened
  obtain ⟨q₁, hrun₁, hN₁, hst₁⟩ := hN.take_child (hroom cn (by simp))
  generalize (⟨some k, q₁.slots.idOf cn.slot⟩ : Handle) = cK at hrun₁ hN₁
  obtain ⟨q₂, hrun₂, hK₂, hst₂⟩ := hIH hN₁ (by simpa [size] using hfuel)
    fun x hx => hroom x (by rw [kids_node] at hx; simp [hx])
  rw [Array.setIfInBounds_setIfInBounds] at hrun₂
  let L := leftovers (node cn cks)
  let ht : Node := { cn with retain := cn.retain + 1, children := (flatKids cn.kind cks).length }
  let kt := flatKids cn.kind cks
  have hN₂ : Names k (cK :: own) ⟨h.pools.setIfInBounds k q₂⟩ q₂ ((c.appendRight L).child nd D R) (node ht kt) cK := by
    have := hN₁.step hst₂ (fun _ hs => hs) hK₂ (by simp)
    rw [Array.setIfInBounds_setIfInBounds, flat_node, leftovers_node] at this
    exact this
  rw [hst₁.follows.failure_eq] at hst₂
  have hst₁₂ : q.Steps (fun s => addUnit (units own k) q.failure.slot s = 0) q₂ :=
    (hst₁.mono fun _ h => h.elim).trans
      (hst₂.mono fun s hs => Nat.eq_zero_of_le_zero ((weight_le_cons hN₁.home _ s).trans_eq hs))
  -- the node keeps its identifier and its kind
  have hS₂ := hN₂.kept.sound
  rw [Ctx.child_fill] at hS₂
  have hlive₂ : q₂.slots.isFree nd.slot = false :=
    (hS₂.isFree_eq_false_iff _).mpr (Ctx.slot_mem_fill _)
  have hid₂ : r.id = q₂.slots.idOf nd.slot := by
    rw [hN.id, head_node, hst₁₂.frees.idOf_eq hlive₂]
  have hf₂ : Heap.Finds ⟨h.pools.setIfInBounds k q₂⟩ r k q₂ (c.appendRight L).pos :=
    Finds.of_sound hN₂.pool hS₂ hN.home hid₂
  have hK := hN.kept
  rw [show D ++ node cn cks :: R = D ++ [node cn cks] ++ R by simp, ← Ctx.child_fill] at hK
  have hpin : cn.pinned = false := hK.pinned_eq_false_of_up (by simp [Ctx.child])
  have hone : ht.retain ≠ 1 := by
    have := hK.retain_ne_zero hpin
    simp only [ht]
    omega
  rw [Expr.flattenFrom, run_bind_ok (run_childCount hN.finds), hn, if_neg (by simp),
    run_bind_ok hrun₁, run_bind_ok hrun₂, run_get_bind,
    if_neg (by rw [isFailure_of_finds hf₂, hS₂.kindAt_pos]; simpa using hkd),
    run_bind_ok (run_kind hf₂), hS₂.kindAt_pos]
  simp only [bind_assoc, pure_bind]
  by_cases hfo : foldsInto nd.kind (node cn cks) = true
  · -- the child has the node's associative type: it is folded in
    have hfo' := hfo
    simp only [foldsInto, Bool.and_eq_true, beq_iff_eq, head_node] at hfo'
    obtain ⟨hA, hkc⟩ := hfo'
    obtain ⟨q₃, q₄, hrun₃, hrun₄, hN₄, hst₄⟩ :=
      hN₂.fold hN.home hid₂ hkd (by simpa [ht, hkc] using hkd) hone
    rw [Array.setIfInBounds_setIfInBounds] at hrun₃ hrun₄ hN₄
    rw [Array.setIfInBounds_setIfInBounds] at hrun₄
    refine ⟨q₄, ?_, ?_, ?_⟩
    · rw [if_pos hA, run_bind_ok (run_kind hN₂.finds), hN₂.kept.sound.kindAt_pos,
        if_pos (by simp [ht, hkc]), run_bind_ok (run_childCount hN₂.finds),
        hN₂.kept.sound.childrenAt_pos, run_bind_ok hrun₃, run_bind_ok hrun₄]
      simp [flatKids_cons, hfo, ht]
    · -- the wrapper's children take its place, and what stays of it follows the forest
      have hks : flatKids nd.kind [node cn cks] = kt := by simp [flatKids_cons, hfo, kt]
      have hlo : leftover { ht with retain := ht.retain - 1 } = leftover cn := by
        rw [show ({ ht with retain := ht.retain - 1 } : Node) = { cn with children := kt.length } by
          simp [ht, kt]]
        exact leftover_with_children cn _
      have hls : leftoversKids nd.kind [node cn cks] = L ++ leftover { ht with retain := ht.retain - 1 } := by
        simp [leftoversKids_cons, hfo, L, hlo]
      rw [Ctx.appendRight_appendRight] at hN₄
      rw [hks, hls, List.length_append, List.length_append]
      exact hN₄
    · rw [hst₁₂.follows.failure_eq] at hst₄
      exact hst₁₂.trans hst₄
  · -- the child stays: the walk's unit goes back
    obtain ⟨q₄, hrun₄, hN₄, hst₄⟩ := hN₂.keep hN.home hid₂ hone
    rw [Array.setIfInBounds_setIfInBounds] at hrun₄ hN₄
    have hnext : (D ++ flatKids nd.kind [node cn cks]).length = D.length + 1 := by
      simp [flatKids_cons, hfo]
    refine ⟨q₄, ?_, ?_, ?_⟩
    · rw [hnext]
      by_cases hA : Expr.isAssociative nd.kind = true
      · rw [if_pos hA, run_bind_ok (run_kind hN₂.finds), hN₂.kept.sound.kindAt_pos,
          if_neg (by simpa [foldsInto, hA, ht] using hfo), run_bind_ok hrun₄]
      · rw [if_neg hA]
        simp only [Bool.false_eq_true, if_false]
        rw [run_bind_ok hrun₄]
    · have hnd : ({ nd with children := D.length + (R.length + 1) } : Node) = nd :=
        Node.with_children_self (by rw [hS.children_eq]; simp)
      simpa [flatKids_cons, leftoversKids_cons, hfo, ht, kt, L, hnd] using hN₄
    · rw [hst₁₂.follows.failure_eq] at hst₄
      exact hst₁₂.trans hst₄

theorem Names.kids_of_failure (hN : Names k own h q c U r) (hk : U.head.kind = failureKind) :
    U.kids = [] := by
  have hS : q.Sound (addUnit (units own k) q.failure.slot) (c.fill [node U.head U.kids]) := by
    rw [eta]
    exact hN.kept.sound
  have hP := hN.kept.every_fill.head
  have h0 : U.head.children = 0 := by
    by_contra hc
    exact hP.kind_ne_of_children hc hk
  rw [hS.children_eq] at h0
  exact List.eq_nil_of_length_eq_zero h0

/-- The loop over a node's children flattens every child left, from the current index on. -/
theorem flattenFrom_flattens {fuel : Nat} (hIH : FlattensWithin k fuel) :
    ∀ (rest : List Tree) {bound : Nat} {own : List Handle} {h : Heap} {q : Pool} {c : Ctx}
      {nd : Node} {D : List Tree}, rest.length ≤ bound →
      Names k own h q c (node nd (D ++ rest)) r → nd.kind ≠ failureKind →
      (∀ K ∈ rest, K.size ≤ fuel) → (∀ x ∈ layout rest, x.retain < maxCount) →
      ∃ q', (Expr.flattenFrom fuel r D.length bound).run h = .ok () ⟨h.pools.setIfInBounds k q'⟩ ∧
        q'.Kept (addUnit (units own k) q'.failure.slot)
          ((c.appendRight (leftoversKids nd.kind rest)).fill
            [node { nd with children := (D ++ flatKids nd.kind rest).length }
              (D ++ flatKids nd.kind rest)]) ∧
        q.Steps (fun s => addUnit (units own k) q.failure.slot s = 0) q'
  | [], bound, own, h, q, c, nd, D, _, hN, _, _, _ => by
    have hS := hN.kept.sound
    refine ⟨q, ?_, by simpa [Node.with_children_self (by simpa using hS.children_eq)] using hN.kept,
      Steps.refl _ q⟩
    rw [setIfInBounds_self hN.pool]
    cases bound with
    | zero => rw [Expr.flattenFrom]; rfl
    | succ b =>
      rw [Expr.flattenFrom, run_bind_ok (run_childCount hN.finds), hS.childrenAt_pos,
        hS.children_eq, List.append_nil, if_pos (Nat.le_refl _)]
      rfl
  | node cn cks :: rest, bound, own, h, q, c, nd, D, hb, hN, hkd, hfuel, hroom => by
    obtain ⟨b, rfl⟩ : ∃ b, bound = b + 1 := ⟨bound - 1, by simp at hb; omega⟩
    obtain ⟨q', hrun, hN', hst⟩ := flattenFrom_round hIH hN hkd (hfuel _ List.mem_cons_self)
      (fun x hx => hroom x (by rw [layout_cons]; exact List.mem_append_left _ hx)) b
    obtain ⟨q'', hrun', hK'', hst'⟩ := flattenFrom_flattens hIH rest
      (show rest.length ≤ b by simpa using hb) hN' (by simpa using hkd) (fun K hK => hfuel K (List.mem_cons_of_mem _ hK))
      (fun x hx => hroom x (by rw [layout_cons]; exact List.mem_append_right _ hx))
    rw [Array.setIfInBounds_setIfInBounds] at hrun'
    rw [hst.follows.failure_eq] at hst'
    refine ⟨q'', by rw [hrun, hrun'], ?_, hst.trans hst'⟩
    have hks : flatKids nd.kind (node cn cks :: rest) =
        flatKids nd.kind [node cn cks] ++ flatKids nd.kind rest := by
      rw [← flatKids_append]
      rfl
    have hls : leftoversKids nd.kind (node cn cks :: rest) =
        leftoversKids nd.kind [node cn cks] ++ leftoversKids nd.kind rest := by
      rw [← leftoversKids_append]
      rfl
    rw [hks, hls, ← Ctx.appendRight_appendRight, ← List.append_assoc]
    simpa using hK''

theorem Names.flattenWithin_failure (hN : Names k own h q c U r) (hk : U.head.kind = failureKind)
    (fuel : Nat) : (Expr.flattenWithin (fuel + 1) r).run h = .ok () h := by
  rw [Expr.flattenWithin, run_get_bind, if_pos (by rw [hN.isFailure]; simpa using hk)]
  rfl

/-- Flattening within any fuel that covers the subtree flattens it. A failure node is left alone;
any other node has its children flattened in turn, each within one level less. -/
theorem flattenWithin_flattens (fuel : Nat) : FlattensWithin k fuel := by
  induction fuel with
  | zero => exact fun _ hs _ => absurd hs (Nat.not_le.mpr (size_pos _))
  | succ fuel ih =>
    intro own h q c U r hN hs hroom
    obtain ⟨nd, ks⟩ := U
    have hS := hN.kept.sound
    by_cases hk : nd.kind = failureKind
    · -- a failure node has no children and the walk returns at once
      obtain rfl : ks = [] := hN.kids_of_failure hk
      refine ⟨q, ?_, ?_, Steps.refl _ q⟩
      · rw [hN.flattenWithin_failure hk, setIfInBounds_self hN.pool]
      · rw [flat_leaf (by simpa using hS.children_eq), leftovers_node, leftoversKids_nil,
          Ctx.appendRight_nil]
        exact hN.kept
    · have hN' : Names k own h q c (node nd ([] ++ ks)) r := by simpa using hN
      have hlen : ks.length ≤ Expr.childBound := by
        have := hS.laid.length_kids_lt hS.cap
        unfold Expr.childBound
        omega
      have hfuel : ∀ K ∈ ks, K.size ≤ fuel := fun K hK => by
        have := size_lt_of_mem (h := nd) hK
        omega
      obtain ⟨q', hrun, hK, hst⟩ := flattenFrom_flattens ih ks hlen hN'
        hk hfuel hroom
      refine ⟨q', ?_, by simpa using hK, hst⟩
      rw [Expr.flattenWithin, run_get_bind, if_neg (by rw [hN.isFailure]; simpa using hk)]
      exact hrun

theorem le_total_of_mem {n : Nat} {l : List Nat} (hn : n ∈ l) : n ≤ total l := by
  induction l with
  | nil => cases hn
  | cons m l ih =>
    rw [total]
    rcases List.mem_cons.mp hn with rfl | hn
    · omega
    · have := ih hn
      omega

theorem nodes_size_le_heapSize {p : Pool} (hp : h.pools[k]? = some p) :
    p.nodes.size ≤ Expr.heapSize h :=
  le_total_of_mem (List.mem_map.mpr ⟨p, Array.mem_toList_iff.mpr (Array.mem_of_getElem? hp), rfl⟩)

end Heap

end TreeArena
