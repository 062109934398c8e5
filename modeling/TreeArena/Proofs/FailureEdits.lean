import TreeArena.Proofs.Reachable

/-!
# Edits given an allocation failure

An allocation failure never sits inside a tree: every record of the failure type is a childless
root without payload (`Pool.Kept.bare_at`). An edit handed a failure degrades its receiver
instead of attaching it. `replaceWithFailure r n`, with `n` the receiver's children count, turns
the receiver and every ancestor into failure records in place, releases their children, logs one
line per record from the receiver up, and allocates nothing (`Heap.Exact.degrades`, from
`Pool.degrade_spec`). `addChild`, `merge` and `replaceChild` on a receiver that is not a failure,
given a failure node of its pool, run exactly `replaceWithFailure` on the receiver, and so does
`replaceWith` on a child of the receiver (`Heap.run_addChild_failure` and the lemmas after it).

`replaceChild` is the exception when the child to replace is the failure itself: it returns at
once when its two arguments are the same handle, before it looks at them, and the receiver stays
as it was.
-/

namespace TreeArena

namespace Pool

variable {p : Pool} {w : Nat → Nat} {ts : List Tree} {i : Nat} {nd : Node}

/-- A record of the failure type in a kept pool is a root with no children and no payload. -/
theorem Kept.bare_at (hK : p.Kept w ts) (hi : p.nodes[i]? = some nd)
    (hkind : nd.kind = failureKind) :
    p.nodes.parentOf i = none ∧ nd.children = 0 ∧ nd.payload = [] := by
  obtain ⟨hroot, hc, hpay⟩ := (hK.proper_at hi).bare hkind
  exact ⟨Option.isNone_iff_eq_none.mp hroot, hc, hpay⟩

theorem Kept.kind_ne_of_parent (hK : p.Kept w ts) (hi : p.nodes[i]? = some nd) {q : Nat}
    (hpar : p.nodes.parentOf i = some q) : nd.kind ≠ failureKind := fun hkind => by
  simp [(hK.bare_at hi hkind).1] at hpar

end Pool

namespace Heap

open Pool TreeArena.Tree

variable {h h' : Heap} {own : List Handle} {b : Bool} {r t : Handle} {k : Nat} {p : Pool}
  {off toff : Nat}

/-! ### Runs of the reads an edit starts with -/

theorem run_bind_of_returns {α β : Type} {x : HeapM α} {f : α → HeapM β} {a : α}
    (hx : Returns x h fun a' h' => a' = a ∧ h' = h) : (x >>= f).run h = (f a).run h := by
  obtain ⟨a', h', hrun, rfl, rfl⟩ := hx
  exact run_bind_ok hrun

theorem returns_failureAt (hp : h.pools[k]? = some p) (off : Nat) :
    Returns (failureAt k off) h fun a h' => a = (p.nodes.kindAt off == failureKind) ∧ h' = h :=
  returns_readPool hp _

theorem returns_checkChildCount (hp : h.pools[k]? = some p) (off : Nat) :
    Returns (checkChildCount k off (p.nodes.childrenAt off)) h fun a h' => a = () ∧ h' = h := by
  unfold checkChildCount
  refine (returns_readPool hp id).bind fun a h₁ ⟨ha, hh⟩ => ?_
  subst a h₁
  rw [if_neg (by simp)]
  exact returns_pure ⟨rfl, rfl⟩

/-! ### Degrading -/

/-- Degrading a live record that is not a failure, given its children count, runs the pool's
degrading on it: the record and its ancestors become failure records in place, their children
are released, one line is logged per record from it up, and only slots owed nothing are freed. -/
theorem Exact.degrades (hE : h.Exact own) (hr : h.Finds r k p off)
    (hk : p.nodes.kindAt off ≠ failureKind) :
    ∃ (w : Nat → Nat) (c : Ctx) (nd : Node) (ks : List Tree), p.Kept w (c.fill [node nd ks]) ∧
      c.pos = off ∧ nd.slot = r.slot ∧ Degrades (degrade r.slot) p w c nd ks ∧
      ∀ p', (degrade r.slot).run p = .ok () p' →
        (Heap.replaceWithFailure r (p.nodes.childrenAt off)).run h =
          .ok () ⟨h.pools.setIfInBounds k p'⟩ := by
  obtain ⟨c, nd, ks, hK, hs, rfl⟩ := hE.site hr
  have hnd : nd.kind ≠ failureKind := by
    rwa [hK.sound.kindAt_pos] at hk
  refine ⟨_, c, nd, ks, hK, rfl, hs, ?_, fun p' hrun => ?_⟩
  · rw [show r.slot = nd.slot from hs.symm]
    exact degrade_spec hK.sound fun a ha => (hK.chain_kinds hnd a ha).1
  · unfold Heap.replaceWithFailure
    rw [run_bind_of_returns (returns_locate hr), run_bind_of_returns (returns_homeOf hr.home),
      run_bind_of_returns (returns_failureAt hr.pool _), if_neg (by simpa using hk),
      run_bind_of_returns (returns_checkChildCount hr.pool _)]
    exact run_onPool_ok hr.pool hrun

/-! ### Edits that hand over to degrading -/

/-- Adding a failure node of the receiver's pool degrades the receiver with the count given. -/
theorem run_addChild_failure (hr : h.Finds r k p off) (hk : p.nodes.kindAt off ≠ failureKind)
    (ht : h.Finds t k p toff) (htk : p.nodes.kindAt toff = failureKind) (index count : Int) :
    (addChild r t index count).run h = (replaceWithFailure r count).run h := by
  unfold addChild
  rw [run_bind_of_returns (returns_locate hr), run_bind_of_returns (returns_homeOf hr.home),
    run_bind_of_returns (returns_failureAt hr.pool _), if_neg (by simpa using hk),
    run_bind_of_returns (returns_sibling hr.home ht), run_get_bind,
    if_pos (by simp [isFailure_of_finds ht, htk])]
  simp

/-- Merging a failure node of the receiver's pool degrades the receiver. -/
theorem run_merge_failure (hr : h.Finds r k p off) (hk : p.nodes.kindAt off ≠ failureKind)
    (ht : h.Finds t k p toff) (htk : p.nodes.kindAt toff = failureKind) (i : Int) :
    (merge r t i).run h = (replaceWithFailure r (p.nodes.childrenAt off)).run h := by
  unfold merge
  rw [run_bind_of_returns (returns_locate hr), run_bind_of_returns (returns_homeOf hr.home),
    run_bind_of_returns (returns_failureAt hr.pool _), if_neg (by simpa using hk),
    run_bind_of_returns (returns_sibling hr.home ht), run_get_bind,
    if_pos (by simp [isFailure_of_finds ht, htk]), run_bind_of_returns (returns_readPool hr.pool id)]
  simp

/-- Replacing a child by a failure node of the receiver's pool degrades the receiver, unless the
child to replace is given by the same handle. -/
theorem run_replaceChild_failure (hr : h.Finds r k p off) (hk : p.nodes.kindAt off ≠ failureKind)
    (ht : h.Finds t k p toff) (htk : p.nodes.kindAt toff = failureKind) {old : Handle}
    (hold : old ≠ t) :
    (replaceChild r old t).run h = (replaceWithFailure r (p.nodes.childrenAt off)).run h := by
  unfold replaceChild
  rw [run_bind_of_returns (returns_locate hr), run_bind_of_returns (returns_homeOf hr.home),
    if_neg hold, run_bind_of_returns (returns_failureAt hr.pool _), if_neg (by simpa using hk),
    run_bind_of_returns (returns_sibling hr.home ht), run_get_bind,
    if_pos (by simp [isFailure_of_finds ht, htk]), run_bind_of_returns (returns_readPool hr.pool id)]
  simp

/-- Replacing a child of the receiver by a failure node of its pool degrades the receiver. -/
theorem run_replaceWith_failure (hr : h.Finds r k p off) (hk : p.nodes.kindAt off ≠ failureKind)
    (ht : h.Finds t k p toff) (htk : p.nodes.kindAt toff = failureKind) {x : Handle} {xoff : Nat}
    (hx : h.Finds x k p xoff) (hxk : p.nodes.kindAt xoff ≠ failureKind)
    (hpar : p.nodes.parentOf xoff = some off) (hloc : p.slots.Locates p.nodes.toList) :
    (replaceWith x t).run h = (replaceWithFailure r (p.nodes.childrenAt off)).run h := by
  -- the parent's handle, rebuilt from its slot, is the receiver's
  have hslot : p.slots.idOf (p.nodes.slotAt off) = r.id := by
    obtain ⟨hlt, hs⟩ := hloc.slot_position (SlotTable.position_of_resolve hr.resolve)
    have hat : p.nodes.slotAt off = r.slot := by
      simp only [Arena.slotAt, Array.getElem?_eq_getElem (by simpa using hlt), Option.map_some,
        Option.getD_some]
      simpa [Handle.slot] using hs
    have hgen := ((SlotTable.resolve_isSome_iff _ _).mp
      (Option.isSome_iff_exists.mpr ⟨_, hr.resolve⟩)).2.2.1
    rw [hat]
    show (⟨r.id.slot, p.slots.generation r.id.slot⟩ : NodeId) = r.id
    rw [hgen]
  have hxt : x ≠ t := by
    rintro rfl
    obtain ⟨-, -, rfl⟩ := hx.unique ht
    exact hxk htk
  unfold replaceWith
  rw [run_bind_of_returns (returns_locate hx), run_bind_of_returns (returns_sibling hx.home ht),
    run_bind_of_returns (returns_homeOf hx.home), run_bind_of_returns (returns_readPool hx.pool id)]
  simp only [id, hpar, hslot]
  rw [show (⟨some k, r.id⟩ : Handle) = r from Handle.eq_of_home_id hr.home.symm rfl]
  exact run_replaceChild_failure hr hk ht htk hxt

end Heap

end TreeArena
