import TreeArena.Proofs.Zipper

/-!
# Ownership units held by the records

A record's retain count is the number of units it holds: one for the edge from its parent, if it
has one, and one for each owner. `Tree.Held w root t` says that every record of `t` holds exactly
that, with `w s` the units owed to the record in slot `s` besides its parent edge, and `root`
saying whether `t` hangs from a parent. The pinned record holds a fixed count and is exempt.

In the middle of an edit a record may hold one unit more than its place asks for, a unit in
transit: a subtree detached from its parent keeps the edge's unit until it is released or attached
elsewhere. Such units are counted in `w` through `addUnit`, and `Held.reroot` trades the edge's
unit for one in transit when a subtree becomes a root.
-/

namespace TreeArena

/-- `w` with one unit more owed to slot `s`. -/
def addUnit (w : Nat → Nat) (s : Nat) : Nat → Nat := fun x => if x = s then w x + 1 else w x

@[simp] theorem addUnit_self (w : Nat → Nat) (s : Nat) : addUnit w s s = w s + 1 := by
  simp [addUnit]

theorem addUnit_of_ne (w : Nat → Nat) {s x : Nat} (h : x ≠ s) : addUnit w s x = w x := by
  simp [addUnit, h]

/-- The record holds the units its place asks for: none of its own if pinned, otherwise one for
its parent edge unless it is a root, and `w` of its slot. -/
def Node.Holds (w : Nat → Nat) (root : Bool) (h : Node) : Prop :=
  h.pinned = true ∨ h.retain = (if root then 0 else 1) + w h.slot

namespace Tree

/-- Every record of the subtree holds the units its place asks for; the subtree's own root is a
root of the forest exactly when `root` is set. -/
inductive Held (w : Nat → Nat) : Bool → Tree → Prop
  | node {h : Node} {ks : List Tree} {root : Bool} :
      h.Holds w root → (∀ t ∈ ks, Held w false t) → Held w root (node h ks)

variable {w w' : Nat → Nat}

theorem held_node_iff {root : Bool} {h : Node} {ks : List Tree} :
    Held w root (node h ks) ↔ h.Holds w root ∧ ∀ t ∈ ks, Held w false t := by
  constructor
  · rintro ⟨hh, hks⟩
    exact ⟨hh, hks⟩
  · rintro ⟨hh, hks⟩
    exact .node hh hks

theorem mem_layout_of_mem {t : Tree} {ts : List Tree} (ht : t ∈ ts) {nd : Node}
    (hnd : nd ∈ t.records) : nd ∈ layout ts := by
  induction ts with
  | nil => cases ht
  | cons u us ih =>
    rw [layout_cons, List.mem_append]
    rcases List.mem_cons.mp ht with rfl | ht
    · exact .inl hnd
    · exact .inr (ih ht)

theorem Held.congr {root : Bool} {t : Tree} (h : Held w root t)
    (hw : ∀ nd ∈ t.records, w' nd.slot = w nd.slot) : Held w' root t := by
  induction h with
  | @node hd ks r hh _ ih =>
    refine .node ?_ fun t ht => ih t ht fun nd hnd => hw nd ?_
    · unfold Node.Holds at hh ⊢
      rwa [hw hd (by simp)]
    · simp only [records_node, List.mem_cons]
      exact .inr (mem_layout_of_mem ht hnd)

theorem held_congr_layout {root : Bool} {ts : List Tree} (h : ∀ t ∈ ts, Held w root t)
    (hw : ∀ nd ∈ layout ts, w' nd.slot = w nd.slot) : ∀ t ∈ ts, Held w' root t :=
  fun t ht => (h t ht).congr fun nd hnd => hw nd (mem_layout_of_mem ht hnd)

/-- A subtree that leaves its parent keeps the edge's unit as one in transit. -/
theorem Held.reroot {h : Node} {ks : List Tree} (hh : Held w false (Tree.node h ks))
    (hs : ∀ nd ∈ layout ks, nd.slot ≠ h.slot) : Held (addUnit w h.slot) true (Tree.node h ks) := by
  rw [held_node_iff] at hh ⊢
  refine ⟨?_, held_congr_layout hh.2 fun nd hnd => addUnit_of_ne w (hs nd hnd)⟩
  rcases hh.1 with hp | hr
  · exact .inl hp
  · right
    rw [hr, addUnit_self]
    simp
    omega

/-- A root holding one unit in transit becomes a child that holds it for its new parent edge. -/
theorem Held.unroot {h : Node} {ks : List Tree}
    (hh : Held (addUnit w h.slot) true (Tree.node h ks))
    (hs : ∀ nd ∈ layout ks, nd.slot ≠ h.slot) : Held w false (Tree.node h ks) := by
  rw [held_node_iff] at hh ⊢
  refine ⟨?_, held_congr_layout hh.2 fun nd hnd => (addUnit_of_ne w (hs nd hnd)).symm⟩
  rcases hh.1 with hp | hr
  · exact .inl hp
  · right
    rw [hr, addUnit_self]
    simp
    omega

/-! ### Around a hole -/

namespace Frame

/-- The levels above a hole hold their units: the records beside the hole as children, each
parent record as a child except the outermost, which is a root. -/
def HeldAll (w : Nat → Nat) : List Frame → Prop
  | [] => True
  | f :: fs => f.head.Holds w fs.isEmpty ∧ (∀ t ∈ f.left, Held w false t) ∧
      (∀ t ∈ f.right, Held w false t) ∧ HeldAll w fs

end Frame

namespace Ctx

/-- Everything around the hole holds its units. -/
def Held (w : Nat → Nat) (c : Ctx) : Prop :=
  Frame.HeldAll w c.up ∧ (∀ t ∈ c.left, Tree.Held w true t) ∧ ∀ t ∈ c.right, Tree.Held w true t

end Ctx

/-- Every root of the forest that is not pinned is owed a unit, so nothing unowned survives. -/
def RootsOwed (w : Nat → Nat) (ts : List Tree) : Prop :=
  ∀ t ∈ ts, t.head.pinned = false → 0 < w t.head.slot

@[simp] theorem rootsOwed_nil : RootsOwed w [] := by
  simp [RootsOwed]

@[simp] theorem rootsOwed_append {ts us : List Tree} :
    RootsOwed w (ts ++ us) ↔ RootsOwed w ts ∧ RootsOwed w us := by
  simp only [RootsOwed, List.mem_append]
  constructor
  · intro h
    exact ⟨fun t ht => h t (.inl ht), fun t ht => h t (.inr ht)⟩
  · rintro ⟨h₁, h₂⟩ t (ht | ht)
    · exact h₁ t ht
    · exact h₂ t ht

@[simp] theorem rootsOwed_singleton {t : Tree} :
    RootsOwed w [t] ↔ (t.head.pinned = false → 0 < w t.head.slot) := by
  simp [RootsOwed]

/-- Closing the levels above a hole gives the same roots whatever subtree with the same root
record fills it. -/
theorem rootsOwed_closeAll_congr :
    ∀ (fs : List Frame) (t t' : Tree), t.head = t'.head →
      (RootsOwed w (Frame.closeAll fs [t]) ↔ RootsOwed w (Frame.closeAll fs [t']))
  | [], t, t', h => by simp [Frame.closeAll, h]
  | f :: fs, t, t', _ => rootsOwed_closeAll_congr fs (f.close [t]) (f.close [t']) rfl

/-- Whether the roots of a forest are owed units depends on the subtree at a hole only through
its root's slot and pin. -/
theorem RootsOwed.fill_congr {c : Ctx} {t t' : Tree} (h : RootsOwed w (c.fill [t]))
    (hs : t'.head.slot = t.head.slot) (hp : t'.head.pinned = t.head.pinned) :
    RootsOwed w (c.fill [t']) := by
  simp only [Ctx.fill, rootsOwed_append] at h ⊢
  refine ⟨⟨h.1.1, ?_⟩, h.2⟩
  cases hc : c.up with
  | nil =>
    have := h.1.2
    simp only [hc, Frame.closeAll, rootsOwed_singleton] at this ⊢
    rw [hs, hp]
    exact this
  | cons f fs =>
    have := h.1.2
    rw [hc] at this
    exact (rootsOwed_closeAll_congr fs (f.close [t]) (f.close [t']) rfl).mp this

end Tree

end TreeArena
