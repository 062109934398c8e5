import TreeArena.Proofs.Units

/-!
# Properties of every record

`Tree.Every Q root t`: every record of `t` satisfies `Q`, told whether it is a root of the forest;
`t`'s own record is one exactly when `root` is set, and no record below it is. It is `Tree.Held`
with the accounting of a record replaced by any property of it (`held_iff_every`), and it goes
through holes the same way (`Ctx.every_fill_iff`): what the forest around a hole satisfies and what
the run in the hole satisfies, as roots when the hole is at the top. `Held`'s own hole lemmas
(`Ctx.held_fill_iff`) are read off from these.

Edits rewrite records (`Every.map`), turn a child into a root (`Every.reroot`) or a root into a
child (`Every.unroot`); a property that holds of a record as a root once it holds of it as a child
and that ignores the counts an edit rewrites is kept along.
-/

namespace TreeArena

namespace Tree

variable {Q Q' : Bool → Node → Prop}

/-- Every record of the subtree satisfies `Q`, told whether it is a root of the forest; the
subtree's own root record is one exactly when `root` is set. -/
inductive Every (Q : Bool → Node → Prop) : Bool → Tree → Prop
  | node {h : Node} {ks : List Tree} {root : Bool} :
      Q root h → (∀ t ∈ ks, Every Q false t) → Every Q root (node h ks)

theorem every_node_iff {root : Bool} {h : Node} {ks : List Tree} :
    Every Q root (node h ks) ↔ Q root h ∧ ∀ t ∈ ks, Every Q false t := by
  constructor
  · rintro ⟨hh, hks⟩
    exact ⟨hh, hks⟩
  · rintro ⟨hh, hks⟩
    exact .node hh hks

theorem Every.mono {root : Bool} {t : Tree} (h : Every Q root t)
    (hQ : ∀ r, ∀ nd ∈ t.records, Q r nd → Q' r nd) : Every Q' root t := by
  induction h with
  | @node hd ks r hh _ ih =>
    refine .node (hQ r hd (by simp) hh) fun t ht => ih t ht fun r' nd hnd => hQ r' nd ?_
    simp only [records_node, List.mem_cons]
    exact .inr (mem_layout_of_mem ht hnd)

theorem Every.head {root : Bool} {t : Tree} (h : Every Q root t) : Q root t.head := by
  cases h with
  | node hh _ => exact hh

theorem Every.reroot {h : Node} {ks : List Tree} (he : Every Q false (Tree.node h ks))
    (hq : Q true h) : Every Q true (Tree.node h ks) :=
  every_node_iff.mpr ⟨hq, (every_node_iff.mp he).2⟩

theorem Every.unroot {h : Node} {ks : List Tree} (he : Every Q true (Tree.node h ks))
    (hq : Q false h) : Every Q false (Tree.node h ks) :=
  every_node_iff.mpr ⟨hq, (every_node_iff.mp he).2⟩

theorem exists_mem_of_mem_layout {nd : Node} {ts : List Tree} (hnd : nd ∈ layout ts) :
    ∃ t ∈ ts, nd ∈ t.records := by
  induction ts with
  | nil => simp at hnd
  | cons u us ih =>
    rw [layout_cons, List.mem_append] at hnd
    rcases hnd with hnd | hnd
    · exact ⟨u, List.mem_cons_self .., hnd⟩
    · obtain ⟨t, ht, hnd⟩ := ih hnd
      exact ⟨t, List.mem_cons_of_mem _ ht, hnd⟩

theorem Every.descendants {root : Bool} {t : Tree} (h : Every Q root t) :
    ∀ nd ∈ layout t.kids, Q false nd := by
  induction h with
  | @node hd ks r hh hks ih =>
    intro nd hnd
    obtain ⟨u, hu, hnd⟩ := exists_mem_of_mem_layout hnd
    rw [records_eq] at hnd
    rcases List.mem_cons.mp hnd with rfl | hnd
    · exact (hks u hu).head
    · exact ih u hu nd hnd

mutual

theorem every_false_of_records : ∀ t : Tree, (∀ nd ∈ t.records, Q false nd) → Every Q false t
  | node h ks, hq => .node (hq h (by simp))
      (every_false_of_layout ks fun nd hnd => hq nd (by simp [hnd]))

theorem every_false_of_layout :
    ∀ ts : List Tree, (∀ nd ∈ layout ts, Q false nd) → ∀ t ∈ ts, Every Q false t
  | [], _ => by simp
  | t :: ts, hq => List.forall_mem_cons.mpr
      ⟨every_false_of_records t fun nd hnd => hq nd (by simp [hnd]),
        every_false_of_layout ts fun nd hnd => hq nd (by simp [hnd])⟩

end

theorem every_false_iff {t : Tree} : Every Q false t ↔ ∀ nd ∈ t.records, Q false nd := by
  refine ⟨fun h nd hnd => ?_, every_false_of_records t⟩
  rw [records_eq] at hnd
  rcases List.mem_cons.mp hnd with rfl | hnd
  · exact h.head
  · exact h.descendants nd hnd

theorem mapAll_eq_map (φ : Node → Node) (ts : List Tree) : mapAll φ ts = ts.map (map φ) := by
  induction ts with
  | nil => simp
  | cons t ts ih => simp [ih]

theorem Every.map {root : Bool} {t : Tree} (h : Every Q root t) {φ : Node → Node}
    (hφ : ∀ r nd, Q r nd → Q r (φ nd)) : Every Q root (map φ t) := by
  induction h with
  | @node hd ks r hh _ ih =>
    rw [map_node, mapAll_eq_map]
    refine .node (hφ r hd hh) fun t ht => ?_
    obtain ⟨u, hu, rfl⟩ := List.mem_map.mp ht
    exact ih u hu

theorem held_iff_every {w : Nat → Nat} {root : Bool} {t : Tree} :
    Held w root t ↔ Every (fun r nd => nd.Holds w r) root t := by
  constructor
  · intro h
    induction h with
    | node hh _ ih => exact .node hh ih
  · intro h
    induction h with
    | node hh _ ih => exact .node hh ih

/-! ### Subtrees -/

/-- `Sub v t`: `v` is `t` or a subtree of one of its children. -/
inductive Sub : Tree → Tree → Prop
  | refl (t : Tree) : Sub t t
  | kid {v k : Tree} {h : Node} {ks : List Tree} : k ∈ ks → Sub v k → Sub v (node h ks)

/-- A subtree is the tree itself, with the same place in the forest, or lies below a child. -/
theorem Every.sub {root : Bool} {t v : Tree} (ht : Every Q root t) (hv : Sub v t) :
    Every Q root v ∨ Every Q false v := by
  induction hv generalizing root with
  | refl => exact .inl ht
  | kid hk _ ih => exact .inr ((ih ((every_node_iff.mp ht).2 _ hk)).elim id id)

/-- `u` is `v`, or `v` with another retain count at its root when that root is not pinned. -/
def Recounted (v u : Tree) : Prop :=
  u = v ∨ v.head.pinned = false ∧ ∃ n, u = node { v.head with retain := n } v.kids

/-! ### Around a hole -/

namespace Frame

/-- The levels above a hole satisfy `Q`: the records beside the hole as children, each parent
record as a child except the outermost, which is a root. -/
def EveryAll (Q : Bool → Node → Prop) : List Frame → Prop
  | [] => True
  | f :: fs => Q fs.isEmpty f.head ∧ (∀ t ∈ f.left, Every Q false t) ∧
      (∀ t ∈ f.right, Every Q false t) ∧ EveryAll Q fs

theorem every_closeAll_iff {fs : List Frame} {us : List Tree} :
    (∀ t ∈ closeAll fs us, Every Q true t) ↔ EveryAll Q fs ∧ ∀ u ∈ us, Every Q fs.isEmpty u := by
  induction fs generalizing us with
  | nil => simp [closeAll, EveryAll]
  | cons f fs ih =>
    rw [closeAll, ih, EveryAll, List.forall_mem_singleton, close, every_node_iff]
    simp only [List.isEmpty_cons, List.mem_append]
    constructor
    · rintro ⟨hfs, hh, hk⟩
      exact ⟨⟨hh, fun t ht => hk t (.inl (.inl ht)), fun t ht => hk t (.inr ht), hfs⟩,
        fun u hu => hk u (.inl (.inr hu))⟩
    · rintro ⟨⟨hh, hl, hr, hfs⟩, hus⟩
      refine ⟨hfs, hh, fun t ht => ?_⟩
      rcases ht with (ht | ht) | ht
      · exact hl t ht
      · exact hus t ht
      · exact hr t ht

theorem heldAll_iff_everyAll {w : Nat → Nat} {fs : List Frame} :
    HeldAll w fs ↔ EveryAll (fun r nd => nd.Holds w r) fs := by
  induction fs with
  | nil => exact Iff.rfl
  | cons f fs ih => simp only [HeldAll, EveryAll, held_iff_every, ih]

theorem held_closeAll_iff {w : Nat → Nat} {fs : List Frame} {us : List Tree} :
    (∀ t ∈ closeAll fs us, Held w true t) ↔ HeldAll w fs ∧ ∀ u ∈ us, Held w fs.isEmpty u := by
  simp only [held_iff_every, heldAll_iff_everyAll]
  exact every_closeAll_iff

end Frame

namespace Ctx

/-- Everything around the hole satisfies `Q`. -/
def Every (Q : Bool → Node → Prop) (c : Ctx) : Prop :=
  Frame.EveryAll Q c.up ∧ (∀ t ∈ c.left, Tree.Every Q true t) ∧ ∀ t ∈ c.right, Tree.Every Q true t

theorem every_fill_iff {c : Ctx} {us : List Tree} :
    (∀ t ∈ c.fill us, Tree.Every Q true t) ↔ c.Every Q ∧ ∀ u ∈ us, Tree.Every Q c.up.isEmpty u :=
  forall_mem_fill_iff_of_closeAll Frame.every_closeAll_iff

theorem every_iff_fill_nil {c : Ctx} : c.Every Q ↔ ∀ t ∈ c.fill [], Tree.Every Q true t := by
  rw [every_fill_iff]
  simp

theorem held_fill_iff {w : Nat → Nat} {c : Ctx} {us : List Tree} :
    (∀ t ∈ c.fill us, Tree.Held w true t) ↔ c.Held w ∧ ∀ u ∈ us, Tree.Held w c.up.isEmpty u :=
  forall_mem_fill_iff_of_closeAll Frame.held_closeAll_iff

/-- A hole and the forest around it: everything around it holds its units exactly when the forest
does with the hole left empty. -/
theorem held_iff_fill_nil {w : Nat → Nat} {c : Ctx} :
    c.Held w ↔ ∀ t ∈ c.fill [], Tree.Held w true t := by
  rw [held_fill_iff]
  simp

end Ctx

end Tree

end TreeArena
