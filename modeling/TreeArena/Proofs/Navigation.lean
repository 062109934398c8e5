import Mathlib.Logic.Relation
import TreeArena.Proofs.Queries

/-!
# Navigation reads the forest

The arena keeps no parent or sibling links: every navigation walks the children counts. On an
arena that parses as a well-formed forest each walk answers what the forest says, stated through
relations on positions read off the forest alone: `Tree.ChildAt ts q i o`, the record at `o` is
child `i` of the record at `q`; `Tree.RootAt ts o`, the record at `o` is a root; and
`Tree.Above ts q o`, the record at `q` is a proper ancestor of the record at `o`, the transitive
closure of the parent relation.

A subtree's records are the positions from its root up to the end its walk finds, so ancestry is
containment of those ranges (`Arena.above_iff`): a step to a child lands strictly inside the
parent's range and ends no later, and a position strictly inside a range lies in one child's
range, so the chain of children down to it is found by induction on the subtree.

Main statement: `Pool.navigation_reads_forest`.
-/

namespace TreeArena

namespace Tree

/-- The record at position `o` of the forest is child `i` of the record at position `q`. -/
def ChildAt (ts : List Tree) (q i o : Nat) : Prop :=
  ∃ (c : Ctx) (nd : Node) (L R : List Tree) (u : Tree),
    c.fill [node nd (L ++ u :: R)] = ts ∧ c.pos = q ∧ L.length = i ∧ o = q + 1 + (layout L).length

/-- The record at position `o` is a child of the record at position `q`. -/
def Parent (ts : List Tree) (q o : Nat) : Prop := ∃ i, ChildAt ts q i o

/-- The record at position `q` is a proper ancestor of the record at position `o`. -/
def Above (ts : List Tree) : Nat → Nat → Prop := Relation.TransGen (Parent ts)

/-- The record at position `o` is a root of the forest. -/
def RootAt (ts : List Tree) (o : Nat) : Prop :=
  ∃ (L : List Tree) (u : Tree) (R : List Tree), ts = L ++ u :: R ∧ o = (layout L).length

variable {ts : List Tree}

/-- Child `i` of the subtree at a hole starts after its root and the children before it. -/
theorem childAt_of_fill {c : Ctx} {t : Tree} (hT : c.fill [t] = ts) {i : Nat}
    (hi : i < t.kids.length) : ChildAt ts c.pos i (c.pos + 1 + (layout (t.kids.take i)).length) := by
  refine ⟨c, t.head, t.kids.take i, t.kids.drop (i + 1), t.kids[i], ?_, rfl, by simp; omega, rfl⟩
  rw [← List.drop_eq_getElem_cons hi, List.take_append_drop, eta, hT]

theorem parent_of_up {c : Ctx} {t : Tree} (hT : c.fill [t] = ts) {f : Frame} {fs : List Frame}
    (hup : c.up = f :: fs) : Parent ts (⟨fs, c.left, c.right⟩ : Ctx).pos c.pos := by
  have hc := Ctx.eq_child_of_up hup
  refine ⟨f.left.length, ⟨fs, c.left, c.right⟩, f.head, f.left, f.right, t, ?_, rfl, rfl, ?_⟩
  · rw [hc, Ctx.child_fill, List.append_assoc, List.singleton_append] at hT
    exact hT
  · have hpos := congrArg Ctx.pos hc
    rwa [Ctx.child_pos] at hpos

theorem rootAt_of_up_nil {c : Ctx} {t : Tree} (hT : c.fill [t] = ts) (hup : c.up = []) :
    RootAt ts c.pos := by
  refine ⟨c.left, t, c.right, ?_, ?_⟩
  · rw [← hT, Ctx.fill, hup]
    simp [Frame.closeAll]
  · simp [Ctx.pos, Ctx.before, hup, Frame.before]

/-- A position inside the records of consecutive subtrees lies in the records of one of them. -/
theorem exists_block : ∀ (ks : List Tree) (j : Nat), j < (layout ks).length →
    ∃ L u R, ks = L ++ u :: R ∧ (layout L).length ≤ j ∧ j < (layout L).length + u.size
  | [], j, hj => by simp at hj
  | k :: ks, j, hj => by
    by_cases hk : j < k.size
    · exact ⟨[], k, ks, rfl, by simp, by simpa using hk⟩
    · simp only [layout_cons, List.length_append] at hj
      obtain ⟨L, u, R, rfl, h₁, h₂⟩ := exists_block ks (j - k.size) (by simp only [size] at hk ⊢; omega)
      refine ⟨k :: L, u, R, rfl, ?_, ?_⟩ <;> simp only [layout_cons, List.length_append, size] at hk h₁ h₂ ⊢ <;> omega

/-- A position strictly inside the records of a well-formed subtree is a proper descendant of its
root: the child whose records hold it is found, and below that child the same holds again. -/
theorem above_of_lt {T : Tree} (hT : T.Wf) :
    ∀ {c : Ctx}, c.fill [T] = ts → ∀ o, c.pos < o → o < c.pos + T.size → Above ts c.pos o := by
  induction hT with
  | @node nd ks _ _ ih =>
    intro c hfill o h₁ h₂
    have hj : o - c.pos - 1 < (layout ks).length := by
      simp only [size, records_node, List.length_cons] at h₂
      omega
    obtain ⟨L, u, R, rfl, hL₁, hL₂⟩ := exists_block ks (o - c.pos - 1) hj
    have hchild : ChildAt ts c.pos L.length (c.pos + 1 + (layout L).length) :=
      ⟨c, nd, L, R, u, hfill, rfl, rfl, rfl⟩
    by_cases heq : o = c.pos + 1 + (layout L).length
    · exact .single ⟨_, heq ▸ hchild⟩
    -- otherwise the position lies strictly inside the child's records
    have hd : (c.child nd L R).fill [u] = ts := by
      rw [Ctx.child_fill, List.append_assoc, List.singleton_append]
      exact hfill
    have hbelow := ih u (by simp) hd o (by rw [Ctx.child_pos]; omega)
      (by rw [Ctx.child_pos]; omega)
    rw [Ctx.child_pos] at hbelow
    exact .head ⟨_, hchild⟩ hbelow

end Tree

namespace Arena

open TreeArena.Tree

variable {a : Arena} {ts : List Tree}

section Forest

theorem wf_of_fill (hw : ∀ t ∈ ts, t.Wf) {c : Ctx} {t : Tree} (hT : c.fill [t] = ts) : t.Wf := by
  rw [← hT] at hw
  exact (Ctx.wf_fill_iff.mp hw).2 t (List.mem_singleton_self _)

variable (ha : a.toList = layout ts) (hw : ∀ t ∈ ts, t.Wf)
include ha hw

/-- The walk from the root of a subtree at a hole ends right after the subtree's records. -/
theorem subtreeEnd_fill {c : Ctx} {t : Tree} (hT : c.fill [t] = ts) :
    a.subtreeEnd c.pos = c.pos + t.size := by
  have hl : a.toList = c.before ++ t.records ++ c.after := by
    rw [ha, ← hT, Ctx.layout_fill, layout_singleton]
  exact subtreeEnd_records hl (wf_of_fill hw hT)

/-- A child starts strictly inside its parent's records, and its own records end no later. -/
theorem parent_range {q o : Nat} (h : Parent ts q o) :
    q < o ∧ o < a.subtreeEnd o ∧ a.subtreeEnd o ≤ a.subtreeEnd q := by
  obtain ⟨i, c, nd, L, R, u, hT, rfl, -, rfl⟩ := h
  have hd : (c.child nd L R).fill [u] = ts := by
    rw [Ctx.child_fill, List.append_assoc, List.singleton_append]
    exact hT
  have e₁ := subtreeEnd_fill ha hw hd
  have e₂ := subtreeEnd_fill ha hw hT
  rw [Ctx.child_pos] at e₁
  have hu := u.size_pos
  simp only [size, records_node, layout_append, layout_cons, List.length_cons,
    List.length_append] at e₁ e₂ hu ⊢
  omega

theorem above_range {q o : Nat} (h : Above ts q o) : q < o ∧ o < a.subtreeEnd q := by
  -- along the chain of children each step lands inside the range of the one before
  have key : q < o ∧ o < a.subtreeEnd o ∧ a.subtreeEnd o ≤ a.subtreeEnd q := by
    induction h with
    | single h => exact parent_range ha hw h
    | tail _ h ih =>
      have := parent_range ha hw h
      omega
  omega

/-- The record at a hole is a proper ancestor of exactly the positions strictly inside the range
its walk finds. -/
theorem above_iff {c : Ctx} {T : Tree} (hT : c.fill [T] = ts) (o : Nat) :
    Above ts c.pos o ↔ c.pos < o ∧ o < a.subtreeEnd c.pos := by
  refine ⟨fun h => above_range ha hw h, fun h => ?_⟩
  obtain ⟨h₁, h₂⟩ := h
  rw [subtreeEnd_fill ha hw hT] at h₂
  exact above_of_lt (wf_of_fill hw hT) hT o h₁ h₂

omit hw in
theorem exists_hole {o : Nat} (ho : o < a.size) : ∃ (c : Ctx) (t : Tree), c.fill [t] = ts ∧ c.pos = o :=
  exists_fill ts o (by rw [← ha]; simpa using ho)

theorem parentOf_hole {c : Ctx} {t : Tree} (hT : c.fill [t] = ts) :
    a.parentOf c.pos = c.parent.map Ctx.pos :=
  parentOf_fill (by rw [ha, hT]) (by rw [hT]; exact hw)

/-- The parent search finds a record exactly when the position is its child. -/
theorem parentOf_eq_some_iff {o : Nat} (ho : o < a.size) (q : Nat) :
    a.parentOf o = some q ↔ Parent ts q o := by
  obtain ⟨c, t, hT, rfl⟩ := exists_hole ha ho
  rw [parentOf_hole ha hw hT]
  constructor
  · intro h
    rcases hup : c.up with _ | ⟨f, fs⟩
    · simp [Ctx.parent, hup] at h
    · simp only [Ctx.parent, hup, Option.map_some, Option.some.injEq] at h
      rw [← h]
      exact parent_of_up hT hup
  · -- the child hole the relation names sits at the same position
    rintro ⟨i, c', nd, L, R, u, hT', rfl, -, hpos⟩
    have hd : (c'.child nd L R).fill [u] = ts := by
      rw [Ctx.child_fill, List.append_assoc, List.singleton_append]
      exact hT'
    have hsame : (c'.child nd L R).pos = c.pos := by rw [Ctx.child_pos, hpos]
    rw [← parentOf_hole ha hw hT, ← hsame, parentOf_hole ha hw hd]
    rfl

theorem parentOf_eq_none_iff {o : Nat} (ho : o < a.size) : a.parentOf o = none ↔ RootAt ts o := by
  obtain ⟨c, t, hT, rfl⟩ := exists_hole ha ho
  rw [parentOf_hole ha hw hT]
  constructor
  · intro h
    rcases hup : c.up with _ | ⟨f, fs⟩
    · exact rootAt_of_up_nil hT hup
    · simp [Ctx.parent, hup] at h
  · rintro ⟨L, u, R, hts, hpos⟩
    have hd : (Ctx.top L R).fill [u] = ts := by rw [Ctx.top_fill, hts]; simp
    have hsame : (Ctx.top L R).pos = c.pos := by rw [Ctx.top_pos, hpos]
    rw [← parentOf_hole ha hw hT, ← hsame, parentOf_hole ha hw hd]
    rfl

theorem childrenAt_hole {c : Ctx} {t : Tree} (hT : c.fill [t] = ts) :
    a.childrenAt c.pos = t.kids.length := by
  have hl : a.toList = c.before ++ t.head :: (layout t.kids ++ c.after) := by
    rw [ha, ← hT, Ctx.layout_fill, layout_singleton, records_eq]
    simp
  rw [show c.pos = c.before.length from rfl, childrenAt_of_toList hl]
  exact (wf_of_fill hw hT).children_eq

/-- Child `i` of the subtree at a hole starts after its root and the first `i` children. -/
theorem childStart_hole {c : Ctx} {t : Tree} (hT : c.fill [t] = ts) {i : Nat}
    (hi : i ≤ t.kids.length) : a.childStart c.pos i = c.pos + 1 + (layout (t.kids.take i)).length := by
  have hl : a.toList = c.before ++ t.records ++ c.after := by
    rw [ha, ← hT, Ctx.layout_fill, layout_singleton]
  exact childStart_records hl (wf_of_fill hw hT) hi

/-- The scan over the children of the subtree at a hole finds a position exactly at the start of
a child, and answers its index. -/
theorem scanChildren_hole {c : Ctx} {nd : Node} {ks : List Tree} (hT : c.fill [node nd ks] = ts)
    (x i : Nat) :
    Heap.scanChildren a x (a.next c.pos) 0 (a.childrenAt c.pos) = some i ↔
      i < ks.length ∧ x = c.pos + 1 + (layout (ks.take i)).length := by
  have hl : a.toList = c.before ++ nd :: (layout ks ++ c.after) := by
    rw [ha, ← hT, Ctx.layout_fill, layout_singleton, records_node]
    simp
  have hl' : a.toList = (c.before ++ [nd]) ++ layout ks ++ c.after := by
    rw [hl]
    simp
  have hnext : a.next c.pos = (c.before ++ [nd]).length := by
    rw [show c.pos = c.before.length from rfl, next_of_toList hl]
    simp
  have hks : ∀ k ∈ ks, k.Wf := (wf_node_iff.mp (wf_of_fill hw hT)).2
  rw [hnext, childrenAt_hole ha hw hT, kids_node,
    Pool.scanChildren_layout hks x 0 i hl']
  simp only [Nat.zero_add, List.length_append, List.length_singleton]
  constructor
  · rintro ⟨m, hm, rfl, hx⟩
    exact ⟨hm, by rw [hx]; rfl⟩
  · rintro ⟨hm, hx⟩
    exact ⟨i, hm, rfl, by rw [hx]; rfl⟩

/-- The scan over the children of the record at a position finds exactly its children. -/
theorem scanChildren_eq_some_iff {o : Nat} (ho : o < a.size) (x i : Nat) :
    Heap.scanChildren a x (a.next o) 0 (a.childrenAt o) = some i ↔ ChildAt ts o i x := by
  constructor
  · intro h
    obtain ⟨c, t, hT, rfl⟩ := exists_hole ha ho
    rw [← eta t] at hT
    obtain ⟨hi, rfl⟩ := (scanChildren_hole ha hw hT x i).mp h
    exact childAt_of_fill hT hi
  · rintro ⟨c, nd, L, R, u, hT, rfl, rfl, rfl⟩
    refine (scanChildren_hole ha hw hT _ L.length).mpr ⟨by simp, ?_⟩
    simp

end Forest

end Arena

namespace Heap

open TreeArena.Tree

variable {h : Heap}

/-- On two live records of one pool, the ancestor query returns whether the receiver's record is
the argument's, when that counts, or lies strictly inside the argument's range. -/
theorem returns_hasAncestor {r t : Handle} {k : Nat} {p : Pool} {off toff : Nat}
    (hf : h.Finds r k p off) (ht : h.Finds t k p toff) (self : Bool) :
    Returns (hasAncestor r t self) h fun b h' => h' = h ∧
      b = if off = toff then self else decide (toff < off ∧ off < p.nodes.subtreeEnd toff) := by
  unfold hasAncestor
  refine returns_get_bind ?_
  rw [isDefined_iff_finds.mpr ⟨k, p, toff, ht⟩]
  refine (returns_locate hf).bind fun a h₁ hh => ?_
  obtain ⟨rfl, rfl⟩ := hh
  refine (returns_sibling hf.home ht).bind fun a h₁ hh => ?_
  obtain ⟨rfl, rfl⟩ := hh
  -- the query's own test and the stated answer split alike
  split
  · exact returns_pure ⟨rfl, rfl⟩
  · refine (returns_homeOf hf.home).bind fun a h₁ hh => ?_
    obtain ⟨rfl, rfl⟩ := hh
    refine (returns_readPool hf.pool id).bind fun q h₁ hh => ?_
    obtain ⟨rfl, rfl⟩ := hh
    exact returns_pure ⟨rfl, rfl⟩

theorem Finds.lt_size {r : Handle} {k : Nat} {p : Pool} {i : Nat} (hf : h.Finds r k p i)
    (hloc : p.slots.Locates p.nodes.toList) : i < p.nodes.size := by
  obtain ⟨hlt, -⟩ := hloc.slot_position (SlotTable.position_of_resolve hf.resolve)
  simpa using hlt

end Heap

namespace Pool

open TreeArena.Tree Arena

/-- On a pool whose arena parses as a well-formed forest and whose table locates its records, every
walk of the layout answers what the forest says. Each position heads the subtree at one hole; the
walk from it ends right after the subtree's records, which it counts, and reads the subtree's
children count; child `i` starts where the forest puts child `i`, and the children's walk ends
where the subtree does. The parent search finds a position's parent exactly when it has one and
nothing exactly for a root. Through handles, the index query answers a child's index among the
receiver's children or `-1` when the argument is no child, and the ancestor query, not counting
the node itself, answers whether the argument is a proper ancestor of the receiver. -/
theorem navigation_reads_forest {p : Pool} {ts : List Tree}
    (hparse : Tree.parse p.nodes.toList = some ts) (hloc : p.slots.Locates p.nodes.toList) :
    (∀ o < p.nodes.size, ∃ (c : Ctx) (t : Tree), c.fill [t] = ts ∧ c.pos = o) ∧
    (∀ (c : Ctx) (t : Tree), c.fill [t] = ts →
      p.nodes.subtreeEnd c.pos = c.pos + t.size ∧ c.pos + t.size ≤ p.nodes.size ∧
      p.nodes.countAt c.pos = t.size ∧ p.nodes.childrenAt c.pos = t.kids.length ∧
      (∀ i < t.kids.length, ChildAt ts c.pos i (p.nodes.childStart c.pos i)) ∧
      p.nodes.childStart c.pos t.kids.length = p.nodes.subtreeEnd c.pos) ∧
    (∀ o < p.nodes.size, (∀ q, p.nodes.parentOf o = some q ↔ Parent ts q o) ∧
      (p.nodes.parentOf o = none ↔ RootAt ts o)) ∧
    (∀ (h : Heap) (k : Nat) (r u : Handle) (off uoff : Nat), h.Finds r k p off →
      h.Finds u k p uoff →
      (∃ n, (Heap.indexOf r u).run h = .ok n h ∧
        (n = -1 ∧ ¬ Parent ts off uoff ∨ ∃ i : Nat, n = i ∧ ChildAt ts off i uoff)) ∧
      (∃ b, (Heap.hasAncestor r u false).run h = .ok b h ∧ (b = true ↔ Above ts uoff off))) := by
  obtain ⟨hw, hlay⟩ := parse_eq_some_iff.mp hparse
  have ha : p.nodes.toList = layout ts := hlay.symm
  refine ⟨fun o ho => exists_hole ha ho, fun c t hT => ?_, fun o ho =>
    ⟨parentOf_eq_some_iff ha hw ho, parentOf_eq_none_iff ha hw ho⟩, fun h k r u off uoff hr hu => ?_⟩
  · have hsize : c.pos + t.size ≤ p.nodes.size := by
      have := congrArg List.length ha
      rw [← hT, Ctx.layout_fill, layout_singleton] at this
      simp only [Array.length_toList, List.length_append] at this
      simp only [Ctx.pos, size]
      omega
    have hend := subtreeEnd_fill ha hw hT
    refine ⟨hend, hsize, by rw [countAt, hend]; omega, childrenAt_hole ha hw hT,
      fun i hi => ?_, ?_⟩
    · rw [childStart_hole ha hw hT hi.le]
      exact childAt_of_fill hT hi
    · rw [childStart_hole ha hw hT le_rfl, hend, List.take_length, size_eq]
      omega
  · have hoff := hr.lt_size hloc
    have huoff := hu.lt_size hloc
    refine ⟨?_, ?_⟩
    · obtain ⟨n, h', hrun, rfl, rfl⟩ := Heap.returns_indexOf hr hu
      refine ⟨_, hrun, ?_⟩
      cases hs : Heap.scanChildren p.nodes uoff (p.nodes.next off) 0 (p.nodes.childrenAt off) with
      | none =>
        refine .inl ⟨rfl, fun hpar => ?_⟩
        obtain ⟨i, hi⟩ := hpar
        rw [← scanChildren_eq_some_iff ha hw hoff, hs] at hi
        cases hi
      | some i => exact .inr ⟨i, rfl, (scanChildren_eq_some_iff ha hw hoff uoff i).mp hs⟩
    · obtain ⟨b, h', hrun, rfl, rfl⟩ := Heap.returns_hasAncestor hr hu false
      refine ⟨_, hrun, ?_⟩
      obtain ⟨c, T, hT, rfl⟩ := exists_hole ha huoff
      rw [above_iff ha hw hT]
      split
      · rename_i heq
        simp [heq]
      · simp

/-- The failure node of a pool just built is a root: the parent search finds nothing for it. -/
theorem new_pool_failure_is_root :
    ∃ p ts, Pool.new 0 64 {} = .ok p ∧ Tree.parse p.nodes.toList = some ts ∧
      p.slots.Locates p.nodes.toList ∧ RootAt ts 0 ∧ p.nodes.parentOf 0 = none := by
  obtain ⟨p, hp⟩ : ∃ p, Pool.new 0 64 {} = .ok p := ⟨_, rfl⟩
  obtain ⟨hS, -⟩ := new_spec (w := fun _ => 0) hp
  have hparse : Tree.parse p.nodes.toList = some [node (failureRecord p.failure.slot) []] :=
    parse_eq_some_iff.mpr ⟨hS.wf, hS.laid.layout_eq⟩
  have hroot : RootAt [node (failureRecord p.failure.slot) []] 0 := ⟨[], _, [], rfl, rfl⟩
  have hsize : 0 < p.nodes.size := by
    have := congrArg List.length hS.laid.layout_eq
    simp only [layout_singleton, records_node, layout_nil, List.length_cons, List.length_nil,
      Array.length_toList] at this
    omega
  exact ⟨p, _, hp, hparse, hS.laid.locates, hroot,
    ((navigation_reads_forest hparse hS.laid.locates).2.2.1 0 hsize).2.mpr hroot⟩

end Pool

end TreeArena
