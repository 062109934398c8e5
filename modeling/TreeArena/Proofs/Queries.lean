import TreeArena.Proofs.Guarded

/-!
# What the navigation queries read

On a pool that lays out a sound forest, the positions the queries compare say where records sit in
the forest. The root of one subtree lies in another exactly when its position falls within the
other's positions (`Sound.head_mem_records_iff`), which is what the cycle check compares; the scan
over a record's children finds a position exactly at the start of a child
(`scanChildren_layout`), which is what `indexOf` and `hasChild` return.

Over an exact heap, each query is a read (`Heap.Reads`), and the checks the edits make before they
change anything say, when they pass, where the records they name are: the cycle check puts the
receiver outside the subtree of its argument (`Heap.reads_checkAcyclic`, `Pool.Sound.outside`),
and a child found is the root at a child hole of its parent (`Heap.reads_hasChild`,
`Pool.Sound.child_of_start`).
-/

namespace TreeArena

namespace Pool

open TreeArena.Tree

variable {p : Pool} {w : Nat → Nat} {ts : List Tree}

/-- The record an identifier resolves to heads the subtree at a hole, at the position it resolves
to. -/
theorem Sound.hole_of_resolve (hS : p.Sound w ts) {id : NodeId} {i : Nat}
    (hr : p.slots.resolve id = some i) :
    ∃ (c : Ctx) (nd : Node) (ks : List Tree), c.fill [node nd ks] = ts ∧ nd.slot = id.slot ∧
      c.pos = i :=
  hS.hole_of_position (SlotTable.position_of_resolve hr)

section At

variable {c : Ctx} {nd : Node} {ks : List Tree} (hS : p.Sound w (c.fill [node nd ks]))
include hS

theorem Sound.getElem?_pos : p.nodes[c.pos]? = some nd :=
  Arena.getElem?_of_toList hS.toList_eq

theorem Sound.kindAt_pos : p.nodes.kindAt c.pos = nd.kind := by
  simp [Arena.kindAt, hS.getElem?_pos]

theorem Sound.slotAt_pos : p.nodes.slotAt c.pos = nd.slot := by
  simp [Arena.slotAt, hS.getElem?_pos]

theorem Sound.childrenAt_pos : p.nodes.childrenAt c.pos = nd.children := by
  simp [Arena.childrenAt, hS.getElem?_pos]

theorem Sound.pinnedAt_pos : p.nodes.pinnedAt c.pos = nd.pinned := by
  simp [Arena.pinnedAt, hS.getElem?_pos]

theorem Sound.retainAt_pos : p.nodes.retainAt c.pos = nd.retain := by
  simp [Arena.retainAt, hS.getElem?_pos]

end At

theorem Sound.slot_of_position {c : Ctx} {t : Tree} (hS : p.Sound w (c.fill [t])) {s : Nat}
    (hs : p.slots.position s = some c.pos) : t.head.slot = s := by
  have hl : p.nodes.toList = c.before ++ t.head :: (layout t.kids ++ c.after) := by
    rw [← hS.laid.layout_eq, Ctx.layout_fill, layout_singleton, records_eq]
    simp
  obtain ⟨hlt, hslot⟩ := hS.laid.locates.slot_position hs
  rw [← hslot]
  simp [hl, Ctx.pos]

theorem child_hole (c : Ctx) (nd : Node) {ks : List Tree} {m : Nat} (hm : m < ks.length) :
    (c.child nd (ks.take m) (ks.drop (m + 1))).fill [ks[m]] = c.fill [node nd ks] := by
  rw [Ctx.child_fill, List.append_assoc, List.singleton_append, ← List.drop_eq_getElem_cons hm,
    List.take_append_drop]

/-- Of two holes of a sound forest, the root of one lies in the subtree of the other exactly when
its position falls within that subtree's positions. -/
theorem Sound.head_mem_records_iff {c c' : Ctx} {T U : Tree} (hS : p.Sound w (c.fill [T]))
    (hU : c'.fill [U] = c.fill [T]) :
    U.head ∈ T.records ↔ c.pos ≤ c'.pos ∧ c'.pos < c.pos + T.size := by
  have hl : p.nodes.toList = c.before ++ T.records ++ c.after := by
    rw [← hS.laid.layout_eq, Ctx.layout_fill, layout_singleton]
  have hl' : p.nodes.toList = c'.before ++ U.head :: (layout U.kids ++ c'.after) := by
    rw [← hS.laid.layout_eq, ← hU, Ctx.layout_fill, layout_singleton, records_eq]
    simp
  have hnodup : p.nodes.toList.Nodup := by
    rw [← hS.laid.layout_eq]
    exact hS.laid.nodup.of_map _
  have hsize : T.size = T.records.length := rfl
  have hlt : c'.pos < p.nodes.toList.length := by
    rw [hl']
    simp [Ctx.pos]
  have hat : p.nodes.toList[c'.pos] = U.head := by
    simp [hl', Ctx.pos]
  constructor
  · intro hmem
    obtain ⟨j, hj, hjU⟩ := List.getElem_of_mem hmem
    -- the root sits in the subtree's block at `c.pos + j`, and a record sits at one position
    have hlt' : c.pos + j < p.nodes.toList.length := by
      rw [hl]
      simp [Ctx.pos]
      omega
    have hat' : p.nodes.toList[c.pos + j] = U.head := by
      rw [← hjU]
      simp only [hl, Ctx.pos]
      rw [List.getElem_append_left (by simp; omega), List.getElem_append_right (by simp)]
      simp
    have := hnodup.getElem_inj_iff.mp (hat'.trans hat.symm)
    constructor <;> omega
  · rintro ⟨hle, hlt''⟩
    have hj : c'.pos - c.pos < T.records.length := by omega
    have hpos : c.pos = c.before.length := rfl
    have : p.nodes.toList[c'.pos] = T.records[c'.pos - c.pos] := by
      simp only [hl]
      rw [List.getElem_append_left (by simp; omega), List.getElem_append_right (by omega)]
      simp [hpos]
    rw [← hat, this]
    exact List.getElem_mem hj

/-- A root outside a subtree is a record of the forest around that subtree. -/
theorem head_mem_around {c c' : Ctx} {T U : Tree}
    (hU : c'.fill [U] = c.fill [T]) (hout : U.head ∉ T.records) : U.head ∈ layout (c.fill []) := by
  have hmem : U.head ∈ layout (c.fill [T]) := by
    rw [← hU, Ctx.layout_fill, layout_singleton, records_eq]
    simp
  rw [Ctx.layout_fill, layout_singleton] at hmem
  rw [Ctx.layout_fill, layout_nil, List.append_nil]
  simp only [List.mem_append] at hmem ⊢
  tauto

/-- The scan over the children starting at `pre.length` finds a position exactly at the start of
a child, counting from `i`. -/
theorem scanChildren_layout {a : Arena} {ks : List Tree} (hw : ∀ k ∈ ks, k.Wf) (target : Nat) :
    ∀ {pre post : List Node} (i j : Nat), a.toList = pre ++ layout ks ++ post →
      (Heap.scanChildren a target pre.length i ks.length = some j ↔
        ∃ m < ks.length, j = i + m ∧ target = pre.length + (layout (ks.take m)).length) := by
  induction ks with
  | nil => simp [Heap.scanChildren]
  | cons k ks ih =>
    intro pre post i j hl
    have hl' : a.toList = pre ++ k.records ++ (layout ks ++ post) := by
      rw [hl, layout_cons]
      simp
    have hend := Arena.subtreeEnd_records hl' (hw k (.head _))
    have hks : ∀ u ∈ ks, u.Wf := fun u hu => hw u (.tail _ hu)
    have hpos : 0 < k.records.length := k.size_pos
    rw [List.length_cons, Heap.scanChildren, hend]
    split
    · -- the scan stops at the first child
      rename_i htarget
      simp only [Option.some.injEq]
      constructor
      · rintro rfl
        exact ⟨0, by simp, rfl, by simp [htarget]⟩
      · rintro ⟨m, hm, rfl, ht⟩
        cases m with
        | zero => rfl
        | succ m =>
          rw [List.take_succ_cons, layout_cons, List.length_append] at ht
          omega
    · rename_i htarget
      have hrest := @ih hks (pre ++ k.records) post (i + 1) j (by rw [hl']; simp)
      simp only [List.length_append] at hrest
      rw [show pre.length + k.size = pre.length + k.records.length from rfl, hrest]
      constructor
      · rintro ⟨m, hm, rfl, ht⟩
        refine ⟨m + 1, by simpa using hm, by omega, ?_⟩
        rw [List.take_succ_cons, layout_cons, List.length_append, ht]
        omega
      · rintro ⟨m, hm, rfl, ht⟩
        cases m with
        | zero =>
          rw [List.take_zero, layout_nil, List.length_nil] at ht
          omega
        | succ m =>
          refine ⟨m, by simpa using hm, by omega, ?_⟩
          rw [List.take_succ_cons, layout_cons, List.length_append] at ht
          omega

/-- A position that starts child `m` of a record holds the root of that child. -/
theorem Sound.child_of_start {c : Ctx} {nd : Node} {ks : List Tree}
    (hS : p.Sound w (c.fill [node nd ks])) {m : Nat} (hm : m < ks.length) :
    p.nodes.childStart c.pos m = (c.child nd (ks.take m) (ks.drop (m + 1))).pos := by
  have hl : p.nodes.toList = c.before ++ (node nd ks).records ++ c.after := by
    rw [← hS.laid.layout_eq, Ctx.layout_fill, layout_singleton]
  show p.nodes.childStart c.before.length m = _
  rw [Arena.childStart_records hl hS.wf_fill (by simp; omega), Ctx.child_pos]
  rfl

/-- The scan over the children of a record finds a position only at the start of a child, and
counts the children before it. -/
theorem Sound.scanChildren_eq_some {c : Ctx} {nd : Node} {ks : List Tree}
    (hS : p.Sound w (c.fill [node nd ks])) {target j : Nat}
    (h : Heap.scanChildren p.nodes target (p.nodes.next c.pos) 0 (p.nodes.childrenAt c.pos) =
      some j) :
    j < ks.length ∧ target = (c.child nd (ks.take j) (ks.drop (j + 1))).pos := by
  have hl : p.nodes.toList = c.before ++ nd :: (layout ks ++ c.after) := by
    rw [← hS.laid.layout_eq, Ctx.layout_fill, layout_singleton, records_node]
    simp
  have hl' : p.nodes.toList = (c.before ++ [nd]) ++ layout ks ++ c.after := by
    rw [hl]
    simp
  have hnext : p.nodes.next c.pos = (c.before ++ [nd]).length := by
    rw [Ctx.pos, Arena.next_of_toList hl]
    simp
  rw [hnext, show c.pos = c.before.length from rfl, Arena.childrenAt_of_toList hl,
    hS.children_eq] at h
  have hw : ∀ k ∈ ks, k.Wf := (wf_node_iff.mp hS.wf_fill).2
  obtain ⟨m, hm, rfl, ht⟩ := (scanChildren_layout hw target 0 j hl').mp h
  refine ⟨by simpa using hm, ?_⟩
  rw [ht, Ctx.child_pos]
  simp [Ctx.pos]

end Pool

namespace Heap

open Pool TreeArena.Tree

variable {h : Heap} {own : List Handle}

theorem Exact.kept (hE : h.Exact own) {k : Nat} {p : Pool} (hp : h.pools[k]? = some p) :
    ∃ ts, p.Kept (addUnit (units own k) p.failure.slot) ts :=
  (hE.pools k p hp).1

/-- A located handle of an exact heap names the root of the subtree at a hole of its pool's
forest, the hole at the position it was found at. -/
theorem Exact.site (hE : h.Exact own) {r : Handle} {k : Nat} {p : Pool} {off : Nat}
    (hf : h.Finds r k p off) :
    ∃ (c : Ctx) (nd : Node) (ks : List Tree),
      p.Kept (addUnit (units own k) p.failure.slot) (c.fill [node nd ks]) ∧ nd.slot = r.slot ∧
        c.pos = off := by
  obtain ⟨ts, hK⟩ := hE.kept hf.pool
  obtain ⟨c, nd, ks, rfl, hs, hpos⟩ := hK.sound.hole_of_resolve hf.resolve
  exact ⟨c, nd, ks, hK, hs, hpos⟩

theorem isFailure_of_finds {r : Handle} {k : Nat} {p : Pool} {i : Nat} (hf : h.Finds r k p i) :
    h.isFailure r = (p.nodes.kindAt i == failureKind) := by
  simp [isFailure, resolve_of_finds hf, hf.pool]

theorem reads_failureAt (k off : Nat) :
    Reads (failureAt k off) h fun b =>
      ∃ p, h.pools[k]? = some p ∧ b = (p.nodes.kindAt off == failureKind) :=
  reads_readPool k _

theorem Finds.reads_failureAt {r : Handle} {k off : Nat} {p : Pool} (hf : h.Finds r k p off) :
    Reads (failureAt k off) h fun b => b = (p.nodes.kindAt off == failureKind) := by
  refine (Heap.reads_failureAt k off).mono fun b hb => ?_
  obtain ⟨q, hq, rfl⟩ := hb
  obtain rfl : p = q := Option.some.inj (hf.pool.symm.trans hq)
  rfl

theorem reads_checkChildCount (k off : Nat) (n : Int) :
    Reads (checkChildCount k off n) h fun _ =>
      ∃ p, h.pools[k]? = some p ∧ (p.nodes.childrenAt off : Int) = n := by
  unfold checkChildCount
  refine (reads_readPool k id).bind fun p hp => ?_
  obtain ⟨q, hq, rfl⟩ := hp
  dsimp only [id]
  split
  · exact reads_throw _
  · rename_i hn
    exact reads_pure ⟨p, hq, by simpa using hn⟩

/-- The ancestor query compares positions: the receiver's record is the argument's, or lies
strictly inside the argument's subtree. -/
theorem reads_hasAncestor (r t : Handle) (self : Bool) :
    Reads (hasAncestor r t self) h fun b => ∀ k p off toff, h.Finds r k p off →
      h.Finds t k p toff →
        (b = true ↔ (off = toff ∧ self = true) ∨
          (off ≠ toff ∧ toff < off ∧ off < p.nodes.subtreeEnd toff)) := by
  unfold hasAncestor
  refine reads_get.bind fun h' hh => ?_
  subst hh
  split
  · rename_i hnd
    refine reads_pure fun k p off toff _ ht => ?_
    have := isDefined_iff_finds.mpr ⟨k, p, toff, ht⟩
    simp [this] at hnd
  · refine (reads_locate r).bind fun off hoff => ?_
    obtain ⟨k, p, hr⟩ := hoff
    refine (hr.reads_sibling t).bind fun toff ht => ?_
    split
    · rename_i heq
      refine reads_pure fun k₁ p₁ off₁ toff₁ hr₁ ht₁ => ?_
      obtain ⟨rfl, rfl, rfl⟩ := hr.unique hr₁
      obtain ⟨-, -, rfl⟩ := ht.unique ht₁
      simp [heq]
    · rename_i hne
      refine hr.reads_homeOf.bind fun k₂ hk₂ => ?_
      subst hk₂
      refine hr.reads_pool.bind fun q hq => ?_
      subst hq
      refine reads_pure fun k₁ p₁ off₁ toff₁ hr₁ ht₁ => ?_
      obtain ⟨rfl, rfl, rfl⟩ := hr.unique hr₁
      obtain ⟨-, -, rfl⟩ := ht.unique ht₁
      simp [hne]

/-- The cycle check passes only when the receiver's record lies outside the argument's subtree. -/
theorem reads_checkAcyclic (r t : Handle) :
    Reads (checkAcyclic r t) h fun _ => ∀ k p off toff, h.Finds r k p off → h.Finds t k p toff →
      off ≠ toff ∧ ¬ (toff < off ∧ off < p.nodes.subtreeEnd toff) := by
  unfold checkAcyclic
  refine (reads_hasAncestor r t true).bind fun b hb => ?_
  split
  · exact reads_throw _
  · rename_i hnb
    rw [Bool.not_eq_true] at hnb
    subst hnb
    refine reads_pure fun k p off toff hr ht => ?_
    have := hb k p off toff hr ht
    refine ⟨fun heq => absurd (this.mpr (.inl ⟨heq, rfl⟩)) (by decide), fun hlt => ?_⟩
    exact absurd (this.mpr (.inr ⟨by omega, hlt⟩)) (by decide)

/-- The index query finds the argument among the receiver's children by the scan. -/
theorem reads_indexOf (r t : Handle) :
    Reads (indexOf r t) h fun n => 0 ≤ n → ∃ k p off toff, h.Finds r k p off ∧
      h.Finds t k p toff ∧
      scanChildren p.nodes toff (p.nodes.next off) 0 (p.nodes.childrenAt off) = some n.toNat := by
  unfold indexOf
  refine (reads_locate r).bind fun off hoff => ?_
  obtain ⟨k, p, hr⟩ := hoff
  refine (hr.reads_sibling t).bind fun toff ht => ?_
  refine hr.reads_homeOf.bind fun k₂ hk₂ => ?_
  subst hk₂
  refine hr.reads_pool.bind fun q hq => ?_
  subst hq
  split
  · rename_i n hn
    exact reads_pure fun _ => ⟨k, p, off, toff, hr, ht, by simpa using hn⟩
  · exact reads_pure fun hn => absurd hn (by decide)

/-- On two live records of one pool, the index query returns the scan's count, or -1. -/
theorem returns_indexOf {r t : Handle} {k : Nat} {p : Pool} {off toff : Nat}
    (hf : h.Finds r k p off) (ht : h.Finds t k p toff) :
    Returns (indexOf r t) h fun n h' => h' = h ∧
      n = ((scanChildren p.nodes toff (p.nodes.next off) 0 (p.nodes.childrenAt off)).map
        fun j : Nat => (j : Int)).getD (-1) := by
  unfold indexOf
  refine (returns_locate hf).bind fun a h₁ hh => ?_
  obtain ⟨rfl, rfl⟩ := hh
  refine (returns_sibling hf.home ht).bind fun a h₁ hh => ?_
  obtain ⟨rfl, rfl⟩ := hh
  refine (returns_homeOf hf.home).bind fun a h₁ hh => ?_
  obtain ⟨rfl, rfl⟩ := hh
  refine (returns_readPool hf.pool id).bind fun q h₁ hh => ?_
  obtain ⟨rfl, rfl⟩ := hh
  split <;> rename_i hs <;> exact returns_pure ⟨rfl, by simp [hs]⟩

/-- On two live records of one pool, the child query returns whether the scan finds the
argument among the receiver's children. -/
theorem returns_hasChild {r t : Handle} {k : Nat} {p : Pool} {off toff : Nat}
    (hf : h.Finds r k p off) (ht : h.Finds t k p toff) :
    Returns (hasChild r t) h fun b h' => h' = h ∧
      (b = true ↔ (scanChildren p.nodes toff (p.nodes.next off) 0 (p.nodes.childrenAt off)).isSome) := by
  unfold hasChild
  refine returns_get_bind ?_
  rw [isDefined_iff_finds.mpr ⟨k, p, toff, ht⟩]
  refine (returns_indexOf hf ht).bind fun n h₁ hh => ?_
  obtain ⟨rfl, rfl⟩ := hh
  refine returns_pure ⟨rfl, ?_⟩
  cases scanChildren p.nodes toff (p.nodes.next off) 0 (p.nodes.childrenAt off) <;> simp

/-- A child found is the root of a child hole of the receiver's record. -/
theorem reads_hasChild (r t : Handle) :
    Reads (hasChild r t) h fun b => b = true → ∃ k p off toff, h.Finds r k p off ∧
      h.Finds t k p toff ∧ ∃ n, scanChildren p.nodes toff (p.nodes.next off) 0
        (p.nodes.childrenAt off) = some n := by
  unfold hasChild
  refine reads_get.bind fun h' hh => ?_
  subst hh
  split
  · exact reads_pure fun hb => absurd hb (by decide)
  · refine (reads_indexOf r t).bind fun n hn => reads_pure fun hb => ?_
    obtain ⟨k, p, off, toff, hr, ht, hs⟩ := hn (by simpa using hb)
    exact ⟨k, p, off, toff, hr, ht, _, hs⟩

end Heap

end TreeArena
