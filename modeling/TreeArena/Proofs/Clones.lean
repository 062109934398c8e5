import TreeArena.Proofs.Constructors

/-!
# Copying a subtree

`Heap.clone` copies the subtree of a node to the end of its pool's arena. Read through the
abstract forest (`Pool.view`), the copy is a new root whose nodes all have identifiers no node had
before, and it shares no node with the original: below each of the two roots lie only nodes of its
own subtree (`Pool.Below`), so a later change confined to one subtree leaves the other as it was
(`Pool.Below.apart`). `Heap.clone_copies_subtree` collects what one copy does over every heap
reached from pools just built.
-/

namespace TreeArena

namespace Pool

open TreeArena.Tree

variable {p q : Pool} {w : Nat → Nat} {ts : List Tree}

/-- The nodes at or below `x` in the abstract forest. -/
inductive Below (p : Pool) (x : NodeId) : NodeId → Prop where
  | self : Below p x x
  | child {y z : NodeId} {v : NodeView} : Below p x y → p.view y = some v → z ∈ v.children →
      Below p x z

/-- A pool that reads as `p` at every node below `x` has the same nodes below `x`. -/
theorem Below.congr {x : NodeId} (hagree : ∀ y, p.Below x y → q.view y = p.view y) (y : NodeId) :
    q.Below x y ↔ p.Below x y := by
  constructor
  · intro hy
    induction hy with
    | self => exact .self
    | child _ hv hz ih => exact .child ih (by rw [← hagree _ ih, hv]) hz
  · intro hy
    induction hy with
    | self => exact .self
    | child hb hv hz ih => exact .child ih (by rw [hagree _ hb, hv]) hz

/-- Two nodes with no node below both: a pool that reads as `p` outside the nodes below `x'`
has the nodes below `x` that `p` has, each read as `p` reads it. -/
theorem Below.apart {x x' : NodeId} (hdis : ∀ y, p.Below x y → ¬ p.Below x' y)
    (hq : ∀ y, ¬ p.Below x' y → q.view y = p.view y) (y : NodeId) :
    (q.Below x y ↔ p.Below x y) ∧ (p.Below x y → q.view y = p.view y) :=
  ⟨Below.congr (fun z hz => hq z (hdis z hz)) y, fun hy => hq y (hdis y hy)⟩

/-- The children a record of a subtree lists lie in the subtree. -/
theorem kids_mem_records {c : Ctx} {U : Tree} (hnd : ((layout (c.fill [U])).map Node.slot).Nodup)
    {s : Nat} (hs : s ∈ U.records.map Node.slot) {e : Node × List Nat}
    (he : lookup s (c.fill [U]) = some e) {z : Nat} (hz : z ∈ e.2) : z ∈ U.records.map Node.slot := by
  obtain ⟨e', he'⟩ := Option.isSome_iff_exists.mp
    (lookup_isSome_iff.mpr (by rw [layout_singleton]; exact hs))
  obtain rfl : e' = e := Option.some.inj ((lookup_fill_of_lookup hnd he').symm.trans he)
  have hmem : e' ∈ linksAll [U] := (mem_of_lookup he').1
  have hkid : z ∈ kidSlots [U] := List.mem_flatMap.mpr ⟨e', hmem, hz⟩
  exact (perm_heads_kids_node U).subset (List.mem_cons_of_mem _ hkid)

/-- Below the root of a subtree lie only records of the subtree, each named by its slot's
current identifier. -/
theorem Sound.below_subtree {c : Ctx} {U : Tree} (hS : p.Sound w (c.fill [U])) {y : NodeId}
    (hy : p.Below (p.slots.idOf U.head.slot) y) :
    y = p.slots.idOf y.slot ∧ y.slot ∈ U.records.map Node.slot := by
  induction hy with
  | self => exact ⟨rfl, List.mem_map_of_mem (by rw [records_eq]; exact List.mem_cons_self)⟩
  | child _ hv hz ih =>
    obtain ⟨hid, hslot⟩ := ih
    rw [hid, hS.view_idOf] at hv
    obtain ⟨e, he, rfl⟩ := Option.map_eq_some_iff.mp hv
    obtain ⟨s, hs, rfl⟩ := List.mem_map.mp hz
    exact ⟨rfl, kids_mem_records hS.laid.nodup hslot he hs⟩

/-- Appending records in free slots leaves every live node as it reads. -/
theorem Appends.view_eq {p' : Pool} {recs : List Node} (ha : p.Appends recs p') (hS : p.Sound w ts)
    {w' : Nat → Nat} {us : List Tree} (hS' : p'.Sound w' (ts ++ us)) {x : NodeId}
    (hx : (p.view x).isSome) : p'.view x = p.view x := by
  obtain ⟨v, hv⟩ := Option.isSome_iff_exists.mp hx
  have hvx := eq_idOf_of_view hv
  have hid : p'.slots.idOf = p.slots.idOf := by
    funext s
    simp [SlotTable.idOf, SlotTable.generation, ha.generations_eq]
  rw [hvx, hS.view_idOf] at hv
  obtain ⟨e, he, -⟩ := Option.map_eq_some_iff.mp hv
  calc p'.view x = p'.view (p'.slots.idOf x.slot) := by rw [hid, ← hvx]
    _ = (lookup x.slot (ts ++ us)).map p'.viewOf := hS'.view_idOf _
    _ = (lookup x.slot ts).map p.viewOf := by
      rw [lookup_append, he, Option.some_or]
      simp [viewOf, hid]
    _ = p.view x := by rw [← hS.view_idOf, ← hvx]

theorem view_congr {p' : Pool} (hn : p'.nodes = p.nodes) (hs : p'.slots = p.slots) :
    p'.view = p.view := by
  funext x
  simp [view, childIds, hn, hs]

/-- Copying the subtree at position `i` is refused: its bytes do not fit under the limit, or
fewer identifiers are free than it has records. -/
def CloneRefused (p : Pool) (i : Nat) : Prop :=
  p.used + Arena.used (p.nodes.extract i (p.nodes.subtreeEnd i)) > p.limit ∨
    p.slots.free < p.nodes.subtreeEnd i - i

/-- At a hole, the refusal reads the records of the subtree there. -/
theorem Sound.cloneRefused_iff {c : Ctx} {U : Tree} (hS : p.Sound w (c.fill [U])) :
    p.CloneRefused c.pos ↔
      p.used + Arena.used U.records.toArray > p.limit ∨ p.slots.free < U.size := by
  obtain ⟨-, hblock, hcount⟩ := hS.cloneAt_reads
  rw [CloneRefused, hblock, hcount]

theorem Sound.below_live {c : Ctx} {U : Tree} (hS : p.Sound w (c.fill [U])) {y : NodeId}
    (hy : p.Below (p.slots.idOf U.head.slot) y) : (p.view y).isSome := by
  obtain ⟨hid, hs⟩ := hS.below_subtree hy
  have hlay : y.slot ∈ (layout (c.fill [U])).map Node.slot := by
    rw [Ctx.layout_fill, layout_singleton, List.map_append, List.map_append]
    exact List.mem_append_left _ (List.mem_append_right _ hs)
  rw [hid, hS.view_idOf, Option.isSome_map]
  exact lookup_isSome_iff.mpr hlay

section Copy

variable {p' : Pool} {c : Ctx} {U T : Tree} {w' : Nat → Nat}

/-- The copy's root is the first record appended, and the copy lists, in depth-first order, the
entries of the subtree copied. -/
theorem Sound.copy_reads (hS : p.Sound w (c.fill [U])) (hS' : p'.Sound w' (c.fill [U] ++ [T]))
    (hmap : T.records.map Node.entry = U.records.map Node.entry) :
    p'.slots.resolve (p'.slots.idOf T.head.slot) = some p.nodes.size ∧
      p'.entriesAt p.nodes.size = p.entriesAt c.pos := by
  have hS'' : p'.Sound w' ((Ctx.top (c.fill [U]) []).fill [T]) := by
    rw [Ctx.top_fill, List.append_nil]
    exact hS'
  have hpos : (Ctx.top (c.fill [U]) []).pos = p.nodes.size := by
    rw [Ctx.top_pos, hS.laid.layout_eq, Array.length_toList]
  refine ⟨hpos ▸ hS''.resolve_idOf, ?_⟩
  unfold entriesAt
  rw [← hpos, hS''.cloneAt_reads.2.1, hS.cloneAt_reads.2.1, List.toList_toArray,
    List.toList_toArray]
  exact hmap

/-- Below the copy's root lie only nodes whose identifiers named nothing before. -/
theorem Appends.below_copy_fresh (ha : p.Appends T.records p')
    (hS' : p'.Sound w' (c.fill [U] ++ [T])) {y : NodeId}
    (hy : p'.Below (p'.slots.idOf T.head.slot) y) :
    p.slots.resolve y = none := by
  have hS'' : p'.Sound w' ((Ctx.top (c.fill [U]) []).fill [T]) := by
    rw [Ctx.top_fill, List.append_nil]
    exact hS'
  obtain ⟨-, hs⟩ := hS''.below_subtree hy
  obtain ⟨nd, hnd, hslot⟩ := List.mem_map.mp hs
  apply SlotTable.resolve_eq_none_of_isFree
  rw [← hslot]
  exact (ha.fresh nd hnd).2.2

/-- Below the original's root lie the nodes that lay below it before the copy. -/
theorem Appends.below_original (ha : p.Appends T.records p') (hS : p.Sound w (c.fill [U]))
    (hS' : p'.Sound w' (c.fill [U] ++ [T])) (y : NodeId) :
    p'.Below (p.slots.idOf U.head.slot) y ↔ p.Below (p.slots.idOf U.head.slot) y :=
  Below.congr (fun _ hz => ha.view_eq hS hS' (hS.below_live hz)) y

/-- No node lies below both the original and its copy. -/
theorem Appends.copy_disjoint (ha : p.Appends T.records p') (hS : p.Sound w (c.fill [U]))
    (hS' : p'.Sound w' (c.fill [U] ++ [T])) {y : NodeId}
    (hy : p'.Below (p.slots.idOf U.head.slot) y) :
    ¬ p'.Below (p'.slots.idOf T.head.slot) y := fun hy' => by
  have hlive := hS.below_live ((ha.below_original hS hS' y).mp hy)
  rw [Pool.view, ha.below_copy_fresh hS' hy'] at hlive
  cases hlive

end Copy

end Pool

namespace Heap

open Pool TreeArena.Tree

variable {h : Heap}

theorem run_clone {r : Handle} {k off : Nat} {p p' : Pool} {id : NodeId} (hf : h.Finds r k p off)
    (hrun : (cloneAt off).run p = .ok id p') :
    (clone r).run h = .ok ⟨some k, id⟩ ⟨h.pools.setIfInBounds k p'⟩ := by
  unfold Heap.clone
  obtain ⟨a, h', hl, ha, hh⟩ := returns_locate hf
  rw [ha, hh] at hl
  obtain ⟨k', h'', hk, hk', hh'⟩ := returns_homeOf (h := h) hf.home
  rw [hk', hh'] at hk
  rw [run_bind_ok hl, run_bind_ok hk, run_bind_ok (run_onPool_ok hf.pool hrun)]
  rfl

/-- Over every heap reached from pools just built, cloning a live node that is no failure returns
a handle of its pool and changes no node that was live. It is refused, handing out the failure
node with arena and table as they were, exactly when the subtree's bytes do not fit under the
limit or fewer identifiers are free than it has records. Otherwise the copy's records, unpinned
with one unit each, are appended to the arena, and reported in order when the pool reports
allocations; the handle names the first of them, a root whose subtree lists the original's
entries in depth-first order, and whose nodes all have identifiers that named nothing before.
The original keeps the nodes below it, no node lies below both, and so a pool that differs only
at nodes below one of the two roots has the other's subtree as it was. -/
theorem clone_copies_subtree {b : Bool} {h h₁ : Heap} {own : List Handle} (hf : h.Fresh)
    (hrun : Ops b [] h own h₁) {r : Handle} {k : Nat} {p : Pool} {off : Nat}
    (hr : h₁.Finds r k p off) (hk : p.nodes.kindAt off ≠ failureKind) :
    ∃ r' p', (Heap.clone r).run h₁ = .ok r' ⟨h₁.pools.setIfInBounds k p'⟩ ∧ r'.home = some k ∧
      (r'.id = p.failure ↔ p.CloneRefused off) ∧
      (∀ x, (p.view x).isSome → p'.view x = p.view x) ∧
      (p.CloneRefused off → p'.nodes = p.nodes ∧ p'.slots = p.slots) ∧
      (¬ p.CloneRefused off →
        (∃ recs, p'.nodes.toList = p.nodes.toList ++ recs ∧
          (∀ nd ∈ recs, nd.pinned = false ∧ nd.retain = 1) ∧
          p'.journal.toList = p.journal.toList ++
            if p.reports then (List.range' p.nodes.size recs.length).map p'.allocNotice else []) ∧
        p'.slots.resolve r'.id = some p.nodes.size ∧
        p'.entriesAt p.nodes.size = p.entriesAt off ∧
        (∀ x v, p'.view x = some v → r'.id ∉ v.children) ∧
        (∀ y, p'.Below r'.id y → p.slots.resolve y = none) ∧
        (∀ y, p'.Below r.id y ↔ p.Below r.id y) ∧
        (∀ q : Pool, (∀ y, ¬ p'.Below r'.id y → q.view y = p'.view y) →
          ∀ y, (q.Below r.id y ↔ p'.Below r.id y) ∧ (p'.Below r.id y → q.view y = p'.view y)) ∧
        (∀ q : Pool, (∀ y, ¬ p'.Below r.id y → q.view y = p'.view y) →
          ∀ y, (q.Below r'.id y ↔ p'.Below r'.id y) ∧ (p'.Below r'.id y → q.view y = p'.view y))) := by
  obtain ⟨L, hE, -⟩ := fresh_runs_exact hf hrun
  obtain ⟨c, nd, ks, hK, hslot, rfl⟩ := hE.site hr
  have hku : (node nd ks).head.kind ≠ failureKind := by
    rw [hK.sound.kindAt_pos] at hk
    exact hk
  -- the handle names the subtree's root by its slot's identifier
  have hrid : r.id = p.slots.idOf (node nd ks).head.slot := by
    rw [hr.live.1]
    exact congrArg p.slots.idOf hslot.symm
  obtain ⟨a, p'', hrun', hiff, -⟩ := hK.cloneAt_refuses hku
  have hiff' : a = p.failure ↔ p.CloneRefused c.pos := hiff.trans hK.sound.cloneRefused_iff.symm
  rcases cloneAt_spec hK.sound with ⟨p', hrunc, hn, hs, -, -⟩ |
    ⟨T, p', hrunc, -, hT, hmap, ha, hjour⟩
  · -- refused: nothing the view reads changes
    have hx := hrunc.symm.trans hrun'
    simp only [EStateM.Result.ok.injEq] at hx
    obtain ⟨rfl, rfl⟩ := hx
    exact ⟨_, p', run_clone hr hrunc, rfl, hiff', fun x _ => by rw [view_congr hn hs],
      fun _ => ⟨hn, hs⟩, fun hno => absurd (hiff'.mp rfl) hno⟩
  · -- copied: a new root after the forest
    have hx := hrunc.symm.trans hrun'
    simp only [EStateM.Result.ok.injEq] at hx
    obtain ⟨rfl, rfl⟩ := hx
    have hS' := (ha.sound hK.sound (hE.free_owes hr.pool hK) hT rfl).1
    have hfresh := (ha.fresh T.head (by rw [records_eq]; exact List.mem_cons_self)).2.2
    have hne : p'.slots.idOf T.head.slot ≠ p.failure := hK.idOf_ne_failure _ hfresh
    have hlen : T.records.length = (node nd ks).size := by
      rw [Tree.size, ← List.length_map (f := Node.entry), hmap, List.length_map]
    obtain ⟨hres, hent⟩ := hK.sound.copy_reads hS' hmap
    have hdis : ∀ y, _ := fun y => ha.copy_disjoint hK.sound hS' (y := y)
    refine ⟨_, p', run_clone hr hrunc, rfl, hiff', fun x hx => ha.view_eq hK.sound hS' hx,
      fun href => absurd (hiff'.mpr href) hne, fun _ => ⟨⟨T.records, ha.nodes_eq,
        fun nd hnd => ⟨(ha.fresh nd hnd).1, (ha.fresh nd hnd).2.1⟩, by rw [hlen]; exact hjour⟩,
      hres, hent, fun x v hv => hS'.not_child_of_head (by simp) hv,
      fun y hy => ha.below_copy_fresh hS' hy, ?_, fun q hq => ?_, fun q hq => ?_⟩⟩
    · rw [hrid]
      exact ha.below_original hK.sound hS'
    · rw [hrid]
      exact Below.apart hdis hq
    · rw [hrid] at hq
      exact Below.apart (fun y hy hy' => hdis y hy' hy) hq

/-- Cloning a node just created in a pool just built is refused exactly when the pool has no
room for the copy. -/
theorem clone_of_created_node :
    ∃ p, Pool.new 0 64 {} = .ok p ∧
      let h₁ := after (Call.create 0 1 []).run ⟨#[p]⟩
      ∃ q r' p', h₁.pools[0]? = some q ∧
        (Heap.clone ⟨some 0, ⟨1, 0⟩⟩).run h₁ = .ok r' ⟨h₁.pools.setIfInBounds 0 p'⟩ ∧
        (r'.id = q.failure ↔ q.CloneRefused 1) := by
  have hp : Pool.new 0 64 {} = .ok _ := rfl
  refine ⟨_, hp, ?_⟩
  intro h₁
  have hr : h₁.Finds ⟨some 0, ⟨1, 0⟩⟩ 0 _ 1 := ⟨rfl, rfl, by rfl⟩
  obtain ⟨r', p', hrun, -, hiff, -⟩ := clone_copies_subtree (fresh_of_new hp)
    (.step (.call (.create 0 1 []) (by decide) fun _ htk => by cases htk) .refl) hr (by decide)
  exact ⟨_, r', p', rfl, hrun, hiff⟩

end Heap

end TreeArena
