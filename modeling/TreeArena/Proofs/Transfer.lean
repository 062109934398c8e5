import TreeArena.Proofs.Reachable

/-!
# Moving a subtree between pools

A handle's subtree is exported as the encoding of its records' entries (type, children count,
payload) in depth-first order, and the bytes are imported into a pool, the same or another, as
a new root. In every reachable heap, for a handle on a node that is not a failure node and a
pool with room for the subtree's bytes and records (`reachable_export_import`):

* the export decodes to the subtree's entries;
* the import returns a handle on a new root at the end of the pool's arena, whose records have
  those entries, each with one unit in a slot that was free;
* the records already in the pool stay where they were, and the slots in use keep their
  positions and generations;
* exporting the new root gives the same bytes.

The subtree holds no failure record, since those are bare roots, so the import never answers
with the failure node once there is room.
-/

namespace TreeArena

namespace Pool

open TreeArena.Tree

variable {q : Pool} {w : Nat → Nat} {ts : List Tree}

/-- Importing a tree of no failure record into a kept pool with room appends its records as a
new root at the end of the arena, whose export has the tree's entries. -/
theorem Kept.import_root (hK : q.Kept w ts) (hw : ∀ s, q.slots.isFree s = true → w s = 0)
    {data : List UInt8} {es : List Entry} (hdec : TreeCode.decode data = .ok es)
    (hk : ∀ e ∈ es, e.kind ≠ failureKind) (hroom : q.used + TreeCode.arenaSize es ≤ q.limit)
    (hfree : es.length ≤ q.slots.free) :
    ∃ (T : Tree) (q' : Pool),
      (Pool.importTree data).run q = .ok (.ok (.root (q'.slots.idOf T.head.slot))) q' ∧
      q.Appends T.records q' ∧ T.records.map Node.entry = es ∧
      q'.slots.resolve (q'.slots.idOf T.head.slot) = some q.nodes.size ∧
      q'.nodes.parentOf q.nodes.size = none ∧ q'.entriesAt q.nodes.size = es := by
  obtain ⟨T, q', hrun, hT, hmap, ha, -⟩ := importTree_of_fits hK.sound.laid.locates hdec hk hroom hfree
  -- the new tree is the last root of the forest, at the end of the arena
  have hS' : q'.Sound (addUnit w T.head.slot) ((Ctx.top ts []).fill [T]) := by
    rw [Ctx.top_fill, List.append_nil]
    exact (ha.sound hK.sound hw hT rfl).1
  have hpos : (Ctx.top ts []).pos = q.nodes.size := by
    rw [Ctx.top_pos, hK.sound.laid.size_eq]
  refine ⟨T, q', hrun, ha, hmap, ?_, ?_, ?_⟩
  · rw [← hpos]
    exact hS'.resolve_idOf
  · rw [← hpos]
    exact hS'.parentOf_eq_none_iff.mpr rfl
  · rw [← hpos, entriesAt_fill hS', hmap]

end Pool

namespace Heap

open Pool TreeArena.Tree

variable {h h' : Heap} {own : List Handle} {b : Bool}

theorem returns_inspect {α : Type} {r : Handle} {k : Nat} {p : Pool} {i : Nat}
    (hf : h.Finds r k p i) (f : Pool → Nat → α) :
    Returns (inspect r f) h fun a h' => a = f p i ∧ h' = h := by
  unfold inspect
  refine (returns_locate hf).bind fun a h₁ ⟨ha, hh⟩ => ?_
  subst a h₁
  refine (returns_homeOf hf.home).bind fun a h₁ ⟨ha, hh⟩ => ?_
  subst a h₁
  exact returns_readPool hf.pool _

theorem run_decodeInto_root {k : Nat} {q q' : Pool} (hq : h.pools[k]? = some q)
    {data : List UInt8} {id : NodeId} (hrun : (importTree data).run q = .ok (.ok (.root id)) q') :
    (decodeInto k data).run h = .ok (.ok ⟨some k, id⟩) ⟨h.pools.setIfInBounds k q'⟩ := by
  unfold decodeInto
  rw [run_bind_ok (run_onPool_ok hq hrun)]
  rfl

/-- The export of a live handle's subtree: the encoding of its records' entries, which decode
back to them when it holds no failure record. -/
theorem Exact.encodeTree (hE : h.Exact own) {r : Handle} {k : Nat} {p : Pool} {i : Nat}
    (hr : h.Finds r k p i) (hk : p.nodes.kindAt i ≠ failureKind) :
    (Heap.encodeTree r).run h = .ok (p.exportAt i) h ∧
      TreeCode.decode (p.exportAt i) = .ok (p.entriesAt i) ∧
      ∀ e ∈ p.entriesAt i, e.kind ≠ failureKind := by
  obtain ⟨a, h₁, hrun, ha, rfl⟩ := returns_inspect hr fun p i => p.exportAt i
  obtain ⟨c, nd, ks, hK, -, rfl⟩ := hE.site hr
  have hkind : (node nd ks).head.kind ≠ failureKind := by
    rwa [hK.sound.kindAt_pos] at hk
  have hent := hK.entries_of_fill hkind
  refine ⟨by rw [← ha]; exact hrun, ?_, ?_⟩
  · rw [entriesAt_fill hK.sound]
    exact decode_exportAt hK.sound fun nd hnd => (hent nd hnd).1
  · rw [entriesAt_fill hK.sound]
    intro e he
    obtain ⟨nd, hnd, rfl⟩ := List.mem_map.mp he
    exact (hent nd hnd).2

/-- In every heap reached from pools just built, the subtree of a handle on a node that is not a
failure node, exported and imported into a pool with room for its bytes and records, becomes a
new root at the end of that pool's arena: its records have the subtree's entries in depth-first
order, each with one unit in a slot that was free; the records already there stay where they were
and the slots in use keep their positions and generations; and exporting the new root gives the
same bytes. -/
theorem reachable_export_import (hf : h.Fresh) (hrun : Ops b [] h own h') {r : Handle} {k : Nat}
    {p : Pool} {i : Nat} (hr : h'.Finds r k p i) (hnf : h'.isFailure r = false) {k' : Nat} {q : Pool}
    (hq : h'.pools[k']? = some q) (hroom : q.used + TreeCode.arenaSize (p.entriesAt i) ≤ q.limit)
    (hfree : (p.entriesAt i).length ≤ q.slots.free) :
    ∃ (data : List UInt8) (ref : Handle) (h'' : Heap) (q' : Pool) (recs : List Node),
      (Heap.encodeTree r).run h' = .ok data h' ∧ TreeCode.decode data = .ok (p.entriesAt i) ∧
      (decodeInto k' data).run h' = .ok (.ok ref) h'' ∧ h''.pools[k']? = some q' ∧
      h''.Finds ref k' q' q.nodes.size ∧ q'.nodes.parentOf q.nodes.size = none ∧
      q'.nodes.toList = q.nodes.toList ++ recs ∧ recs.map Node.entry = p.entriesAt i ∧
      (∀ nd ∈ recs, nd.retain = 1 ∧ q.slots.isFree nd.slot = true) ∧
      (∀ s, q.slots.isFree s = false →
        q'.slots.position s = q.slots.position s ∧ q'.slots.generation s = q.slots.generation s) ∧
      (Heap.encodeTree ref).run h'' = .ok data h'' := by
  obtain ⟨L, hE, -⟩ := fresh_runs_exact hf hrun
  have hk : p.nodes.kindAt i ≠ failureKind := by
    simpa [isFailure_of_finds hr] using hnf
  obtain ⟨hexp, hdec, hkinds⟩ := hE.encodeTree hr hk
  obtain ⟨ts, hK⟩ := hE.kept hq
  obtain ⟨T, q', himp, ha, hmap, hres, hroot, hent⟩ :=
    hK.import_root (hE.free_owes hq hK) hdec hkinds hroom hfree
  -- the copy is found in the pool the import left, at the end of its arena
  have hq' : (⟨h'.pools.setIfInBounds k' q'⟩ : Heap).pools[k']? = some q' :=
    getElem?_setIfInBounds_pools_self hq _
  have hfind : Finds ⟨h'.pools.setIfInBounds k' q'⟩ ⟨some k', q'.slots.idOf T.head.slot⟩ k' q'
      q.nodes.size := ⟨rfl, hq', hres⟩
  obtain ⟨a, h₂, hexp', ha', rfl⟩ := returns_inspect hfind fun p i => p.exportAt i
  refine ⟨_, _, _, q', T.records, hexp, hdec, run_decodeInto_root hq himp, hq', hfind, hroot,
    ha.nodes_eq, hmap, fun nd hnd => ?_, fun s hs => ⟨ha.kept s hs, ?_⟩, ?_⟩
  · obtain ⟨-, hret, hfr⟩ := ha.fresh nd hnd
    exact ⟨hret, hfr⟩
  · simp [SlotTable.generation, ha.generations_eq]
  · unfold Heap.encodeTree
    rw [hexp', ha', exportAt, hent, exportAt]

/-- A node with a one-byte payload created in a pool just built, exported and imported into the
same pool. -/
theorem export_import_after_create :
    ∃ p, Pool.new 0 64 {} = .ok p ∧
      let h₁ := after (Call.create 0 1 [7]).run ⟨#[p]⟩
      ∃ q, h₁.pools[0]? = some q ∧
        ∃ (data : List UInt8) (ref : Handle) (h'' : Heap) (q' : Pool) (recs : List Node),
          (Heap.encodeTree ⟨some 0, ⟨1, 0⟩⟩).run h₁ = .ok data h₁ ∧
          TreeCode.decode data = .ok (q.entriesAt 1) ∧
          (decodeInto 0 data).run h₁ = .ok (.ok ref) h'' ∧ h''.pools[0]? = some q' ∧
          h''.Finds ref 0 q' q.nodes.size ∧ q'.nodes.parentOf q.nodes.size = none ∧
          q'.nodes.toList = q.nodes.toList ++ recs ∧ recs.map Node.entry = q.entriesAt 1 ∧
          (∀ nd ∈ recs, nd.retain = 1 ∧ q.slots.isFree nd.slot = true) ∧
          (∀ s, q.slots.isFree s = false →
            q'.slots.position s = q.slots.position s ∧ q'.slots.generation s = q.slots.generation s) ∧
          (Heap.encodeTree ref).run h'' = .ok data h'' := by
  have hp : Pool.new 0 64 {} = .ok _ := rfl
  refine ⟨_, hp, ?_⟩
  intro h₁
  refine ⟨_, rfl, ?_⟩
  exact reachable_export_import (fresh_of_new hp)
    (.step (.call (.create 0 1 [7]) (by decide) fun _ htk => by cases htk) .refl)
    ⟨rfl, rfl, by rfl⟩ (by rfl) (by rfl)
    (by rw [Pool.entriesAt, Arena.subtreeEnd, Arena.blockEnd_eq]; decide)
    (by rw [Pool.entriesAt, Arena.subtreeEnd, Arena.blockEnd_eq]; decide)

end Heap

end TreeArena
