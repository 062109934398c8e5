import TreeArena.Proofs.HeapRuns

/-!
# What every reachable heap looks like

A client's heap starts with pools just built (`Heap.Fresh`) and changes by runs of calls
(`Heap.Ops`). It stays exact for the handles the client holds together with those lost to
constructors that faulted (`Heap.fresh_runs_exact`), so every pool keeps its invariant
`Pool.Kept`. Read at each position of the arena, that invariant gives:

* the arena is the depth-first layout of a forest whose records state their children counts,
  and the identifier table maps the live slots one to one onto the positions
  (`reachable_pools_laid_out`);
* the pool's own failure node is live, pinned and a childless root without payload holding one
  unit (`reachable_failure_node_static`); every other record of the failure type is such a root
  too (`Heap.failures_kept_out_of_trees`). It need not stay at the first
  position: a root put in the failure node's place by `replaceWith` is moved in front of it;
* when no constructor faulted, every record but the failure node holds one unit for its parent
  edge and one for each handle the client holds on it, every handle names a live node, and every
  root but the failure node is named by a handle (`reachable_retain_counts`).
-/

namespace TreeArena

namespace Pool

open TreeArena.Tree

variable {p : Pool} {w : Nat → Nat} {ts : List Tree} {i : Nat} {nd : Node}

theorem Sound.hole_of_getElem? (hS : p.Sound w ts) (hi : p.nodes[i]? = some nd) :
    ∃ (c : Ctx) (ks : List Tree), c.fill [node nd ks] = ts ∧ c.pos = i := by
  obtain ⟨hlt, hnd⟩ := Array.getElem?_eq_some_iff.mp hi
  have hpos := hS.laid.locates.position_slot i (by simpa using hlt)
  simp only [Array.getElem_toList, hnd] at hpos
  obtain ⟨c, nd', ks, rfl, -, hc⟩ := hS.hole_of_position hpos
  -- the record at the hole's position is the one asked about
  have hsame := hS.getElem?_pos
  rw [hc, hi] at hsame
  cases hsame
  exact ⟨c, ks, rfl, hc⟩

/-- The record at a hole is looked at as a root exactly when the arena gives it no parent. -/
theorem Sound.parentOf_isNone {c : Ctx} {t : Tree} (hS : p.Sound w (c.fill [t])) :
    (p.nodes.parentOf c.pos).isNone = c.up.isEmpty := by
  cases hup : c.up with
  | nil => simp [hS.parentOf_eq_none_iff.mpr hup]
  | cons f fs =>
    cases hpo : p.nodes.parentOf c.pos with
    | none => simp [hS.parentOf_eq_none_iff.mp hpo] at hup
    | some q => rfl

/-- A record of a kept pool is proper, as a root when it has no parent. -/
theorem Kept.proper_at (hK : p.Kept w ts) (hi : p.nodes[i]? = some nd) :
    nd.Proper p.failure.slot (p.nodes.parentOf i).isNone := by
  obtain ⟨c, ks, rfl, rfl⟩ := hK.sound.hole_of_getElem? hi
  rw [hK.sound.parentOf_isNone]
  exact hK.every_fill.head

/-- A record of a kept pool holds its units: none of its own if pinned, otherwise one for its
parent edge, if it has a parent, and those owed to its slot. -/
theorem Kept.holds_at (hK : p.Kept w ts) (hi : p.nodes[i]? = some nd) :
    nd.Holds w (p.nodes.parentOf i).isNone := by
  obtain ⟨c, ks, rfl, rfl⟩ := hK.sound.hole_of_getElem? hi
  rw [hK.sound.parentOf_isNone]
  exact (held_node_iff.mp hK.sound.held_fill).1

/-- A record of a kept pool is pinned only in the failure node's slot. -/
theorem Kept.unpinned_at (hK : p.Kept w ts) (hi : p.nodes[i]? = some nd)
    (hs : nd.slot ≠ p.failure.slot) : nd.pinned = false :=
  Bool.eq_false_iff.mpr fun hpin => hs ((hK.proper_at hi).pinned_iff.mp hpin)

/-- A root of a kept pool that is not pinned is owed a unit. -/
theorem Kept.owed_at (hK : p.Kept w ts) (hi : p.nodes[i]? = some nd)
    (hroot : p.nodes.parentOf i = none) (hpin : nd.pinned = false) : 0 < w nd.slot := by
  obtain ⟨c, ks, rfl, rfl⟩ := hK.sound.hole_of_getElem? hi
  have hmem : node nd ks ∈ c.fill [node nd ks] := by
    rw [fill_of_up_nil (hK.sound.parentOf_eq_none_iff.mp hroot)]
    simp
  exact hK.owed _ hmem hpin

/-- The failure node of a kept pool is live, and is a root kept as the pinned failure record. -/
theorem Kept.failure_at (hK : p.Kept w ts) :
    ∃ i, p.slots.resolve p.failure = some i ∧ p.nodes[i]? = some (failureRecord p.failure.slot) ∧
      p.nodes.parentOf i = none := by
  obtain ⟨i, hres⟩ := Option.isSome_iff_exists.mp hK.failure_live
  obtain ⟨hlt, hslot⟩ := hK.sound.laid.locates.slot_position (SlotTable.position_of_resolve hres)
  have hi : p.nodes[i]? = some p.nodes.toList[i] := by simp
  have hP := hK.proper_at hi
  have hpin : p.nodes.toList[i].pinned = true := hP.pinned_iff.mpr hslot
  obtain ⟨hroot, hc, -⟩ := hP.bare (hP.pinned_spec hpin).1
  rw [hroot, ← hslot] at hP
  refine ⟨i, hres, ?_, Option.isNone_iff_eq_none.mp hroot⟩
  rw [hi, failureRecord_eq hP hpin hc, hslot]

end Pool

namespace Heap

open Pool TreeArena.Tree

variable {h h' : Heap} {own : List Handle} {b : Bool}

/-- A heap whose pools are all just built. -/
def Fresh (h : Heap) : Prop :=
  ∀ (k : Nat) (p : Pool), h.pools[k]? = some p →
    ∃ (tag : Nat) (cap : Int) (opts : PoolOptions), Pool.new tag cap opts = .ok p

/-- Pools just built are exact for a client that holds no handle: each failure node holds its
own unit. -/
theorem exact_fresh (hf : h.Fresh) : h.Exact [] := by
  refine ⟨fun k p hp => ?_, fun r hr => absurd hr List.not_mem_nil⟩
  obtain ⟨tag, cap, opts, hnew⟩ := hf k p hp
  refine ⟨⟨[node (failureRecord p.failure.slot) []], ?_⟩, fun r hr => absurd hr List.not_mem_nil⟩
  have hu : addUnit (units [] k) p.failure.slot = fun s => if s = p.failure.slot then 1 else 0 := by
    funext s
    simp [addUnit, units]
  rw [hu]
  exact Kept.new hnew

theorem fresh_of_new {tag : Nat} {cap : Int} {opts : PoolOptions} {p : Pool}
    (hp : Pool.new tag cap opts = .ok p) : Fresh ⟨#[p]⟩ := by
  intro k q hq
  cases k with
  | zero =>
    cases hq
    exact ⟨tag, cap, opts, hp⟩
  | succ k => simp at hq

/-- A run from pools just built leaves the heap exact for the handles the client holds and some
handles lost to constructors that faulted, none if none did. -/
theorem fresh_runs_exact (hf : h.Fresh) (hrun : Ops b [] h own h') :
    ∃ L, h'.Exact (own ++ L) ∧ (b = false → L = []) := by
  have hE₀ : h.Exact ([] ++ []) := exact_fresh hf
  obtain ⟨L, hE, hnil⟩ := hrun.exact hE₀
  exact ⟨L, by simpa using hE, hnil⟩

/-- The handles of an exact heap that name the record at position `i` of pool `k` are those of
the pool whose slot is the record's: they give its units. -/
theorem Exact.units_eq_countP (hE : h.Exact own) {k : Nat} {p : Pool} (hp : h.pools[k]? = some p)
    {i : Nat} {nd : Node} (hi : p.nodes[i]? = some nd) :
    units own k nd.slot = own.countP fun r => h.resolve r = some (k, i) := by
  obtain ⟨ts, hK⟩ := hE.kept hp
  have hloc := hK.sound.laid.locates
  obtain ⟨hlt, hnd⟩ := Array.getElem?_eq_some_iff.mp hi
  have hpos := hloc.position_slot i (by simpa using hlt)
  simp only [Array.getElem_toList, hnd] at hpos
  unfold units
  refine List.countP_congr fun r hr => ?_
  simp only [decide_eq_true_eq]
  constructor
  · rintro ⟨hk, hs⟩
    obtain ⟨j, hj⟩ := Option.isSome_iff_exists.mp ((hE.pools k p hp).2 r hr hk).1
    have hji : j = i := by
      have := SlotTable.position_of_resolve hj
      rw [show r.id.slot = nd.slot from hs, hpos] at this
      exact (Option.some.inj this).symm
    exact resolve_of_finds ⟨hk, hp, hji ▸ hj⟩
  · intro hres
    obtain ⟨q, hf⟩ := finds_of_resolve hres
    obtain rfl : q = p := Option.some.inj (hf.pool.symm.trans hp)
    obtain ⟨hlt', hslot⟩ := hloc.slot_position (SlotTable.position_of_resolve hf.resolve)
    refine ⟨hf.home, ?_⟩
    show r.id.slot = nd.slot
    rw [← hslot]
    simp [hnd]

/-- Every pool of every heap reached from pools just built is laid out as a forest: the arena
is the depth-first layout of trees whose records state their children counts, and the table
maps each live slot to the position of the record in it, and only those. -/
theorem reachable_pools_laid_out (hf : h.Fresh) (hrun : Ops b [] h own h') {k : Nat} {p : Pool}
    (hp : h'.pools[k]? = some p) :
    ∃ ts, layout ts = p.nodes.toList ∧ (∀ t ∈ ts, t.Wf) ∧ p.slots.Locates p.nodes.toList := by
  obtain ⟨L, hE, -⟩ := fresh_runs_exact hf hrun
  obtain ⟨ts, hK⟩ := hE.kept hp
  exact ⟨ts, hK.sound.laid.layout_eq, hK.sound.wf, hK.sound.laid.locates⟩

/-- A pool just built, after a node is created in it, is laid out as a forest. -/
theorem pools_laid_out_after_create :
    ∃ p q, Pool.new 0 64 {} = .ok p ∧ (after (Call.create 0 1 []).run ⟨#[p]⟩).pools[0]? = some q ∧
      ∃ ts, layout ts = q.nodes.toList ∧ (∀ t ∈ ts, t.Wf) ∧ q.slots.Locates q.nodes.toList := by
  have hp : Pool.new 0 64 {} = .ok _ := rfl
  refine ⟨_, _, hp, rfl, ?_⟩
  exact reachable_pools_laid_out (k := 0) (fresh_of_new hp) (.step (.call (.create 0 1 []) (by decide) fun _ htk => by cases htk) .refl)
    (by rfl)

/-- In every heap reached from pools just built, a call that faults leaves the heap as it was: no
public operation changes a pool before it checks what it can fault on. -/
theorem reachable_faults_change_nothing (hf : h.Fresh) (hrun : Ops b [] h own h') {c : Call}
    (hc : c.Fits) (ht : ∀ r, c.takes = some r → h'.owns r = true → r ∈ own) {e : Fault} {h'' : Heap}
    (herr : c.run.run h' = .error e h'') : h'' = h' := by
  obtain ⟨L, hE, -⟩ := fresh_runs_exact hf hrun
  exact (hE.call hc fun r htk ho => List.mem_append_left L (ht r htk ho)).error herr

/-- Removing a child of the failure node of a pool just built faults, and changes nothing. -/
theorem remove_child_fault_leaves_heap :
    ∃ p e h'', Pool.new 0 64 {} = .ok p ∧
      (Call.edit (.removeChildAt ⟨some 0, ⟨0, 0⟩⟩ 0)).run.run ⟨#[p]⟩ = .error e h'' ∧
      h'' = ⟨#[p]⟩ := by
  have hp : Pool.new 0 64 {} = .ok _ := rfl
  refine ⟨_, _, _, hp, rfl, ?_⟩
  exact reachable_faults_change_nothing (c := .edit (.removeChildAt ⟨some 0, ⟨0, 0⟩⟩ 0))
    (fresh_of_new hp) .refl trivial (fun _ htk => by cases htk) rfl

/-- In every heap reached from pools just built, each pool's failure node is live, and is a
root kept as the pinned record of the failure type with no children, no payload and one unit. -/
theorem reachable_failure_node_static (hf : h.Fresh) (hrun : Ops b [] h own h') {k : Nat}
    {p : Pool} (hp : h'.pools[k]? = some p) :
    ∃ i, p.slots.resolve p.failure = some i ∧ p.nodes[i]? = some (failureRecord p.failure.slot) ∧
      p.nodes.parentOf i = none := by
  obtain ⟨L, hE, -⟩ := fresh_runs_exact hf hrun
  obtain ⟨ts, hK⟩ := hE.kept hp
  exact hK.failure_at

/-- The failure node of a pool just built stays the static failure record when a node is created. -/
theorem failure_static_after_create :
    ∃ p q, Pool.new 0 64 {} = .ok p ∧ (after (Call.create 0 1 []).run ⟨#[p]⟩).pools[0]? = some q ∧
      ∃ i, q.slots.resolve q.failure = some i ∧ q.nodes[i]? = some (failureRecord q.failure.slot) ∧
        q.nodes.parentOf i = none := by
  have hp : Pool.new 0 64 {} = .ok _ := rfl
  refine ⟨_, _, hp, rfl, ?_⟩
  exact reachable_failure_node_static (k := 0) (fresh_of_new hp)
    (.step (.call (.create 0 1 []) (by decide) fun _ htk => by cases htk) .refl) (by rfl)

/-- In every heap reached from pools just built by a run in which no constructor faulted, every
record but the failure node holds one unit for its parent edge, if it has a parent, and one for
each handle the client holds on it; every handle the client holds names a live node, and every
root but the failure node is named by one of them. -/
theorem reachable_retain_counts (hf : h.Fresh) (hrun : Ops false [] h own h') {k : Nat}
    {p : Pool} (hp : h'.pools[k]? = some p) :
    (∀ (i : Nat) (nd : Node), p.nodes[i]? = some nd → nd.slot ≠ p.failure.slot →
      nd.retain = (if p.nodes.parentOf i = none then 0 else 1) +
        own.countP fun r => h'.resolve r = some (k, i)) ∧
    (∀ r ∈ own, h'.isDefined r = true) ∧
    (∀ (i : Nat) (nd : Node), p.nodes[i]? = some nd → p.nodes.parentOf i = none →
      nd.slot ≠ p.failure.slot → ∃ r ∈ own, h'.resolve r = some (k, i)) := by
  obtain ⟨L, hE, hnil⟩ := fresh_runs_exact hf hrun
  rw [hnil rfl, List.append_nil] at hE
  obtain ⟨ts, hK⟩ := hE.kept hp
  -- the units a record other than the failure node holds are those its handles give
  have hretain : ∀ (i : Nat) (nd : Node), p.nodes[i]? = some nd → nd.slot ≠ p.failure.slot →
      nd.retain = (if p.nodes.parentOf i = none then 0 else 1) +
        own.countP fun r => h'.resolve r = some (k, i) := by
    intro i nd hi hs
    rcases hK.holds_at hi with hpn | hret
    · simp [hK.unpinned_at hi hs] at hpn
    · rw [hret, addUnit_of_ne _ hs, hE.units_eq_countP hp hi]
      cases p.nodes.parentOf i <;> simp
  refine ⟨hretain, fun r hr => ?_, fun i nd hi hroot hs => ?_⟩
  · obtain ⟨k', hk', -⟩ := hE.homes r hr
    have := hE.owns hr
    simp only [Heap.owns, hk', Option.bind_some] at this
    split at this
    · cases this
    · rename_i q hq
      simp only [Bool.and_eq_true] at this
      simp [Heap.isDefined, Heap.resolve, hk', hq, this.1]
  · -- a root other than the failure node is owed a unit, which only a handle gives
    have howed := hK.owed_at hi hroot (hK.unpinned_at hi hs)
    rw [addUnit_of_ne _ hs, hE.units_eq_countP hp hi] at howed
    obtain ⟨r, hr, hres⟩ := List.countP_pos_iff.mp howed
    exact ⟨r, hr, by simpa using hres⟩

/-- A pool just built, after a node is created and its handle copied: the node holds the units of
the two handles, which name it. -/
theorem retain_counts_after_copy :
    ∃ p, Pool.new 0 64 {} = .ok p ∧
      let h₁ := after (Call.create 0 1 []).run ⟨#[p]⟩
      let h₂ := after (Call.copy ⟨some 0, ⟨1, 0⟩⟩).run h₁
      let own := (Call.copy ⟨some 0, ⟨1, 0⟩⟩).holds ((Call.create 0 1 []).holds [] ⟨#[p]⟩) h₁
      ∃ q, h₂.pools[0]? = some q ∧
        (∀ (i : Nat) (nd : Node), q.nodes[i]? = some nd → nd.slot ≠ q.failure.slot →
          nd.retain = (if q.nodes.parentOf i = none then 0 else 1) +
            own.countP fun r => h₂.resolve r = some (0, i)) ∧
        (∀ r ∈ own, h₂.isDefined r = true) ∧
        (∀ (i : Nat) (nd : Node), q.nodes[i]? = some nd → q.nodes.parentOf i = none →
          nd.slot ≠ q.failure.slot → ∃ r ∈ own, h₂.resolve r = some (0, i)) := by
  have hp : Pool.new 0 64 {} = .ok _ := rfl
  refine ⟨_, hp, ?_⟩
  intro h₁ h₂ own
  refine ⟨_, rfl, ?_⟩
  exact reachable_retain_counts (k := 0) (fresh_of_new hp)
    (.step (.call (.create 0 1 []) (by decide) fun _ htk => by cases htk)
      (.step (.call (.copy _) trivial fun _ htk => by cases htk) .refl)) (by rfl)

end Heap

end TreeArena
