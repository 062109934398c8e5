import TreeArena.Pool.Audit
import TreeArena.Proofs.HandleOps

/-!
# The audit of a kept pool

The audit checks each record against the table, its count and its kind, then the live count, the
extent of each root's subtree, and last that the pinned failure node is the first record. A pool
that keeps its invariant passes all but the last check by construction: its records are the
layout of a forest the table locates, each holds a unit, a failure record has no children, and
each root's block ends where the next root starts. Its audit is empty exactly when the failure
node is first, and otherwise reports that alone (`Kept.findings_eq`).
-/

namespace TreeArena

namespace Pool

open TreeArena.Tree SlotTable

variable {p : Pool} {w : Nat → Nat} {ts : List Tree}

/-- Every record of a kept pool holds a unit: the pinned one its own, any other its parent's edge
or an owner's. -/
theorem Kept.retain_pos (hK : p.Kept w ts) {nd : Node} (hnd : nd ∈ layout ts) : 1 ≤ nd.retain := by
  obtain ⟨c, h, ks, rfl, hs⟩ :=
    hK.sound.exists_hole ((hK.sound.isFree_eq_false_iff _).mpr (List.mem_map_of_mem hnd))
  obtain rfl : h = nd := hK.sound.eq_of_slot_eq (by rw [Ctx.layout_fill]; simp) hnd hs
  cases hp : h.pinned
  · exact Nat.one_le_iff_ne_zero.mpr (hK.retain_ne_zero hp)
  · obtain ⟨b, hP⟩ := proper_of_mem_layout hK.proper hnd
    rw [(hP.pinned_spec hp).2]

/-- A record of a kept pool is where the table says, in range, owned, and childless if it is a
failure record: the audit finds nothing about it. -/
theorem Kept.recordFindings_eq_nil (hK : p.Kept w ts) {i : Nat} {nd : Node}
    (hi : p.nodes.toList[i]? = some nd) : recordFindings p i nd = [] := by
  obtain ⟨hlt, rfl⟩ := List.getElem?_eq_some_iff.mp hi
  have hpos := hK.sound.laid.locates.position_slot i hlt
  have hnd : p.nodes.toList[i] ∈ layout ts := by
    rw [hK.sound.laid.layout_eq]
    exact List.getElem_mem hlt
  have hret := hK.retain_pos hnd
  obtain ⟨b, hP⟩ := proper_of_mem_layout hK.proper hnd
  have hbare : p.nodes.toList[i].kind = failureKind → p.nodes.toList[i].children = 0 :=
    fun hk => (hP.bare hk).2.1
  unfold recordFindings
  simp only [Nat.not_le.mpr (position_lt hpos), if_false, hpos, if_true]
  simp only [Nat.not_lt.mpr hret, if_false, List.nil_append, ite_eq_right_iff, reduceCtorEq,
    imp_false, not_and, not_not]
  exact hbare

/-- Walking the roots of a laid-out forest from any root's start finds every block ending where
the next one starts, within the arena. -/
theorem rootFindings_eq_nil (hK : p.Kept w ts) :
    ∀ (R L : List Tree) (fuel : Nat), p.nodes.toList = layout L ++ layout R → (∀ t ∈ R, t.Wf) →
      R.length < fuel → rootFindings p fuel (layout L).length = []
  | _, _, 0, _, _, hfuel => absurd hfuel (Nat.not_lt_zero _)
  | [], L, fuel + 1, hl, _, _ => by
    have hsize : p.nodes.size = (layout L).length := by
      rw [← Array.length_toList, hl, layout_nil, List.append_nil]
    rw [rootFindings, if_neg (by omega)]
  | T :: R, L, fuel + 1, hl, hwf, hfuel => by
    -- the block of `T` starts here and ends where the roots of `R` start
    have hl' : p.nodes.toList = layout L ++ T.records ++ layout R := by
      rw [hl, layout_cons, List.append_assoc]
    have hend := Arena.subtreeEnd_records hl' (hwf T List.mem_cons_self)
    have hsize : p.nodes.size = (layout L).length + T.size + (layout R).length := by
      rw [← Array.length_toList, hl']
      simp only [List.length_append, Tree.size]
    have hpos := size_pos T
    have hnext : (layout (L ++ [T])).length = (layout L).length + T.size := by
      simp [layout_append, Tree.size]
    rw [rootFindings, if_pos (by omega), hend, if_neg (by omega), ← hnext]
    exact rootFindings_eq_nil hK R (L ++ [T]) fuel (by rw [hl', layout_append, layout_singleton])
      (fun t ht => hwf t (List.mem_cons_of_mem _ ht)) (by simp at hfuel; omega)

theorem Kept.failureInPlace_iff (hK : p.Kept w ts) :
    p.failureInPlace = true ↔ p.slots.resolve p.failure = some 0 := by
  unfold failureInPlace
  constructor
  · intro h
    split at h
    · assumption
    · cases h
  · intro h0
    rw [h0]
    -- the first record is the failure record, pinned and of the failure type
    have hmem := head_mem_layout hK.failure_mem
    have hpos : p.slots.position p.failure.slot = some 0 := by
      have := h0
      unfold SlotTable.resolve at this
      split at this
      · cases this
      · split at this
        · exact this
        · cases this
    obtain ⟨hlt, hslot⟩ := hK.sound.laid.locates.slot_position hpos
    have h0mem : p.nodes.toList[0] ∈ layout ts := by
      rw [hK.sound.laid.layout_eq]
      exact List.getElem_mem hlt
    have heq := hK.sound.eq_of_slot_eq h0mem hmem hslot
    have hget : p.nodes[0]? = some (failureRecord p.failure.slot) := by
      rw [← Array.getElem?_toList, List.getElem?_eq_getElem hlt, heq]
      rfl
    simp [Arena.pinnedAt, Arena.kindAt, hget, failureRecord]

/-- A kept pool's audit finds nothing but, when the failure node is not first, that. -/
theorem Kept.findings_eq (hK : p.Kept w ts) :
    p.findings = if p.slots.resolve p.failure = some 0 then []
      else ["static allocation-failure node missing from offset 0"] := by
  have hrec : (p.nodes.toList.zipIdx.map fun e => recordFindings p e.2 e.1).flatten = [] := by
    refine List.flatten_eq_nil_iff.mpr fun l hl => ?_
    obtain ⟨e, he, rfl⟩ := List.mem_map.mp hl
    exact hK.recordFindings_eq_nil (List.mem_zipIdx_iff_getElem?.mp he)
  have hcount : (p.nodes.size ≠ p.slots.live) = False := by
    rw [← Array.length_toList, hK.sound.laid.locates.live_eq]
    simp
  have hroots : rootFindings p (p.nodes.size + 1) 0 = [] := by
    have hlen : ts.length ≤ p.nodes.size := by
      rw [← Array.length_toList, ← hK.sound.laid.layout_eq]
      exact length_le_layout ts
    exact rootFindings_eq_nil hK ts [] _ (by rw [hK.sound.laid.layout_eq]; rfl) hK.sound.wf
      (by omega)
  unfold findings
  simp only [hrec, hcount, if_false, hroots, List.nil_append, hK.failureInPlace_iff]

theorem Kept.audit_eq (hK : p.Kept w ts) :
    p.audit = if p.slots.resolve p.failure = some 0 then none
      else some "1 error occurred:\n\t* static allocation-failure node missing from offset 0\n\n" := by
  unfold audit
  rw [hK.findings_eq]
  by_cases h0 : p.slots.resolve p.failure = some 0
  · rw [if_pos h0, if_pos h0]
  · rw [if_neg h0, if_neg h0]
    rfl

end Pool

end TreeArena
