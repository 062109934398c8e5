import TreeArena.Proofs.Kept
import TreeArena.Edit

/-!
# Accounting over a heap of pools

The handles a client owns give units to the records they name: `Heap.units own k s` counts the
owning handles of pool `k` whose identifier selects slot `s`. A handle owns a unit when it names a
live record of its pool other than the failure node (`Heap.owns`), whose one unit is the pool's
own. A heap is exact for a list of owning handles (`Heap.Exact`) when every pool keeps its
invariant with exactly those units and the failure node's, and every handle owns a unit.

A pool operation run through `Heap.onPool` changes one pool and leaves the others as they were,
so exactness carries over once the changed pool accounts for the handles
(`Exact.onPool`), as long as the handles of the other pools are the same. Owning handles keep
naming live records across an operation that frees only slots owed nothing
(`Accounts.resolve_of_steps`).
-/

namespace TreeArena

namespace SlotTable

theorem Frees.resolve_isSome {P : Nat → Prop} {t t' : SlotTable} (hf : t.Frees P t')
    {id : NodeId} (hP : ¬ P id.slot) (hr : (t.resolve id).isSome) : (t'.resolve id).isSome := by
  rw [resolve_isSome_iff] at hr ⊢
  obtain ⟨h0, hs, hg, hfree⟩ := hr
  obtain ⟨hfree', hg'⟩ := hf.kept hfree hP
  refine ⟨h0, ?_, hg'.trans hg, hfree'⟩
  rw [hf.size_eq]
  exact hs

theorem position_of_resolve {t : SlotTable} {id : NodeId} {i : Nat} (h : t.resolve id = some i) :
    t.position id.slot = some i := by
  unfold resolve at h
  split at h
  · cases h
  · split at h
    · exact h
    · cases h

end SlotTable

namespace Pool

open TreeArena.Tree

variable {p : Pool} {w : Nat → Nat} {ts : List Tree}

/-- A slot the table places heads the subtree at a hole of the forest, at that position. -/
theorem Sound.hole_of_position (hS : p.Sound w ts) {s i : Nat} (hs : p.slots.position s = some i) :
    ∃ (c : Ctx) (nd : Node) (ks : List Tree), c.fill [node nd ks] = ts ∧ nd.slot = s ∧ c.pos = i := by
  obtain ⟨c, nd, ks, rfl, rfl⟩ := hS.exists_hole (s := s) (by simp [SlotTable.isFree, hs])
  refine ⟨c, nd, ks, rfl, rfl, ?_⟩
  have := hS.position_fill
  rw [head_node, hs] at this
  exact (Option.some.inj this).symm

end Pool

namespace Heap

open Pool TreeArena.Tree

/-! ### Units of owning handles -/

/-- Units the handles give slot `s` of pool `k`: one for each handle of that pool whose
identifier selects the slot. -/
def units (own : List Handle) (k s : Nat) : Nat :=
  own.countP fun r => r.home = some k ∧ r.slot = s

/-- The handles of pool `k`. -/
def inPool (own : List Handle) (k : Nat) : List Handle :=
  own.filter fun r => r.home = some k

theorem units_eq_inPool (own : List Handle) (k s : Nat) :
    units own k s = (inPool own k).countP fun r => r.slot = s := by
  unfold units inPool
  rw [List.countP_filter]
  congr 1
  funext r
  rw [Bool.and_comm, Bool.decide_and]

theorem mem_inPool {own : List Handle} {k : Nat} {r : Handle} :
    r ∈ inPool own k ↔ r ∈ own ∧ r.home = some k := by
  simp [inPool]

@[simp] theorem units_nil (k s : Nat) : units [] k s = 0 := rfl

theorem units_cons (r : Handle) (own : List Handle) (k s : Nat) :
    units (r :: own) k s = units own k s + if r.home = some k ∧ r.slot = s then 1 else 0 := by
  simp [units, List.countP_cons]

theorem units_cons_self {r : Handle} {k : Nat} (hr : r.home = some k) (own : List Handle) :
    units (r :: own) k = addUnit (units own k) r.slot := by
  funext s
  rw [units_cons, addUnit]
  by_cases hs : s = r.slot
  · simp [hr, hs]
  · simp [hr, Ne.symm hs, hs]

theorem units_cons_of_ne {r : Handle} {k : Nat} (hr : r.home ≠ some k) (own : List Handle) :
    units (r :: own) k = units own k := by
  funext s
  simp [units_cons, hr]

theorem units_append (own own' : List Handle) (k s : Nat) :
    units (own ++ own') k s = units own k s + units own' k s := by
  simp [units, List.countP_append]

theorem units_congr {own own' : List Handle} {k : Nat} (h : (inPool own' k).Perm (inPool own k)) :
    units own' k = units own k := by
  funext s
  rw [units_eq_inPool, units_eq_inPool]
  exact h.countP_eq _

/-! ### Exact heaps -/

/-- Whether the handle owns a unit: it names a live record of its pool other than the failure
node. -/
def owns (h : Heap) (r : Handle) : Bool :=
  match r.home.bind fun k => h.pools[k]? with
  | none => false
  | some p => (p.slots.resolve r.id).isSome && r.id != p.failure

/-- Pool `k` keeps its invariant with the units the handles give it and the failure node's own
unit, and every handle of the pool names a live record other than the failure node. -/
def Accounts (own : List Handle) (k : Nat) (p : Pool) : Prop :=
  (∃ ts, p.Kept (addUnit (units own k) p.failure.slot) ts) ∧
    ∀ r ∈ own, r.home = some k → (p.slots.resolve r.id).isSome ∧ r.id ≠ p.failure

/-- Every pool accounts for the handles, and every handle belongs to a pool of the heap. -/
structure Exact (h : Heap) (own : List Handle) : Prop where
  pools : ∀ k p, h.pools[k]? = some p → Accounts own k p
  homes : ∀ r ∈ own, ∃ k, r.home = some k ∧ k < h.pools.size

theorem accounts_congr {own own' : List Handle} {k : Nat} {p : Pool}
    (h : (inPool own' k).Perm (inPool own k)) : Accounts own' k p ↔ Accounts own k p := by
  unfold Accounts
  rw [units_congr h]
  have hmem : ∀ r, r.home = some k → (r ∈ own' ↔ r ∈ own) := fun r hr => by
    have := (h.mem_iff : r ∈ inPool own' k ↔ r ∈ inPool own k)
    simpa [mem_inPool, hr] using this
  constructor
  · rintro ⟨hs, hr⟩
    exact ⟨hs, fun r hm hk => hr r ((hmem r hk).mpr hm) hk⟩
  · rintro ⟨hs, hr⟩
    exact ⟨hs, fun r hm hk => hr r ((hmem r hk).mp hm) hk⟩

theorem Exact.owns {h : Heap} {own : List Handle} (hE : h.Exact own) {r : Handle} (hr : r ∈ own) :
    h.owns r = true := by
  obtain ⟨k, hk, hlt⟩ := hE.homes r hr
  obtain ⟨p, hp⟩ : ∃ p, h.pools[k]? = some p := ⟨h.pools[k], by simp [hlt]⟩
  obtain ⟨hres, hne⟩ := (hE.pools k p hp).2 r hr hk
  simp [Heap.owns, hk, hp, hres, hne]

theorem Exact.perm {h : Heap} {own own' : List Handle} (hE : h.Exact own) (hp : own'.Perm own) :
    h.Exact own' := by
  refine ⟨fun k q hq => (accounts_congr ((hp.filter _))).mpr (hE.pools k q hq), fun r hr => ?_⟩
  exact hE.homes r (hp.mem_iff.mp hr)

/-- Handles that name live records in slots owed units keep naming them across steps that free
only slots owed nothing. -/
theorem resolve_of_steps {own : List Handle} {k : Nat} {p p' : Pool}
    (hst : p.Steps (fun s => units own k s = 0) p') {r : Handle} (hr : r ∈ own)
    (hk : r.home = some k) (hres : (p.slots.resolve r.id).isSome) :
    (p'.slots.resolve r.id).isSome := by
  refine hst.frees.resolve_isSome (fun h0 => ?_) hres
  have : 0 < units own k r.slot := List.countP_pos_iff.mpr ⟨r, hr, by simp [hk]⟩
  exact absurd h0 (Nat.pos_iff_ne_zero.mp this)

/-! ### Running a pool operation -/

variable {α : Type}

theorem run_onPool_ok {k : Nat} {m : PoolM α} {h : Heap} {p p' : Pool} {a : α}
    (hk : h.pools[k]? = some p) (hm : m.run p = .ok a p') :
    (onPool k m).run h = .ok a ⟨h.pools.setIfInBounds k p'⟩ := by
  show onPool k m h = _
  unfold onPool
  rw [hk]
  simp only
  rw [hm]
  simp [Array.setIfInBounds_setIfInBounds]

theorem run_onPool_error {k : Nat} {m : PoolM α} {h : Heap} {p p' : Pool} {e : Fault}
    (hk : h.pools[k]? = some p) (hm : m.run p = .error e p') :
    (onPool k m).run h = .error e ⟨h.pools.setIfInBounds k p'⟩ := by
  show onPool k m h = _
  unfold onPool
  rw [hk]
  simp only
  rw [hm]
  simp [Array.setIfInBounds_setIfInBounds]

theorem getElem?_setIfInBounds_pools {h : Heap} {k : Nat} {p p' : Pool}
    (hk : h.pools[k]? = some p) (j : Nat) :
    (h.pools.setIfInBounds k p')[j]? = if k = j then some p' else h.pools[j]? := by
  have hlt : k < h.pools.size := by
    rcases Array.getElem?_eq_some_iff.mp hk with ⟨hlt, -⟩
    exact hlt
  rw [Array.getElem?_setIfInBounds]
  split <;> simp_all

theorem getElem?_setIfInBounds_pools_self {h : Heap} {k : Nat} {p : Pool}
    (hk : h.pools[k]? = some p) (p' : Pool) : (h.pools.setIfInBounds k p')[k]? = some p' :=
  (getElem?_setIfInBounds_pools hk k).trans (if_pos rfl)

theorem setIfInBounds_self {h : Heap} {k : Nat} {p : Pool} (hk : h.pools[k]? = some p) :
    (⟨h.pools.setIfInBounds k p⟩ : Heap) = h := by
  cases h with
  | mk pools =>
    congr 1
    apply Array.ext_getElem?
    intro j
    rw [getElem?_setIfInBounds_pools hk]
    split
    · subst_vars
      exact hk.symm
    · rfl

/-- From `h` to `h'` no pool comes or goes, and each pool's identifier table is related to its
old one by `R`. -/
def Tables (R : SlotTable → SlotTable → Prop) (h h' : Heap) : Prop :=
  h'.pools.size = h.pools.size ∧
    ∀ (k : Nat) (p p' : Pool), h.pools[k]? = some p → h'.pools[k]? = some p' → R p.slots p'.slots

section Tables

variable {R S : SlotTable → SlotTable → Prop} {h h₁ h₂ : Heap}

theorem Tables.refl (hR : ∀ t, R t t) (h : Heap) : Tables R h h := by
  refine ⟨rfl, fun k p p' hp hp' => ?_⟩
  obtain rfl := Option.some.inj (hp.symm.trans hp')
  exact hR _

/-- Two stretches chained relate the tables by any relation their two relations compose into. -/
theorem Tables.comp {T : SlotTable → SlotTable → Prop} (hRS : ∀ a b c, R a b → S b c → T a c)
    (h₁₂ : Tables R h h₁) (h₂₃ : Tables S h₁ h₂) : Tables T h h₂ := by
  refine ⟨h₂₃.1.trans h₁₂.1, fun k p p' hp hp' => ?_⟩
  -- the pool is also in the heap in between, which has as many
  have hk : k < h₁.pools.size := by
    rw [h₁₂.1]
    exact (Array.getElem?_eq_some_iff.mp hp).1
  exact hRS _ _ _ (h₁₂.2 k p _ hp (Array.getElem?_eq_getElem hk))
    (h₂₃.2 k _ p' (Array.getElem?_eq_getElem hk) hp')

theorem Tables.trans (hR : ∀ a b c, R a b → R b c → R a c) (h₁₂ : Tables R h h₁)
    (h₂₃ : Tables R h₁ h₂) : Tables R h h₂ :=
  Tables.comp hR h₁₂ h₂₃

theorem Tables.mono (hRS : ∀ t t', R t t' → S t t') (hT : Tables R h h₁) : Tables S h h₁ :=
  ⟨hT.1, fun k p p' hp hp' => hRS _ _ (hT.2 k p p' hp hp')⟩

theorem tables_set (hR : ∀ t, R t t) {k : Nat} {p p' : Pool} (hk : h.pools[k]? = some p)
    (hp : R p.slots p'.slots) : Tables R h ⟨h.pools.setIfInBounds k p'⟩ := by
  refine ⟨by simp, fun j q q' hq hq' => ?_⟩
  rw [getElem?_setIfInBounds_pools hk] at hq'
  split at hq'
  · subst_vars
    obtain rfl := Option.some.inj (hk.symm.trans hq)
    obtain rfl := Option.some.inj hq'
    exact hp
  · obtain rfl := Option.some.inj (hq.symm.trans hq')
    exact hR _

end Tables

/-- An operation on pool `k` that accounts for the handles there, with the handles of the other
pools unchanged, keeps the heap exact. -/
theorem Exact.onPool {h : Heap} {own own' : List Handle} (hE : h.Exact own) {k : Nat} {p p' : Pool}
    (hk : h.pools[k]? = some p) (hacc : Accounts own' k p')
    (hother : ∀ k', k' ≠ k → (inPool own' k').Perm (inPool own k'))
    (hhomes : ∀ r ∈ own', ∃ k, r.home = some k ∧ k < h.pools.size) :
    Exact ⟨h.pools.setIfInBounds k p'⟩ own' := by
  refine ⟨fun j q hq => ?_, fun r hr => ?_⟩
  · rw [getElem?_setIfInBounds_pools hk] at hq
    split at hq
    · subst_vars
      cases hq
      exact hacc
    · rename_i hne
      exact (accounts_congr (hother j (Ne.symm hne))).mpr (hE.pools j q hq)
  · obtain ⟨j, hj, hlt⟩ := hhomes r hr
    exact ⟨j, hj, by simpa using hlt⟩

end Heap

end TreeArena
