import TreeArena.Proofs.Kept

/-!
# Refused allocations

An allocation that cannot be met is refused as a whole: the pool counts the refusal and logs one
warning when it logs (`Pool.refused`), and the arena, the table, the limit and the failure node
stay as they were, so every identifier resolves as before and the invariant is kept
(`Kept.refused`).

`create`, `cloneAt` and `importTree` check the room they need before they write anything, and
refuse exactly when it is missing (`RefusesWhen`): `create` refuses a payload past the largest,
bytes past the limit or a full table, and a copy or a tree read from bytes refuses bytes past the
limit or fewer free slots than records. Asking for the failure node itself (the failure type, a
copy of a failure node, bytes that hold one) gives the failure node and changes nothing.
`refusals_exact` puts the six statements together over every pool that keeps the invariant.
-/

namespace TreeArena

namespace Pool

open TreeArena.Tree SlotTable

variable {p : Pool} {w : Nat → Nat} {ts : List Tree}

/-- Run from `p`, `m` answers `refusal` exactly when `refuse` holds, and then it has done nothing
but refuse an allocation of `n` bytes. -/
def RefusesWhen {α : Type} (m : PoolM α) (p : Pool) (refusal : α) (refuse : Prop) (n : Nat) :
    Prop :=
  ∃ a p', m.run p = .ok a p' ∧ (a = refusal ↔ refuse) ∧ (refuse → p' = p.refused n)

/-- An operation that refuses when `refuse` holds, and answers something else when it does not,
refuses exactly when `refuse` holds. -/
theorem refusesWhen_of {α : Type} {m : PoolM α} {refusal : α} {refuse : Prop} {n : Nat}
    (hyes : refuse → m.run p = .ok refusal (p.refused n))
    (hno : ¬ refuse → ∃ a p', m.run p = .ok a p' ∧ a ≠ refusal) :
    RefusesWhen m p refusal refuse n := by
  by_cases h : refuse
  · exact ⟨refusal, _, hyes h, iff_of_true rfl h, fun _ => rfl⟩
  · obtain ⟨a, p', hrun, hne⟩ := hno h
    exact ⟨a, p', hrun, iff_of_false hne h, fun h' => absurd h' h⟩

/-- A refusal changes nothing of the usage a caller sees but the count of refusals. -/
theorem stats_refused (p : Pool) (n : Nat) :
    (p.refused n).stats = { p.stats with failures := p.failures + 1 } := rfl

/-- An identifier of a free slot, in any generation, is not the failure node's: its slot is
live. -/
theorem Kept.idOf_ne_failure (hK : p.Kept w ts) (t : SlotTable) {s : Nat}
    (hs : p.slots.isFree s = true) : t.idOf s ≠ p.failure := by
  intro h
  have hslot : s = p.failure.slot := congrArg NodeId.slot h
  rw [hslot, hK.failure_isFree] at hs
  cases hs

/-! ### Creating -/

/-- `create` refuses a payload past the largest, bytes past the limit, or a table with no free
slot. -/
def CreateRefused (p : Pool) (payload : List UInt8) : Prop :=
  payload.length > maxPayload ∨ p.used + headerSize + payload.length > p.limit ∨ p.slots.free = 0

/-- An allocation within the payload bound and the limit claims the first free slot. -/
theorem allocate_fits (kind : Nat) (payload : List UInt8) (hmax : payload.length ≤ maxPayload)
    (hroom : p.used + (headerSize + payload.length) ≤ p.limit) {s : Nat}
    (hs : p.slots.firstFree = some s) : ∃ p', (allocate kind payload).run p = .ok (some s) p' := by
  unfold allocate
  rw [run_get_bind]
  dsimp only
  rw [if_neg (by omega), hs, run_modify_bind]
  split
  · exact ⟨_, rfl⟩
  · exact ⟨_, rfl⟩

/-- `create` of any type but the failure type gives the failure node exactly when it is
refused, and then records only the refusal. -/
theorem Kept.create_refuses (hK : p.Kept w ts) {kind : Nat} (hk : kind ≠ failureKind)
    (payload : List UInt8) :
    RefusesWhen (Pool.create kind payload) p p.failure (p.CreateRefused payload)
      (headerSize + payload.length) := by
  have hloc := hK.sound.laid.locates
  refine refusesWhen_of (fun h => run_create_refused hk ?_) fun h => ?_
  · rcases h with h | h | h
    · exact .inl h
    · exact .inr (.inl (by omega))
    · exact .inr (.inr ((firstFree_eq_none_iff hloc).mpr h))
  · -- not refused: the first free slot is claimed, and its identifier is not the failure node's
    unfold CreateRefused at h
    obtain ⟨s, hff⟩ := Option.ne_none_iff_exists'.mp fun hn =>
      h (.inr (.inr ((firstFree_eq_none_iff hloc).mp hn)))
    obtain ⟨p', hrun⟩ := allocate_fits kind payload (by omega) (by omega) hff
    have hcreate : ∃ p'', (Pool.create kind payload).run p = .ok (p'.slots.idOf s) p'' := by
      unfold Pool.create
      rw [if_neg hk, run_bind_ok hrun]
      exact ⟨_, rfl⟩
    obtain ⟨p'', hcreate⟩ := hcreate
    exact ⟨_, p'', hcreate, hK.idOf_ne_failure p'.slots (firstFree_spec hloc hff).2⟩

/-! ### Copying and reading trees -/

/-- Copying the subtree of a record that is no failure gives the failure node exactly when the
copy needs more bytes than the limit leaves or more slots than are free, and then records only
the refusal. -/
theorem Kept.cloneAt_refuses {c : Ctx} {U : Tree} (hK : p.Kept w (c.fill [U]))
    (hk : U.head.kind ≠ failureKind) :
    RefusesWhen (Pool.cloneAt c.pos) p p.failure
      (p.used + Arena.used U.records.toArray > p.limit ∨ p.slots.free < U.size)
      (Arena.used U.records.toArray) := by
  refine refusesWhen_of (run_cloneAt_refused hK.sound hk) fun h => ?_
  rcases cloneAt_spec hK.sound with ⟨-, -, -, -, -, hno⟩ | ⟨T, p', hrun, -, -, -, ha, -⟩
  · exact absurd (hno hk) h
  · -- the copy's root sits in a slot that was free
    have hfresh := (ha.fresh T.head (by rw [records_eq]; exact .head _)).2.2
    exact ⟨_, p', hrun, hK.idOf_ne_failure _ hfresh⟩

/-- Reading bytes that decode to a tree of no failure node gives the failure node exactly when
the tree needs more bytes than the limit leaves or more slots than are free, and then records
only the refusal. -/
theorem Kept.importTree_refuses (hK : p.Kept w ts) {data : List UInt8} {es : List Entry}
    (hdec : TreeCode.decode data = .ok es) (hk : ∀ e ∈ es, e.kind ≠ failureKind) :
    RefusesWhen (Pool.importTree data) p (.ok (.failure p.failure))
      (p.used + TreeCode.arenaSize es > p.limit ∨ p.slots.free < es.length)
      (TreeCode.arenaSize es) := by
  refine refusesWhen_of (run_importTree_refused hdec hk) fun h => ?_
  obtain ⟨T, p', hrun, -⟩ := importTree_of_fits hK.sound.laid.locates hdec hk (by omega) (by omega)
  exact ⟨_, p', hrun, by simp⟩

/-! ### All together -/

/-- How a pool laying out the forest `ts` answers requests for room: each allocating operation
refuses exactly when the room it needs is missing, and then only counts and logs the refusal;
asking for the failure node itself gives it and changes nothing. -/
structure AllocatesExactly (p : Pool) (ts : List Tree) : Prop where
  create_refuses : ∀ (kind : Nat) (payload : List UInt8), kind ≠ failureKind →
    RefusesWhen (create kind payload) p p.failure (p.CreateRefused payload)
      (headerSize + payload.length)
  clone_refuses : ∀ (c : Ctx) (U : Tree), ts = c.fill [U] → U.head.kind ≠ failureKind →
    RefusesWhen (cloneAt c.pos) p p.failure
      (p.used + Arena.used U.records.toArray > p.limit ∨ p.slots.free < U.size)
      (Arena.used U.records.toArray)
  import_refuses : ∀ (data : List UInt8) (es : List Entry), TreeCode.decode data = .ok es →
    (∀ e ∈ es, e.kind ≠ failureKind) →
    RefusesWhen (importTree data) p (.ok (.failure p.failure))
      (p.used + TreeCode.arenaSize es > p.limit ∨ p.slots.free < es.length)
      (TreeCode.arenaSize es)
  create_failure : ∀ payload : List UInt8, (create failureKind payload).run p = .ok p.failure p
  clone_failure : ∀ (c : Ctx) (U : Tree), ts = c.fill [U] → U.head.kind = failureKind →
    (cloneAt c.pos).run p = .ok p.failure p
  import_failure : ∀ (data : List UInt8) (es : List Entry), TreeCode.decode data = .ok es →
    (∃ e ∈ es, e.kind = failureKind) → (importTree data).run p = .ok (.ok (.failure p.failure)) p

/-- Every pool that keeps the invariant refuses allocations exactly when the room is missing. -/
theorem refusals_exact (hK : p.Kept w ts) : p.AllocatesExactly ts where
  create_refuses _ payload hk := hK.create_refuses hk payload
  clone_refuses c U hts hk := by
    subst hts
    exact hK.cloneAt_refuses hk
  import_refuses _ _ hdec hk := hK.importTree_refuses hdec hk
  create_failure := run_create_failure
  clone_failure c U hts hk := by
    subst hts
    exact run_cloneAt_failure hK.sound hk
  import_failure _ _ hdec hk := run_importTree_failure hdec hk

/-- A pool just built, of sixty-four bytes, keeps the invariant and so refuses allocations exactly
when the room is missing. -/
theorem new_pool_refusals_exact :
    ∃ p, Pool.new 0 64 {} = .ok p ∧
      p.Kept (fun s => if s = p.failure.slot then 1 else 0) [node (failureRecord p.failure.slot) []] ∧
      p.AllocatesExactly [node (failureRecord p.failure.slot) []] := by
  obtain ⟨p, hp⟩ : ∃ p, Pool.new 0 64 {} = .ok p := ⟨_, rfl⟩
  exact ⟨p, hp, Kept.new hp, refusals_exact (Kept.new hp)⟩

end Pool

end TreeArena
