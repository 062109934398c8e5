import TreeArena.Proofs.Degrade

/-!
# Allocating records

A new record is appended to the arena in a free slot that the table claims for it
(`allocate_spec`); `create` gives it the one unit of the handle it returns (`create_spec`). A
refused allocation only counts the refusal and logs it, and changing the limit touches neither
the arena nor the table. A pool just built lays out one pinned record, its failure node
(`new_spec`).

Allocation claims slots where the edits free them, so what an operation keeps of the pool it
started from is `Pool.Follows`: the failure node's identifier and the table's size stay, and a
live slot stays live in its generation unless it was owed nothing.
-/

namespace TreeArena

namespace Pool

open TreeArena.Tree SlotTable

variable {p : Pool} {w : Nat → Nat}

/-! ### What an operation keeps -/

/-- `p'` follows `p`: the failure node and the table's size are the same, and every live slot
that does not satisfy `P` is still live in the same generation. -/
structure Follows (P : Nat → Prop) (p p' : Pool) : Prop where
  failure_eq : p'.failure = p.failure
  size_eq : p'.slots.size = p.slots.size
  kept : ∀ s, p.slots.isFree s = false → ¬ P s →
    p'.slots.isFree s = false ∧ p'.slots.generation s = p.slots.generation s

variable {P Q : Nat → Prop}

theorem Follows.refl (P : Nat → Prop) (p : Pool) : p.Follows P p :=
  ⟨rfl, rfl, fun _ hs _ => ⟨hs, rfl⟩⟩

theorem Follows.trans {p p' p'' : Pool} (h : p.Follows P p') (h' : p'.Follows P p'') :
    p.Follows P p'' := by
  refine ⟨h'.failure_eq.trans h.failure_eq, h'.size_eq.trans h.size_eq, fun s hs hP => ?_⟩
  obtain ⟨hs', hg⟩ := h.kept s hs hP
  obtain ⟨hs'', hg'⟩ := h'.kept s hs' hP
  exact ⟨hs'', hg'.trans hg⟩

theorem Follows.mono {p p' : Pool} (h : p.Follows P p') (hPQ : ∀ s, P s → Q s) :
    p.Follows Q p' :=
  ⟨h.failure_eq, h.size_eq, fun s hs hQ => h.kept s hs fun hP => hQ (hPQ s hP)⟩

theorem Steps.follows {p p' : Pool} (h : p.Steps P p') : p.Follows P p' := by
  obtain ⟨a, t, rfl, hf⟩ := h
  exact ⟨rfl, hf.size_eq, fun s hs hP => hf.kept hs hP⟩

theorem follows_of_slots {p' : Pool} (hs : p'.slots = p.slots) (hf : p'.failure = p.failure) :
    p.Follows P p' :=
  ⟨hf, by rw [hs], fun _ h _ => by rw [hs]; exact ⟨h, rfl⟩⟩

/-- A live slot that is not freed keeps resolving the identifiers it resolved. -/
theorem Follows.resolve_isSome {p' : Pool} (hf : p.Follows P p') {id : NodeId} (hP : ¬ P id.slot)
    (hr : (p.slots.resolve id).isSome) : (p'.slots.resolve id).isSome := by
  rw [resolve_isSome_iff] at hr ⊢
  obtain ⟨h0, hs, hg, hfree⟩ := hr
  obtain ⟨hfree', hg'⟩ := hf.kept _ hfree hP
  exact ⟨h0, hf.size_eq ▸ hs, hg'.trans hg, hfree'⟩

/-! ### Refusing and limiting -/

/-- The warning a refused allocation of `n` bytes logs, with the pool's usage at the time. -/
def refusalNotice (p : Pool) (n : Nat) : Notice :=
  .logged .warn "allocation failed"
    [("requested", toString n), ("used", toString p.used), ("limit", toString p.limit),
     ("live_nodes", toString p.slots.live)]

/-- The pool after refusing an allocation of `n` bytes: one more refusal counted, and its warning
in the journal when the pool logs. Nothing else changes. -/
def refused (p : Pool) (n : Nat) : Pool :=
  { p with failures := p.failures + 1,
           journal := if p.logs then p.journal.push (p.refusalNotice n) else p.journal }

theorem run_exhausted (n : Nat) (p : Pool) : (exhausted n).run p = .ok () (p.refused n) := by
  unfold exhausted
  rw [run_modify_bind, run_get_bind, run_log_eq]
  rfl

theorem run_setLimit (n : Int) (p : Pool) : (setLimit n).run p = .ok () (p.withLimit n) := rfl

/-! ### Allocating -/

/-- The record `allocate` appends: childless, unpinned and owed nothing yet. -/
def fresh (s kind : Nat) (payload : List UInt8) : Node := ⟨s, kind, false, 0, 0, payload⟩

@[simp] theorem fresh_slot (s kind : Nat) (payload : List UInt8) : (fresh s kind payload).slot = s :=
  rfl

/-- An allocation is refused, and nothing but the refusal recorded, when the payload is past the
largest, the bytes up to the limit do not suffice, or no slot is free. -/
theorem run_allocate_refused {kind : Nat} {payload : List UInt8}
    (h : payload.length > maxPayload ∨ p.used + (headerSize + payload.length) > p.limit ∨
      p.slots.firstFree = none) :
    (allocate kind payload).run p = .ok none (p.refused (headerSize + payload.length)) := by
  unfold allocate
  rw [run_get_bind]
  dsimp only
  split
  · rw [run_bind_ok (run_exhausted _ _)]
    rfl
  · rename_i hfit
    have hnone : p.slots.firstFree = none :=
      (h.resolve_left fun h' => hfit (.inl h')).resolve_left fun h' => hfit (.inr h')
    rw [hnone, run_bind_ok (run_exhausted _ _)]
    rfl

/-- Allocating either is refused, which changes neither the arena nor the table, or claims a free
slot for a childless record appended to the arena. -/
theorem allocate_spec (kind : Nat) (payload : List UInt8) {l : List Node}
    (hl : p.slots.Locates l) :
    (∃ p', (allocate kind payload).run p = .ok none p' ∧ p'.nodes = p.nodes ∧
      p'.slots = p.slots ∧ p'.failure = p.failure) ∨
    ∃ s j, p.slots.isFree s = true ∧ s < p.slots.size ∧ payload.length ≤ maxPayload ∧
      (allocate kind payload).run p = .ok (some s)
        { p with nodes := p.nodes.push (fresh s kind payload),
                 slots := (p.slots.claim s).set s p.nodes.size, journal := j } := by
  by_cases hno : payload.length > maxPayload ∨ p.used + (headerSize + payload.length) > p.limit ∨
      p.slots.firstFree = none
  · exact .inl ⟨_, run_allocate_refused hno, rfl, rfl, rfl⟩
  obtain ⟨s, hfree⟩ := Option.ne_none_iff_exists'.mp fun h => hno (.inr (.inr h))
  obtain ⟨hs, hfs⟩ := firstFree_spec hl hfree
  have hfit : ¬(payload.length > maxPayload ∨ p.used + (headerSize + payload.length) > p.limit) :=
    fun h => hno (h.elim .inl (.inr ∘ .inl))
  have hmax : payload.length ≤ maxPayload := by omega
  right
  unfold allocate
  rw [run_get_bind]
  dsimp only
  rw [if_neg hfit, hfree, run_modify_bind]
  split
  · exact ⟨s, _, hfs, hs, hmax, rfl⟩
  · exact ⟨s, _, hfs, hs, hmax, rfl⟩

theorem follows_claim {p' : Pool} {s i : Nat} (hfs : p.slots.isFree s = true)
    (hsl : p'.slots = (p.slots.claim s).set s i) (hf : p'.failure = p.failure) :
    p.Follows P p' := by
  refine ⟨hf, by rw [hsl, size_set, size_claim], fun s' hs' _ => ⟨?_, by rw [hsl]; rfl⟩⟩
  have hne : s ≠ s' := fun h => by rw [h, hs'] at hfs; cases hfs
  rw [hsl, isFree, position_claim_set, if_neg fun h => hne h.1]
  exact hs'

/-- `create` of any type but the failure type gives the failure node, with nothing but the
refusal recorded, when its allocation is refused. -/
theorem run_create_refused {kind : Nat} {payload : List UInt8} (hk : kind ≠ failureKind)
    (h : payload.length > maxPayload ∨ p.used + (headerSize + payload.length) > p.limit ∨
      p.slots.firstFree = none) :
    (create kind payload).run p = .ok p.failure (p.refused (headerSize + payload.length)) := by
  unfold create
  rw [if_neg hk, run_bind_ok (run_allocate_refused h)]
  rfl

theorem run_create_failure (payload : List UInt8) :
    (create failureKind payload).run p = .ok p.failure p := by
  unfold create
  rw [if_pos rfl]
  rfl

/-- The record `create` makes: childless, unpinned and owed the one unit of its handle. -/
def made (s kind : Nat) (payload : List UInt8) : Node := ⟨s, kind, false, 0, 1, payload⟩

/-- Creating a record either gives the failure node, changing neither the arena nor the table,
or appends a childless root in a slot that was free, owed the one unit of the identifier
returned; nothing is freed. -/
theorem create_spec {ts : List Tree} (hS : p.Sound w ts)
    (hw : ∀ s, p.slots.isFree s = true → w s = 0) (kind : Nat) (payload : List UInt8) :
    (∃ p', (create kind payload).run p = .ok p.failure p' ∧ p'.nodes = p.nodes ∧
      p'.slots = p.slots ∧ p'.failure = p.failure) ∨
    ∃ s p', (create kind payload).run p = .ok (p.slots.idOf s) p' ∧ p.slots.isFree s = true ∧
      kind ≠ failureKind ∧ payload.length ≤ maxPayload ∧
      p'.Sound (addUnit w s) (ts ++ [node (made s kind payload) []]) ∧
      (RootsOwed w ts → RootsOwed (addUnit w s) (ts ++ [node (made s kind payload) []])) ∧
      p.Follows (fun _ => False) p' ∧ p'.slots.idOf s = p.slots.idOf s := by
  unfold create
  by_cases hk : kind = failureKind
  · exact .inl ⟨p, by rw [if_pos hk]; rfl, rfl, rfl, rfl⟩
  rw [if_neg hk]
  rcases allocate_spec kind payload hS.laid.locates with ⟨p', hrun, hn, hsl, hf⟩ |
    ⟨s, j, hfs, hs, hmax, hrun⟩
  · refine .inl ⟨p', ?_, hn, hsl, hf⟩
    rw [run_bind_ok hrun, ← hf]
    rfl
  right
  -- the new record sits at the end of the arena, as the last root
  have hl₁ : ({ p with nodes := p.nodes.push (fresh s kind payload),
                       slots := (p.slots.claim s).set s p.nodes.size, journal := j } : Pool).Laid
      ((Ctx.top ts []).fill [node (fresh s kind payload) []]) := by
    have := hS.laid.push hfs hs (show (fresh s kind payload).slot = s from rfl)
    rw [Ctx.top_fill, List.append_nil]
    exact ⟨this.layout_eq, this.locates⟩
  have hl₁' := hl₁
  have hpos := hl₁'.position_fill
  rw [head_node, Ctx.top_pos, fresh_slot] at hpos
  have hl₂ := hl₁'.modify_fill (fun nd => { nd with retain := 1 }) fun _ => rfl
  rw [Ctx.top_fill, Ctx.top_pos, List.append_nil] at hl₂
  have hl₃ : Pool.Laid _ (ts ++ [node (made s kind payload) []]) := hl₂
  have hnot : ∀ nd ∈ layout ts, nd.slot ≠ s := by
    intro nd hnd heq
    have := (hS.laid.locates.isFree_iff_not_mem s).mp hfs
    rw [← hS.laid.layout_eq] at this
    exact this (List.mem_map.mpr ⟨nd, hnd, heq⟩)
  refine ⟨s, _, ?_, hfs, hk, hmax, ⟨hl₃, fun t ht => ?_, fun t ht => ?_, ?_, ?_⟩, fun hown => ?_, ?_, rfl⟩
  · rw [run_bind_ok hrun, run_get_bind]
    dsimp only
    rw [hpos, run_bind_ok (run_setRetain _ _ _)]
    rfl
  · rcases List.mem_append.mp ht with ht | ht
    · exact hS.wf t ht
    · rw [List.mem_singleton] at ht
      subst ht
      exact wf_node_iff.mpr ⟨rfl, by simp⟩
  · rcases List.mem_append.mp ht with ht | ht
    · exact (hS.held t ht).congr fun nd hnd =>
        addUnit_of_ne w (hnot nd (mem_layout_of_mem ht hnd))
    · rw [List.mem_singleton] at ht
      subst ht
      refine held_node_iff.mpr ⟨.inr ?_, by simp⟩
      simp [made, hw s hfs]
  · show ((p.slots.claim s).set s p.nodes.size).size ≤ maxSlots
    rw [size_set, size_claim]
    exact hS.cap
  · show ((p.slots.claim s).set s p.nodes.size).generations.size =
      ((p.slots.claim s).set s p.nodes.size).size
    rw [size_set, size_claim]
    exact hS.gens
  · refine rootsOwed_append.mpr ⟨fun t ht hp => ?_, by simp [made]⟩
    exact Nat.lt_of_lt_of_le (hown t ht hp) (by unfold addUnit; split <;> omega)
  · exact follows_claim hfs rfl rfl

/-- What `create` can do to a pool: hand out the failure node, leaving arena and table as they
were, or claim a free slot for a record pushed at the end, leaving all else but the journal. -/
theorem create_cases {l : List Node} (hl : p.slots.Locates l) {kind : Nat}
    {payload : List UInt8} {a : NodeId} {p' : Pool} (hrun : (create kind payload).run p = .ok a p') :
    (a = p.failure ∧ p'.nodes = p.nodes ∧ p'.slots = p.slots ∧ p'.failure = p.failure) ∨
    ∃ s, ∃ nodes : Arena, ∃ j, p.slots.isFree s = true ∧ a = p.slots.idOf s ∧
      p' = { p with nodes := nodes, slots := (p.slots.claim s).set s p.nodes.size, journal := j } := by
  by_cases hk : kind = failureKind
  · subst hk
    rw [run_create_failure] at hrun
    simp only [EStateM.Result.ok.injEq] at hrun
    obtain ⟨rfl, rfl⟩ := hrun
    exact .inl ⟨rfl, rfl, rfl, rfl⟩
  unfold create at hrun
  rw [if_neg hk] at hrun
  rcases allocate_spec kind payload hl with ⟨q, hq, hn, hs, hf⟩ | ⟨s, j, hfs, -, -, hq⟩
  · rw [run_bind_ok hq, run_get_bind] at hrun
    simp only [EStateM.run, pure, EStateM.pure, EStateM.Result.ok.injEq] at hrun
    obtain ⟨rfl, rfl⟩ := hrun
    exact .inl ⟨hf, hn, hs, hf⟩
  · rw [run_bind_ok hq, run_get_bind] at hrun
    dsimp only at hrun
    rw [run_bind_ok (run_setRetain _ _ _)] at hrun
    simp only [EStateM.run, pure, EStateM.pure, EStateM.Result.ok.injEq] at hrun
    obtain ⟨rfl, rfl⟩ := hrun
    exact .inr ⟨s, _, j, hfs, rfl, rfl⟩

/-! ### Building a pool -/

/-- The record a pool is built with in slot `s`: its failure node, pinned, holding one unit, with
no children and no payload. -/
def failureRecord (s : Nat) : Node := ⟨s, failureKind, true, 0, 1, []⟩

/-- Placing the failure node in a pool without records appends its record in a slot that was
free, whose identifier is returned and resolves to the first position. -/
theorem placeFailure_spec {p p' : Pool} {id : NodeId} (h0 : p.nodes = #[])
    (hloc : p.slots.Locates []) (hsize : p.slots.size ≤ maxSlots)
    (hgens : p.slots.generations.size = p.slots.size)
    (hrun : placeFailure.run p = .ok (some id) p') :
    p'.Sound w [node (failureRecord id.slot) []] ∧ p'.slots.resolve id = some 0 ∧
      p'.slots.generation id.slot = p.slots.generation id.slot := by
  have hloc' : p.slots.Locates p.nodes.toList := by rw [h0]; exact hloc
  unfold placeFailure at hrun
  rcases allocate_spec failureKind [] hloc' with ⟨q, hq, -⟩ | ⟨s, j, hfs, hs, -, hq⟩
  · -- a refused allocation places nothing
    rw [run_bind_ok hq] at hrun
    cases hrun
  rw [run_bind_ok hq, run_get_bind] at hrun
  have hpos : ({ p with nodes := p.nodes.push (fresh s failureKind []),
                        slots := (p.slots.claim s).set s p.nodes.size,
                        journal := j } : Pool).position s = 0 := by
    simp [position, position_claim_set, hs, h0]
  dsimp only at hrun
  rw [hpos, run_bind_ok (run_modifyAt _ _ _), run_get_bind] at hrun
  cases hrun
  -- the record is the only root, at the first position
  have hl₀ : p.Laid [] := ⟨by rw [h0]; rfl, hloc'⟩
  have hl₁ := hl₀.push hfs hs (show (fresh s failureKind []).slot = s from rfl)
  have hl₁' : ({ p with nodes := p.nodes.push (fresh s failureKind []),
                        slots := (p.slots.claim s).set s p.nodes.size } : Pool).Laid
      ((Ctx.top [] []).fill [node (fresh s failureKind []) []]) := by
    simpa [Ctx.top_fill] using hl₁
  have hl₂ := hl₁'.modify_fill (fun nd => { nd with pinned := true, retain := 1 }) fun _ => rfl
  rw [Ctx.top_fill, Ctx.top_pos] at hl₂
  have hgen : ((p.slots.claim s).set s p.nodes.size).generation s = p.slots.generation s := rfl
  refine ⟨⟨⟨hl₂.layout_eq, hl₂.locates⟩, ?_, ?_, ?_, ?_⟩, ?_, hgen⟩
  · intro t ht
    rw [List.mem_singleton] at ht
    subst ht
    exact wf_node_iff.mpr ⟨rfl, by simp⟩
  · intro t ht
    rw [List.mem_singleton] at ht
    subst ht
    exact held_node_iff.mpr ⟨.inl rfl, by simp⟩
  · show ((p.slots.claim s).set s p.nodes.size).size ≤ maxSlots
    rw [size_set, size_claim]
    exact hsize
  · show ((p.slots.claim s).set s p.nodes.size).generations.size =
      ((p.slots.claim s).set s p.nodes.size).size
    rw [size_set, size_claim]
    exact hgens
  · -- the identifier names the live slot in its current generation, and the last slot is none's
    have hne : s ≠ 65535 := by
      unfold maxSlots at hsize
      omega
    simp [SlotTable.resolve, SlotTable.idOf, NodeId.none, hne, hs, position_claim_set, h0]

/-- A pool just built lays out its failure node alone, and the failure node's identifier
resolves to the first position. -/
theorem new_spec {tag : Nat} {cap : Int} {opts : PoolOptions} {p : Pool}
    (h : new tag cap opts = .ok p) :
    p.Sound w [node (failureRecord p.failure.slot) []] ∧ p.slots.resolve p.failure = some 0 := by
  unfold new at h
  simp only [bind, Except.bind, pure, Except.pure] at h
  split at h
  · cases h
  split at h
  · cases h
  split at h
  · cases h
  rename_i hn
  split at h
  · rename_i id q hq
    cases h
    have hb : (blank tag cap.toNat
        (opts.maxNodes.getD ↑(min (cap.toNat / headerSize) maxSlots)).toNat opts).slots.size ≤
        maxSlots := by
      simp only [blank, size_empty]
      omega
    obtain ⟨hS, hres, -⟩ := placeFailure_spec rfl (Locates.empty _) hb
      (by simp [blank, SlotTable.empty, SlotTable.size]) hq
    exact ⟨hS.of_nodes_slots rfl rfl, hres⟩
  · cases h

end Pool

end TreeArena
