import TreeArena.Proofs.Release

/-!
# Degrading to allocation failures

Degrading a record releases its children, turns it into a childless failure record with no
payload, logs a line naming it, and then climbs: the parent record is degraded the same way, and
so on up to a root or to a record that already is a failure (`degradeWithin_spec`).

The records from the degraded one up to the root of its tree are its chain (`Ctx.chain`). When
none of them is a failure record, the failure climbs to the root, which stays in place as a
childless failure record, while each record below it is released by its parent in turn
(`Degrades`): what survives is a subtree that hung off the chain, with its root's count changed
at most, or a record of the chain, now a failure record and a root. Each level only releases edge
units and rewrites one record in place, so the pool stays sound with the same units owed, only
slots owed nothing are freed, and nothing is allocated.
-/

namespace TreeArena

namespace Tree

theorem Frame.head_mem_before {f : Frame} {fs : List Frame} (hf : f ∈ fs) :
    f.head ∈ Frame.before fs := by
  induction fs with
  | nil => cases hf
  | cons g gs ih =>
    rw [Frame.before, List.mem_append]
    rcases List.mem_cons.mp hf with rfl | hf
    · exact .inr (List.mem_cons_self ..)
    · exact .inl (ih hf)

namespace Ctx

/-- The record `h` at the hole and the records above it, innermost first. -/
def chain (c : Ctx) (h : Node) : List Node := h :: c.up.map Frame.head

/-- The outermost record of the chain: the root of the tree that holds the hole. -/
def outermost (c : Ctx) (h : Node) : Node := (c.up.map Frame.head).getLastD h

/-- The subtrees hanging off the chain: the children `ks` of the record at the hole and the
subtrees beside the hole at every level above it. -/
def hanging (c : Ctx) (ks : List Tree) : List Tree :=
  ks ++ c.up.flatMap fun f => f.left ++ f.right

@[simp] theorem chain_appendRight (c : Ctx) (R : List Tree) (h : Node) :
    (c.appendRight R).chain h = c.chain h := rfl

@[simp] theorem outermost_appendRight (c : Ctx) (R : List Tree) (h : Node) :
    (c.appendRight R).outermost h = c.outermost h := rfl

@[simp] theorem hanging_appendRight (c : Ctx) (R ks : List Tree) :
    (c.appendRight R).hanging ks = c.hanging ks := rfl

theorem head_mem_layout_fill {c : Ctx} {f : Frame} (hf : f ∈ c.up) (ts : List Tree) :
    f.head ∈ layout (c.fill ts) := by
  rw [layout_fill, before]
  exact List.mem_append_left _ (List.mem_append_left _ (List.mem_append_right _
    (Frame.head_mem_before hf)))

end Ctx

end Tree

namespace Pool

open TreeArena.Tree SlotTable

variable {p : Pool} {w : Nat → Nat}

/-- `Pool.release` supplies the nesting any subtree's destruction needs. -/
theorem releasesLast_release (n : Nat) : ReleasesLast release n := by
  intro p w ts T _ hS
  rw [← eta T] at hS ⊢
  have hS' : p.Sound (addUnit w T.head.slot) ((Ctx.top ts []).fill [node T.head T.kids]) := by
    simpa [Ctx.top_fill] using hS
  obtain ⟨p', hrun, hrel, hst⟩ := release_spec hS'
  obtain ⟨S, hS'', hown, hrem⟩ := hrel.last hS
  exact ⟨p', S, hrun, hS'', hown, hrem, hst⟩

theorem run_log (lvl : Level) (msg : String) (attrs : List (String × String)) (p : Pool) :
    ∃ j, (log lvl msg attrs).run p = .ok () { p with journal := j } := by
  unfold log note
  rw [run_get_bind]
  split
  · exact ⟨_, rfl⟩
  · exact ⟨p.journal, rfl⟩

theorem run_reindex (lo hi : Nat) (p : Pool) :
    (reindex lo hi).run p = .ok () { p with slots := reindexNodes p.nodes p.slots lo (hi - lo) } :=
  rfl

/-- Rewriting the table entries of records that did not move keeps the pool sound. -/
theorem Sound.reindex {ts : List Tree} (hS : p.Sound w ts) (lo hi : Nat) :
    ({ p with slots := reindexNodes p.nodes p.slots lo (hi - lo) } : Pool).Sound w ts ∧
      p.Steps (fun _ => False) { p with slots := reindexNodes p.nodes p.slots lo (hi - lo) } := by
  have hloc : (reindexNodes p.nodes p.slots lo (hi - lo)).Locates p.nodes.toList :=
    locates_reindex_of_perm hS.laid.locates (List.Perm.refl _) (fun _ _ _ _ => rfl) rfl
  have hrep := repoints_reindexNodes p.nodes p.slots lo (hi - lo)
  refine ⟨⟨⟨hS.laid.layout_eq, hloc⟩, hS.wf, hS.held, ?_, ?_⟩,
    ⟨p.nodes, _, rfl, Frees.of_locates hrep hS.laid.locates hloc (List.Perm.refl _)⟩⟩
  · show (reindexNodes p.nodes p.slots lo (hi - lo)).size ≤ maxSlots
    rw [hrep.size_eq]
    exact hS.cap
  · show (reindexNodes p.nodes p.slots lo (hi - lo)).generations.size =
      (reindexNodes p.nodes p.slots lo (hi - lo)).size
    rw [hrep.size_eq, hrep.generations_eq]
    exact hS.gens

/-! ### Degrading a chain of records -/

/-- A record turned into a failure node in place: failure type, no children, no payload. -/
def failed (nd : Node) : Node := { nd with kind := failureKind, children := 0, payload := [] }

@[simp] theorem failed_slot (nd : Node) : (failed nd).slot = nd.slot := rfl

@[simp] theorem failed_pinned (nd : Node) : (failed nd).pinned = nd.pinned := rfl

/-- The line logged for a record turned into a failure node. -/
def degradedLine (id : NodeId) : Notice :=
  .logged .debug "node degraded to allocation failure" [("node", id.text)]

/-- What degrading the records `as` of `p` adds to its journal: one line for each, in order, if
the pool logs. -/
def degradedLines (p : Pool) (as : List Node) : List Notice :=
  if p.logs then as.map fun a => degradedLine (p.slots.idOf a.slot) else []

/-- What survives degrading a chain of records `as`, with the subtrees `ks` hanging off it: a
subtree of one of those with its root's count changed at most, or a record of the chain below
its outermost one, turned into a failure record and released as a root. -/
def Degraded (as : List Node) (ks : List Tree) (u : Tree) : Prop :=
  (∃ k ∈ ks, ∃ v, Sub v k ∧ Recounted v u) ∨ ∃ a ∈ as, ∃ n, u = node { failed a with retain := n } []

/-- What degrading the record `h` at the hole `c`, whose children are `ks`, leaves when run by
`m`: the outermost record of the chain stays in place as a childless failure record, what
survives below follows the rest of the forest, a line is logged per record of the chain, and
only slots owed nothing are freed. -/
def Degrades (m : PoolM Unit) (p : Pool) (w : Nat → Nat) (c : Ctx) (h : Node) (ks : List Tree) :
    Prop :=
  ∃ p' S, m.run p = .ok () p' ∧
    p'.Sound w (c.left ++ node (failed (c.outermost h)) [] :: (c.right ++ S)) ∧
    (RootsOwed w (c.fill [node h ks]) →
      RootsOwed w (c.left ++ node (failed (c.outermost h)) [] :: (c.right ++ S))) ∧
    (∀ u ∈ S, Degraded (c.chain h).dropLast (c.hanging ks) u) ∧
    p'.journal.toList = p.journal.toList ++ degradedLines p (c.chain h) ∧
    p.Steps (fun s => w s = 0) { p' with journal := p.journal }

theorem Steps.generation_eq {p p' : Pool} (h : p.Steps P p') {s : Nat}
    (hs : p'.slots.isFree s = false) : p'.slots.generation s = p.slots.generation s := by
  rcases h.frees.slot s with ⟨-, hg⟩ | ⟨-, -, hf, -⟩
  · exact hg
  · rw [hs] at hf
    cases hf

theorem degradedLines_congr {p p' : Pool} {as : List Node} (hl : p'.logs = p.logs)
    (hg : ∀ a ∈ as, p'.slots.generation a.slot = p.slots.generation a.slot) :
    degradedLines p' as = degradedLines p as := by
  unfold degradedLines
  rw [hl]
  split
  · refine List.map_congr_left fun a ha => ?_
    simp [SlotTable.idOf, hg a ha]
  · rfl

theorem Steps.rejournal {p p' : Pool} (h : p.Steps P p') (j : Array Notice) :
    ({ p with journal := j } : Pool).Steps P { p' with journal := j } := by
  obtain ⟨a, t, rfl, hf⟩ := h
  exact ⟨a, t, rfl, hf⟩

/-- One level up: what survives degrading the parent's chain, whose hanging subtrees include the
record just turned into a failure, survives degrading the whole chain. -/
theorem Degraded.up {c : Ctx} {f : Frame} {fs : List Frame} (hc : c.up = f :: fs) {h : Node}
    {ks : List Tree} {L R : List Tree} {u : Tree}
    (hu : Degraded ((Ctx.mk fs L R).chain f.head).dropLast
      ((Ctx.mk fs L R).hanging (f.left ++ [node (failed h) []] ++ f.right)) u) :
    Degraded (c.chain h).dropLast (c.hanging ks) u := by
  have hchain : (c.chain h).dropLast = h :: ((Ctx.mk fs L R).chain f.head).dropLast := by
    simp [Ctx.chain, hc, List.dropLast_cons_of_ne_nil]
  rw [hchain]
  rcases hu with ⟨k, hk, v, hv, hr⟩ | ⟨a, ha, n, rfl⟩
  · have hmem : ∀ x, x ∈ f.left ++ f.right ∨ x ∈ fs.flatMap (fun g => g.left ++ g.right) →
        x ∈ c.hanging ks := by
      intro x hx
      simp only [Ctx.hanging, hc, List.flatMap_cons, List.mem_append] at hx ⊢
      tauto
    simp only [Ctx.hanging, List.append_assoc, List.mem_append, List.mem_singleton] at hk
    rcases hk with hk | rfl | hk | hk
    · exact .inl ⟨k, hmem k (.inl (List.mem_append_left _ hk)), v, hv, hr⟩
    · -- the record below, released as a child of the parent
      cases hv with
      | refl =>
        rcases hr with rfl | ⟨-, n, rfl⟩
        · exact .inr ⟨h, List.mem_cons_self .., (failed h).retain, rfl⟩
        · exact .inr ⟨h, List.mem_cons_self .., n, rfl⟩
      | kid hk' _ => cases hk'
    · exact .inl ⟨k, hmem k (.inl (List.mem_append_right _ hk)), v, hv, hr⟩
    · exact .inl ⟨k, hmem k (.inr hk), v, hv, hr⟩
  · exact .inr ⟨a, List.mem_cons_of_mem _ ha, n, rfl⟩

theorem run_log_eq (lvl : Level) (msg : String) (attrs : List (String × String)) (p : Pool) :
    (log lvl msg attrs).run p = .ok ()
      { p with journal := if p.logs then p.journal.push (.logged lvl msg attrs) else p.journal } := by
  unfold log note
  rw [run_get_bind]
  by_cases hl : p.logs = true
  · rw [if_pos hl, if_pos hl]
    rfl
  · rw [if_neg hl, if_neg hl]
    rfl

/-- Once the record `h` at a hole is a childless failure record, the line naming `id` is logged
and the failure climbs to the parent record, if there is one, with `fuel` more levels. -/
theorem climb_spec {fuel : Nat}
    (ih : ∀ {p : Pool} {w : Nat → Nat} {c : Ctx} {h : Node} {ks : List Tree},
      p.Sound w (c.fill [node h ks]) → c.up.length < fuel →
      (∀ a ∈ c.chain h, a.kind ≠ failureKind) → Degrades (degradeWithin h.slot fuel) p w c h ks)
    {c : Ctx} {h : Node} (hS : p.Sound w (c.fill [node (failed h) []])) (hfuel : c.up.length ≤ fuel)
    (hkinds : ∀ a ∈ c.up.map Frame.head, a.kind ≠ failureKind) (id : NodeId) :
    ∃ p' S, (do
        log .debug "node degraded to allocation failure" [("node", id.text)]
        let p ← get
        match p.nodes.parentOf (p.position h.slot) with
        | none => pure ()
        | some q => degradeWithin (p.nodes.slotAt q) fuel).run p = .ok () p' ∧
      p'.Sound w (c.left ++ node (failed (c.outermost h)) [] :: (c.right ++ S)) ∧
      (RootsOwed w (c.fill [node (failed h) []]) →
        RootsOwed w (c.left ++ node (failed (c.outermost h)) [] :: (c.right ++ S))) ∧
      (∀ u ∈ S, ∀ ks, Degraded (c.chain h).dropLast (c.hanging ks) u) ∧
      p'.journal.toList = p.journal.toList ++ (if p.logs then [degradedLine id] else []) ++
        degradedLines p (c.up.map Frame.head) ∧
      p.Steps (fun s => w s = 0) { p' with journal := p.journal } := by
  rw [run_bind_ok (run_log_eq _ _ _ p), run_get_bind]
  set p₄ : Pool := { p with journal :=
    if p.logs then p.journal.push (.logged .debug "node degraded to allocation failure"
      [("node", id.text)]) else p.journal } with hp₄
  have hj₄ : p₄.journal.toList = p.journal.toList ++ (if p.logs then [degradedLine id] else []) := by
    simp only [p₄]
    split <;> simp [degradedLine]
  have hS₄ : p₄.Sound w (c.fill [node (failed h) []]) := hS.of_nodes_slots rfl rfl
  have hpar : p₄.nodes.parentOf (p₄.position h.slot) = c.parent.map Ctx.pos := by
    have hpos : p₄.position (failed h).slot = c.pos := hS₄.laid.position_fill
    rw [failed_slot] at hpos
    rw [hpos]
    exact Arena.parentOf_fill hS₄.laid.layout_eq.symm hS₄.wf
  rw [hpar]
  cases hc : c.up with
  | nil =>
    -- a root: the failure stops here
    have hnone : c.parent = none := by simp [Ctx.parent, hc]
    have hfill : c.fill [node (failed h) []] =
        c.left ++ node (failed (c.outermost h)) [] :: (c.right ++ []) := by
      simp [Ctx.fill, hc, Frame.closeAll, Ctx.outermost]
    rw [hnone]
    refine ⟨p₄, [], rfl, hfill ▸ hS₄, fun h' => hfill ▸ h', by simp, ?_, ?_⟩
    · simp [hj₄, degradedLines]
    · exact Steps.refl _ p
  | cons f fs =>
    -- the parent record is the root of the subtree in the hole one level up
    let c' : Ctx := ⟨fs, c.left, c.right⟩
    have hsome : c.parent = some c' := by simp [Ctx.parent, hc, c']
    have hfill : c.fill [node (failed h) []] =
        c'.fill [node f.head (f.left ++ [node (failed h) []] ++ f.right)] := by
      simp [Ctx.fill, hc, c', Frame.closeAll, Frame.close]
    rw [hfill] at hS₄
    have hslot : p₄.nodes.slotAt c'.pos = f.head.slot := Arena.slotAt_of_toList hS₄.toList_eq
    rw [hsome, Option.map_some]
    dsimp only
    rw [hslot]
    have hkinds' : ∀ a ∈ c'.chain f.head, a.kind ≠ failureKind := by
      intro a ha
      exact hkinds a (by simpa [Ctx.chain, hc, c'] using ha)
    obtain ⟨p', S, hrun, hS', hown, hdeg, hj, hst⟩ :=
      ih hS₄ (by simp only [c']; rw [hc] at hfuel; simp at hfuel; omega) hkinds'
    have hout : c'.outermost f.head = c.outermost h := by
      simp only [Ctx.outermost, hc, c', List.map_cons, List.getLastD_cons]
    refine ⟨p', S, hrun, hout ▸ hS', fun h' => hout ▸ hown (hfill ▸ h'),
      fun u hu ks => Degraded.up hc (hdeg u hu), ?_, ?_⟩
    · rw [hj, hj₄]
      simp [degradedLines, Ctx.chain, c', p₄]
    · have := hst.rejournal p.journal
      exact (Steps.refl _ p).trans this

/-- Degrading the record at a hole, when no record of its chain is a failure record and the
chain fits in `fuel` levels: its children are released, it and every record above it become
childless failure records without payload, each released by its parent in turn, and a line is
logged per record of the chain. -/
theorem degradeWithin_spec : ∀ (fuel : Nat) {p : Pool} {w : Nat → Nat} {c : Ctx} {h : Node}
    {ks : List Tree}, p.Sound w (c.fill [node h ks]) → c.up.length < fuel →
    (∀ a ∈ c.chain h, a.kind ≠ failureKind) → Degrades (degradeWithin h.slot fuel) p w c h ks
  | 0, _, _, _, _, _, _, hfuel, _ => absurd hfuel (Nat.not_lt_zero _)
  | fuel + 1, p, w, c, h, ks, hS, hfuel, hkinds => by
    have hk : h.kind ≠ failureKind := hkinds h (List.mem_cons_self ..)
    have hpos : p.position h.slot = c.pos := hS.laid.position_fill
    have hkind : p.nodes.kindAt c.pos = h.kind := Arena.kindAt_of_toList hS.toList_eq
    have hcount : p.nodes.childrenAt c.pos = ks.length :=
      (Arena.childrenAt_of_toList hS.toList_eq).trans hS.children_eq
    -- the children are released first
    obtain ⟨p₁, S₀, hrun₁, hS₁, hown₁, hrem₁, hst₁⟩ :=
      dropChildren_spec (releasesLast_release (layout ks).length) ks.length hS (Nat.le_refl _)
        fun k hk => size_le_layout hk
    have hpos₁ : p₁.position h.slot = c.pos := hS₁.laid.position_fill
    have hpay : p₁.nodes.payloadAt c.pos = h.payload := by
      have := Arena.payloadAt_of_toList hS₁.toList_eq
      exact this
    have hid : p₁.slots.idOf h.slot = p.slots.idOf h.slot := by
      have hlive : p₁.slots.isFree h.slot = false := by
        rw [Bool.eq_false_iff, ne_eq, hS₁.laid.locates.isFree_iff_not_mem, not_not,
          ← hS₁.laid.layout_eq, Ctx.layout_fill]
        simp
      simp [SlotTable.idOf, hst₁.generation_eq hlive]
    -- what remains to do once the record is a childless failure record: log and climb
    have finish : ∀ p₃ : Pool, p₃.Sound w ((c.appendRight S₀).fill [node (failed h) []]) →
        p₁.Steps (fun _ => False) p₃ →
        ∃ p' S, (do
            log .debug "node degraded to allocation failure" [("node", (p₁.slots.idOf h.slot).text)]
            let p ← get
            match p.nodes.parentOf (p.position h.slot) with
            | none => pure ()
            | some q => degradeWithin (p.nodes.slotAt q) fuel).run p₃ = .ok () p' ∧
          p'.Sound w (c.left ++ node (failed (c.outermost h)) [] :: (c.right ++ S)) ∧
          (RootsOwed w (c.fill [node h ks]) →
            RootsOwed w (c.left ++ node (failed (c.outermost h)) [] :: (c.right ++ S))) ∧
          (∀ u ∈ S, Degraded (c.chain h).dropLast (c.hanging ks) u) ∧
          p'.journal.toList = p.journal.toList ++ degradedLines p (c.chain h) ∧
          p.Steps (fun s => w s = 0) { p' with journal := p.journal } := by
      intro p₃ hS₃ hst₃
      have hst : p.Steps (fun s => w s = 0) p₃ := hst₁.trans (hst₃.mono fun _ h => h.elim)
      obtain ⟨p', S₁, hrun, hS', hown, hdeg, hj, hst'⟩ := climb_spec (degradeWithin_spec fuel) hS₃
        (by simp at hfuel ⊢; omega) (fun a ha => hkinds a (List.mem_cons_of_mem _ ha))
        (p₁.slots.idOf h.slot)
      have hlogs : p₃.logs = p.logs := by obtain ⟨a, t, rfl, -⟩ := hst; rfl
      -- the lines are those of the records of the chain, named as they were at the start
      have hlines : degradedLines p₃ (c.up.map Frame.head) = degradedLines p (c.up.map Frame.head) := by
        refine degradedLines_congr hlogs fun a ha => hst.generation_eq ?_
        obtain ⟨f, hf, rfl⟩ := List.mem_map.mp ha
        rw [Bool.eq_false_iff, ne_eq, hS₃.laid.locates.isFree_iff_not_mem, not_not,
          ← hS₃.laid.layout_eq]
        exact List.mem_map_of_mem (Ctx.head_mem_layout_fill (c := c.appendRight S₀) hf _)
      simp only [Ctx.outermost_appendRight, Ctx.chain_appendRight, Ctx.appendRight_up]
        at hS' hown hdeg hj
      refine ⟨p', S₀ ++ S₁, hrun, by simpa [Ctx.appendRight] using hS', fun h' => ?_, ?_, ?_, ?_⟩
      · have h₃ : RootsOwed w ((c.appendRight S₀).fill [node (failed h) []]) := by
          rw [Ctx.appendRight_fill, rootsOwed_append]
          exact ⟨h'.fill_congr rfl rfl, hown₁⟩
        simpa [Ctx.appendRight] using hown h₃
      · intro u hu
        rcases List.mem_append.mp hu with hu | hu
        · obtain ⟨k, hk, v, hv, hr⟩ := remainsAll_dropUnitAll ks u (hrem₁ ▸ hu)
          exact .inl ⟨k, List.mem_append_left _ hk, v, hv, hr⟩
        · exact hdeg u hu ks
      · rw [hj, hst.journal_eq, hlogs, hlines, hid]
        unfold degradedLines
        split <;> simp [degradedLine, Ctx.chain]
      · rw [hst.journal_eq] at hst'
        exact hst.trans hst'
    unfold Degrades
    rw [degradeWithin, run_get_bind]
    dsimp only
    rw [hpos, hkind, if_neg hk, hcount, run_bind_ok hrun₁, run_get_bind]
    rw [hpos₁, hpay, run_bind_ok (run_modifyAt _ _ _)]
    -- then the record, childless now, becomes a failure record
    have hS₂ := hS₁.modify_fill_same (fun nd => { nd with kind := failureKind }) (fun _ => rfl)
      rfl rfl rfl
    have hst₂ := Steps.nodes (fun _ => False) p₁
      (p₁.nodes.modify c.pos fun nd => { nd with kind := failureKind })
    by_cases hp : h.payload = []
    · rw [if_neg (by simpa using hp)]
      have hfailed : { { h with children := 0 } with kind := failureKind } = failed h := by
        simp [failed, ← hp]
      rw [hfailed] at hS₂
      exact finish _ hS₂ hst₂
    · -- the payload is cut and the table entries after the record are rewritten
      rw [if_pos hp, run_bind_ok (run_modifyAt _ _ _), run_get_bind, run_bind_ok (run_reindex _ _ _)]
      have hS₃ := hS₂.modify_fill_same (fun nd => { nd with payload := [] }) (fun _ => rfl)
        rfl rfl rfl
      obtain ⟨hS₄, hst₄⟩ := hS₃.reindex (c.pos + 1) _
      have hst₃ := Steps.nodes (fun _ => False)
        { p₁ with nodes := p₁.nodes.modify c.pos fun nd => { nd with kind := failureKind } }
        ((p₁.nodes.modify c.pos fun nd => { nd with kind := failureKind }).modify c.pos
          fun nd => { nd with payload := [] })
      exact finish _ hS₄ (hst₂.trans (hst₃.trans hst₄))

/-- `Pool.degrade` turns a record that is not a failure record, and every record above it, into
childless failure records, as `degradeWithin_spec` says, when no record above it is a failure
record: its nesting bound covers every chain. -/
theorem degrade_spec {c : Ctx} {h : Node} {ks : List Tree} (hS : p.Sound w (c.fill [node h ks]))
    (hkinds : ∀ a ∈ c.chain h, a.kind ≠ failureKind) :
    Degrades (degrade h.slot) p w c h ks := by
  have hdepth : c.up.length < p.nodes.size + 1 := by
    have := Arena.length_le_before c.up
    rw [← Array.length_toList, hS.toList_eq]
    simp [Ctx.before]
    omega
  obtain ⟨p', S, hrun, rest⟩ := degradeWithin_spec _ hS hdepth hkinds
  exact ⟨p', S, by rw [degrade, run_get_bind]; exact hrun, rest⟩

end Pool

end TreeArena
