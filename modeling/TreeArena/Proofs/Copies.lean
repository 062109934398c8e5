import TreeArena.Proofs.Alloc
import TreeArena.Proofs.Codec

/-!
# Copying subtrees

A copy, made within a pool (`cloneAt`) or read from the portable encoding (`importTree`),
appends its records to the arena, each in a slot that was free, unpinned and owed one unit
(`Pool.Appends`). The records lay out a new root whose subtree has the shape, types and payloads
of the original, and no record or slot in use before changes (`Appends.sound`).

Reading accepts only entries in range whose counts close the one subtree it starts with
(`TreeCode.decode_sound`), and such entries are the layout of one well-formed subtree
(`Tree.exists_forest_of_closes`): whatever bytes `importTree` is given, what it appends is a
subtree.
-/

namespace TreeArena

namespace TreeCode

theorem readEntry_bounded {k : Nat} {data rest : List UInt8} {e : Entry}
    (h : readEntry k data = .ok (e, rest)) : e.Bounded := by
  unfold readEntry at h
  split at h
  · cases h
  · split at h
    · cases h
    · split at h
      · cases h
      · split at h
        · cases h
        · split at h
          · cases h
          · rename_i t _ _ c _ _ hc _ n r _ hn
            cases h
            refine ⟨UInt8.toNat_lt t, show c ≤ maxCount by omega, ?_⟩
            simp only [List.length_take]
            omega

/-- What reading returns is the nodes read before, then entries in range that close the pending
subtrees. -/
theorem readNodes_sound : ∀ {fuel p : Nat} {acc es : List Entry} {data : List UInt8},
    readNodes fuel p acc data = .ok es →
      ∃ new, es = acc.reverse ++ new ∧ Closes p new ∧ ∀ e ∈ new, e.Bounded
  | _, 0, acc, es, data, h => by
    rw [readNodes] at h
    split at h
    · cases h
      exact ⟨[], by simp, rfl, by simp⟩
    · cases h
  | 0, _ + 1, _, _, _, h => by
    rw [readNodes] at h
    cases h
  | fuel + 1, p + 1, acc, es, data, h => by
    rw [readNodes] at h
    split at h
    · cases h
    · rename_i e rest he
      obtain ⟨new, rfl, hc, hb⟩ := readNodes_sound h
      refine ⟨e :: new, by simp, hc, ?_⟩
      rintro e' (_ | ⟨_, he'⟩)
      · exact readEntry_bounded he
      · exact hb e' he'

theorem decode_sound {data : List UInt8} {es : List Entry} (h : decode data = .ok es) :
    Closes 1 es ∧ ∀ e ∈ es, e.Bounded := by
  obtain ⟨new, rfl, hc, hb⟩ := readNodes_sound h
  exact ⟨hc, hb⟩

end TreeCode

namespace Tree

open TreeCode

/-- Records whose entries close `n` pending subtrees are the layout of `n` well-formed subtrees:
each record takes as children the first subtrees the records after it lay out. -/
theorem exists_forest_of_closes : ∀ {n : Nat} (l : List Node), Closes n (l.map Node.entry) →
    ∃ ts : List Tree, ts.length = n ∧ (∀ t ∈ ts, t.Wf) ∧ layout ts = l
  | 0, [], _ => ⟨[], rfl, by simp, rfl⟩
  | 0, _ :: _, h => by cases h
  | _ + 1, [], h => h.elim
  | p + 1, nd :: l, h => by
    obtain ⟨ts, hlen, hwf, hl⟩ := exists_forest_of_closes l h
    have hle : nd.children ≤ ts.length := by
      change _ = p + nd.children at hlen
      omega
    refine ⟨node nd (ts.take nd.children) :: ts.drop nd.children, ?_, ?_, ?_⟩
    · change _ = p + nd.children at hlen
      simp only [List.length_cons, List.length_drop]
      omega
    · intro t ht
      rcases List.mem_cons.mp ht with rfl | ht
      · refine wf_node_iff.mpr ⟨?_, fun u hu => hwf u (List.mem_of_mem_take hu)⟩
        rw [List.length_take]
        omega
      · exact hwf t (List.mem_of_mem_drop ht)
    · rw [layout_cons, records_node, List.cons_append, ← layout_append, List.take_append_drop, hl]

/-- Records with the entries of a well-formed subtree's records are the records of a well-formed
subtree. -/
theorem exists_tree_of_entries {t : Tree} (ht : t.Wf) {l : List Node}
    (hl : l.map Node.entry = t.records.map Node.entry) : ∃ t' : Tree, t'.Wf ∧ t'.records = l := by
  have hc : Closes 1 (l.map Node.entry) := by
    have := closes_records ht 0 []
    rw [List.append_nil] at this
    rw [hl, this]
    rfl
  obtain ⟨ts, hlen, hwf, hlay⟩ := exists_forest_of_closes l hc
  obtain ⟨t', rfl⟩ := List.length_eq_one_iff.mp hlen
  exact ⟨t', hwf t' (.head _), by simpa using hlay⟩

end Tree

namespace SlotTable

theorem Locates.free_eq {t : SlotTable} {l : List Node} (h : t.Locates l) :
    t.free = t.size - l.length := by
  rw [free, h.live_eq]

end SlotTable

namespace Pool

open TreeArena.Tree SlotTable

variable {p p₁ p' : Pool} {w : Nat → Nat} {recs recs' : List Node}

/-! ### Appending records -/

/-- `p'` is `p` with `recs` appended to the arena, each in a slot that was free, unpinned and
owed one unit; the table locates every record, the slots in use before keep their positions and
every slot keeps its generation. Only the journal may change besides. -/
structure Appends (p : Pool) (recs : List Node) (p' : Pool) : Prop where
  frame : ∃ a t j, p' = { p with nodes := a, slots := t, journal := j }
  nodes_eq : p'.nodes.toList = p.nodes.toList ++ recs
  fresh : ∀ nd ∈ recs, nd.pinned = false ∧ nd.retain = 1 ∧ p.slots.isFree nd.slot = true
  locates : p'.slots.Locates p'.nodes.toList
  size_eq : p'.slots.size = p.slots.size
  generations_eq : p'.slots.generations = p.slots.generations
  kept : ∀ s, p.slots.isFree s = false → p'.slots.position s = p.slots.position s

theorem appends_nil (hloc : p.slots.Locates p.nodes.toList) : p.Appends [] p :=
  ⟨⟨p.nodes, p.slots, p.journal, rfl⟩, by simp, by simp, hloc, rfl, rfl, fun _ _ => rfl⟩

theorem appends_push (hloc : p.slots.Locates p.nodes.toList) {s : Nat}
    (hfree : p.slots.isFree s = true) (hs : s < p.slots.size) {nd : Node} (hnd : nd.slot = s)
    (hp : nd.pinned = false) (hr : nd.retain = 1) :
    p.Appends [nd] { p with nodes := p.nodes.push nd, slots := (p.slots.claim s).set s p.nodes.size } := by
  refine ⟨⟨_, _, p.journal, rfl⟩, by simp, by simp [hp, hr, hnd, hfree], ?_, by simp, rfl,
    fun s' hs' => ?_⟩
  · simp only [Array.toList_push]
    rw [← Array.length_toList]
    exact hloc.push hfree hs hnd
  · have hne : s ≠ s' := fun h => by rw [h, hs'] at hfree; cases hfree
    simp [position_claim_set, hne]

theorem Appends.rejournal (h : p.Appends recs p') (j : Array Notice) :
    p.Appends recs { p' with journal := j } := by
  obtain ⟨a, t, j', rfl⟩ := h.frame
  exact ⟨⟨a, t, j, rfl⟩, h.nodes_eq, h.fresh, h.locates, h.size_eq, h.generations_eq, h.kept⟩

theorem Appends.free_before {s : Nat} (h : p.Appends recs p') (hs : p'.slots.isFree s = true) :
    p.slots.isFree s = true := by
  by_contra hne
  have hkept := h.kept s (by simpa using hne)
  rw [SlotTable.isFree, hkept] at hs
  exact hne hs

theorem Appends.trans (h : p.Appends recs p₁) (h' : p₁.Appends recs' p') :
    p.Appends (recs ++ recs') p' := by
  obtain ⟨a, t, j, rfl⟩ := h.frame
  obtain ⟨a', t', j', rfl⟩ := h'.frame
  refine ⟨⟨a', t', j', rfl⟩, ?_, fun nd hnd => ?_, h'.locates, h'.size_eq.trans h.size_eq,
    h'.generations_eq.trans h.generations_eq, fun s hs => ?_⟩
  · rw [h'.nodes_eq, h.nodes_eq, List.append_assoc]
  · rcases List.mem_append.mp hnd with hnd | hnd
    · exact h.fresh nd hnd
    · obtain ⟨hp, hr, hf⟩ := h'.fresh nd hnd
      exact ⟨hp, hr, h.free_before hf⟩
  · have h₁ := h.kept s hs
    refine (h'.kept s ?_).trans h₁
    rw [SlotTable.isFree, h₁]
    exact hs

theorem Appends.follows (h : p.Appends recs p') (P : Nat → Prop) : p.Follows P p' := by
  obtain ⟨a, t, j, rfl⟩ := h.frame
  refine ⟨rfl, h.size_eq, fun s hs _ => ⟨?_, ?_⟩⟩
  · rw [SlotTable.isFree, h.kept s hs]
    exact hs
  · show t.generation s = p.slots.generation s
    unfold generation
    rw [show t.generations = p.slots.generations from h.generations_eq]

/-- Appending the records of a well-formed subtree to a sound pool adds that subtree as the last
root, owed the one unit of the handle on it; the slots were free, so they owed nothing. -/
theorem Appends.sound {ts : List Tree} (hS : p.Sound w ts)
    (hw : ∀ s, p.slots.isFree s = true → w s = 0) (h : p.Appends recs p') {T : Tree}
    (hT : T.Wf) (hrec : T.records = recs) :
    p'.Sound (addUnit w T.head.slot) (ts ++ [T]) ∧
      (RootsOwed w ts → RootsOwed (addUnit w T.head.slot) (ts ++ [T])) := by
  have hlay : layout (ts ++ [T]) = p'.nodes.toList := by
    rw [h.nodes_eq, layout_append, layout_singleton, hS.laid.layout_eq, hrec]
  -- the new slots are distinct from each other and from every slot in use before
  have hnodup := h.locates.nodup
  rw [← hlay, layout_append, layout_singleton, hrec] at hnodup
  have hold : ∀ nd ∈ layout ts, nd.slot ≠ T.head.slot := fun nd hnd =>
    slot_ne_of_nodup_append hnodup hnd (by rw [← hrec, records_eq]; exact .head _)
  have hroot : ∀ nd ∈ layout T.kids, nd.slot ≠ T.head.slot := by
    intro nd hnd heq
    have hn : ((T.head :: layout T.kids).map Node.slot).Nodup := by
      rw [← records_eq, hrec]
      rw [List.map_append] at hnodup
      exact (List.nodup_append.mp hnodup).2.1
    exact (List.nodup_cons.mp hn).1 (List.mem_map.mpr ⟨nd, hnd, heq⟩)
  have hnew : ∀ nd ∈ T.records, nd.pinned = false ∧ nd.retain = 1 ∧ w nd.slot = 0 := by
    intro nd hnd
    obtain ⟨hp, hr, hf⟩ := h.fresh nd (hrec ▸ hnd)
    exact ⟨hp, hr, hw _ hf⟩
  have hheld : T.Held (addUnit w T.head.slot) true := by
    rw [← eta T, held_iff_every, every_node_iff]
    obtain ⟨_, hr, hw0⟩ := hnew T.head (by rw [records_eq]; exact .head _)
    refine ⟨.inr (by simp [hr, hw0]), fun k hk => every_false_of_records k fun nd hnd => ?_⟩
    have hmem : nd ∈ layout T.kids := mem_layout_of_mem hk hnd
    obtain ⟨_, hr, hw0⟩ := hnew nd (by rw [records_eq]; exact .tail _ hmem)
    exact .inr (by simp [hr, addUnit_of_ne w (hroot nd hmem), hw0])
  refine ⟨⟨⟨hlay, h.locates⟩, fun t ht => ?_, fun t ht => ?_, h.size_eq ▸ hS.cap, ?_⟩,
    fun hown => rootsOwed_append.mpr ⟨fun t ht hp => ?_, fun t ht hp => ?_⟩⟩
  · rcases List.mem_append.mp ht with ht | ht
    · exact hS.wf t ht
    · rw [List.mem_singleton.mp ht]
      exact hT
  · rcases List.mem_append.mp ht with ht | ht
    · exact (hS.held t ht).congr fun nd hnd => addUnit_of_ne w (hold nd (mem_layout_of_mem ht hnd))
    · rw [List.mem_singleton.mp ht]
      exact hheld
  · rw [h.generations_eq, h.size_eq]
    exact hS.gens
  · have := hown t ht hp
    unfold addUnit
    split <;> omega
  · rw [List.mem_singleton.mp ht, addUnit_self]
    omega

/-! ### Reading entries into a pool -/

theorem entry_record (e : Entry) (s : Nat) : (Node.mk s e.kind false e.children 1 e.payload).entry = e :=
  rfl

/-- Entries read into a pool with enough free slots are appended, each in a fresh slot. -/
theorem appendEntries_spec : ∀ (es : List Entry) {p : Pool}, p.slots.Locates p.nodes.toList →
    p.nodes.size + es.length ≤ p.slots.size →
    ∃ recs p', (appendEntries es).run p = .ok () p' ∧ p.Appends recs p' ∧
      recs.map Node.entry = es ∧ p'.journal = p.journal
  | [], p, hloc, _ => ⟨[], p, rfl, appends_nil hloc, rfl, rfl⟩
  | e :: es, p, hloc, hroom => by
    have hlt : p.nodes.toList.length < p.slots.size := by
      simp only [Array.length_toList, List.length_cons] at hroom ⊢
      omega
    obtain ⟨s, hff, hs, hfree⟩ := firstFree_eq_some hloc hlt
    have h₁ := appends_push hloc hfree hs
      (show (⟨s, e.kind, false, e.children, 1, e.payload⟩ : Node).slot = s from rfl) rfl rfl
    obtain ⟨recs, p', hrun, ha, hmap, hj⟩ := appendEntries_spec es h₁.locates (by
      simp only [Array.size_push, size_set, size_claim, List.length_cons] at hroom ⊢
      omega)
    refine ⟨_ :: recs, p', ?_, h₁.trans ha, by rw [List.map_cons, hmap, entry_record], hj⟩
    rw [appendEntries, run_get_bind]
    simp only [hff]
    rw [run_modify_bind]
    exact hrun

/-! ### Copying within a pool -/

/-- The report of the allocation of the record at position `i`: the pool's number, the record's
identifier, its byte offset and its size. -/
def allocNotice (p : Pool) (i : Nat) : Notice :=
  .allocated p.tag (p.slots.idOf (p.nodes.slotAt i)) (p.nodes.offset i)
    ((p.nodes[i]?.map Node.size).getD 0)

/-- What the report of an allocation reads is left as it was by records written past it. -/
theorem allocNotice_eq {q q' : Pool} {pre post post' : List Node} {nd : Node}
    (hq : q.nodes.toList = pre ++ nd :: post) (hq' : q'.nodes.toList = pre ++ nd :: post')
    (htag : q'.tag = q.tag) (hgen : q'.slots.generations = q.slots.generations) :
    q'.allocNotice pre.length = q.allocNotice pre.length := by
  unfold allocNotice
  rw [Arena.slotAt_of_toList hq, Arena.slotAt_of_toList hq', Arena.offset_of_toList hq,
    Arena.offset_of_toList hq', Arena.getElem?_of_toList hq, Arena.getElem?_of_toList hq', htag]
  simp [SlotTable.idOf, SlotTable.generation, hgen]

/-- Stamping the records after a located prefix gives each a fresh slot, one unit and no pin:
they are appended to the prefix with their entries kept. When the pool reports allocations, each
is reported once, in order. -/
theorem stampCopies_spec : ∀ (todo : List Node) {q : Pool} {l : List Node},
    q.nodes.toList = l ++ todo → q.slots.Locates l → l.length + todo.length ≤ q.slots.size →
    ∃ done q', (stampCopies l.length todo.length).run q = .ok () q' ∧
      ({ q with nodes := l.toArray } : Pool).Appends done q' ∧
      done.map Node.entry = todo.map Node.entry ∧
      q'.journal.toList = q.journal.toList ++
        if q.reports then (List.range' l.length todo.length).map q'.allocNotice else []
  | [], q, l, hq, hloc, _ => by
    have hn : q.nodes = l.toArray := by
      rw [← List.append_nil l, ← hq]
    refine ⟨[], q, rfl, ⟨⟨q.nodes, q.slots, q.journal, rfl⟩, by simp [hn], by simp, ?_, rfl, rfl,
      fun _ _ => rfl⟩, rfl, by simp⟩
    rw [hn]
    exact hloc
  | nd :: todo, q, l, hq, hloc, hroom => by
    have hlt : l.length < q.slots.size := by
      simp only [List.length_cons] at hroom
      omega
    obtain ⟨s, hff, hs, hfree⟩ := firstFree_eq_some hloc hlt
    let stamp := fun (nd : Node) => { nd with slot := s, pinned := false, retain := 1 }
    let q₁ : Pool := { q with nodes := q.nodes.modify l.length stamp,
                              slots := (q.slots.claim s).set s l.length }
    have hq₁ : q₁.nodes.toList = l ++ stamp nd :: todo := by
      show (q.nodes.modify l.length stamp).toList = _
      rw [Arena.modify, Array.toList_modify, hq, modify_append_cons]
    -- the record at the end of the prefix is stamped, and its allocation reported if the pool
    -- reports allocations
    have hstep : ∃ j, (stampCopies l.length (todo.length + 1)).run q =
        (stampCopies (l.length + 1) todo.length).run { q₁ with journal := j } ∧
        j.toList = q.journal.toList ++ if q.reports then [q₁.allocNotice l.length] else [] := by
      rw [stampCopies, run_get_bind]
      simp only [hff]
      rw [run_modify_bind, run_get_bind]
      by_cases hr : q.reports = true
      · refine ⟨_, by simp only [q₁, hr, if_true]; rfl, ?_⟩
        simp only [hr, if_true, Array.toList_push, allocNotice, Arena.slotAt_of_toList hq₁]
        rfl
      · exact ⟨q₁.journal, by simp only [q₁, hr]; rfl, by simp [q₁, hr]⟩
    obtain ⟨j, hj, hjj⟩ := hstep
    have hq₁' : ({ q₁ with journal := j } : Pool).nodes.toList = (l ++ [stamp nd]) ++ todo := by
      simpa using hq₁
    have hloc₁ : ({ q₁ with journal := j } : Pool).slots.Locates (l ++ [stamp nd]) :=
      hloc.push hfree hs rfl
    obtain ⟨done, q', hrun, ha, hmap, hjour⟩ := stampCopies_spec todo hq₁' hloc₁ (by
      simp only [q₁, size_set, size_claim, List.length_append, List.length_cons,
        List.length_nil] at hroom ⊢
      omega)
    have h₁ : ({ q with nodes := l.toArray } : Pool).Appends [stamp nd]
        { { q₁ with journal := j } with nodes := (l ++ [stamp nd]).toArray } := by
      have hpush := (appends_push (p := { q with nodes := l.toArray }) (by simpa using hloc) hfree
        hs (show (stamp nd).slot = s from rfl) rfl rfl).rejournal j
      rwa [show l.toArray.push (stamp nd) = (l ++ [stamp nd]).toArray by simp] at hpush
    have ha' := h₁.trans ha
    -- the report made for the stamped record reads what the final pool holds there
    have hnotice : q'.allocNotice l.length = q₁.allocNotice l.length := by
      obtain ⟨a, t, j', hq'⟩ := ha'.frame
      refine allocNotice_eq hq₁ (by simpa using ha'.nodes_eq) (by rw [hq']) ?_
      rw [ha'.generations_eq]
      rfl
    refine ⟨stamp nd :: done, q', ?_, ha', by rw [List.map_cons, hmap]; rfl, ?_⟩
    · rw [List.length_cons, hj]
      simpa using hrun
    · rw [hjour, hjj]
      cases q.reports <;> simp [List.range'_succ, hnotice, q₁]

/-- What `cloneAt` reads at the hole of a sound pool: the type of the subtree's root, its records
and how many there are. -/
theorem Sound.cloneAt_reads {c : Ctx} {U : Tree} (hS : p.Sound w (c.fill [U])) :
    p.nodes.kindAt c.pos = U.head.kind ∧
      p.nodes.extract c.pos (p.nodes.subtreeEnd c.pos) = U.records.toArray ∧
      p.nodes.subtreeEnd c.pos - c.pos = U.size := by
  have hl : p.nodes.toList = c.before ++ U.records ++ c.after := by
    rw [← hS.laid.layout_eq, Ctx.layout_fill, layout_singleton]
  refine ⟨@Arena.kindAt_of_toList _ c.before (layout U.kids ++ c.after) U.head
    (by rw [hl, records_eq]; simp), Array.toList_inj.mp (by simpa using extract_fill hS), ?_⟩
  rw [Ctx.pos, Arena.subtreeEnd_records hl hS.wf_fill]
  omega

theorem run_cloneAt_failure {c : Ctx} {U : Tree} (hS : p.Sound w (c.fill [U]))
    (hk : U.head.kind = failureKind) : (cloneAt c.pos).run p = .ok p.failure p := by
  obtain ⟨hkind, -, -⟩ := hS.cloneAt_reads
  unfold cloneAt
  rw [run_get_bind]
  dsimp only
  rw [hkind, if_pos hk]
  rfl

/-- A copy that needs more bytes than the limit leaves, or more slots than are free, gives the
failure node, with nothing but the refusal recorded. -/
theorem run_cloneAt_refused {c : Ctx} {U : Tree} (hS : p.Sound w (c.fill [U]))
    (hk : U.head.kind ≠ failureKind)
    (h : p.used + Arena.used U.records.toArray > p.limit ∨ p.slots.free < U.size) :
    (cloneAt c.pos).run p = .ok p.failure (p.refused (Arena.used U.records.toArray)) := by
  obtain ⟨hkind, hblock, hcount⟩ := hS.cloneAt_reads
  unfold cloneAt
  rw [run_get_bind]
  dsimp only
  rw [hkind, hblock, hcount, if_neg hk, if_pos h, run_bind_ok (run_exhausted _ _)]
  rfl

/-- Copying the subtree in a hole of a sound pool either gives the failure node, with the arena,
the table and the failure node as they were, or appends a copy with the same entries in fresh
slots and gives the copy's root. The copy is refused only for a failure node, or when the bytes up
to the limit or the free slots do not suffice. -/
theorem cloneAt_spec {c : Ctx} {U : Tree} (hS : p.Sound w (c.fill [U])) :
    (∃ p', (cloneAt c.pos).run p = .ok p.failure p' ∧ p'.nodes = p.nodes ∧ p'.slots = p.slots ∧
      p'.failure = p.failure ∧ (U.head.kind ≠ failureKind →
        p.used + Arena.used U.records.toArray > p.limit ∨ p.slots.free < U.size)) ∨
    ∃ (T : Tree) (p' : Pool), (cloneAt c.pos).run p = .ok (p'.slots.idOf T.head.slot) p' ∧
      U.head.kind ≠ failureKind ∧ T.Wf ∧ T.records.map Node.entry = U.records.map Node.entry ∧
      p.Appends T.records p' ∧
      p'.journal.toList = p.journal.toList ++
        if p.reports then (List.range' p.nodes.size U.size).map p'.allocNotice else [] := by
  by_cases hfk : U.head.kind = failureKind
  · exact .inl ⟨p, run_cloneAt_failure hS hfk, rfl, rfl, rfl, fun h => absurd hfk h⟩
  by_cases hno : p.used + Arena.used U.records.toArray > p.limit ∨ p.slots.free < U.size
  · exact .inl ⟨_, run_cloneAt_refused hS hfk hno, rfl, rfl, rfl, fun _ => hno⟩
  obtain ⟨hkind, hblock, hcount⟩ := hS.cloneAt_reads
  unfold cloneAt
  rw [run_get_bind]
  dsimp only
  rw [hkind, hblock, hcount, if_neg hfk, if_neg hno]
  right
  have hroom : p.nodes.toList.length + U.records.length ≤ p.slots.size := by
    have := hS.laid.locates.length_le
    rw [hS.laid.locates.free_eq, Tree.size] at hno
    omega
  obtain ⟨done, q', hrun, ha, hmap, hjour⟩ := stampCopies_spec U.records
    (q := { p with nodes := p.nodes ++ U.records.toArray }) (by simp) hS.laid.locates hroom
  obtain ⟨T, hT, hrec⟩ := exists_tree_of_entries hS.wf_fill hmap
  have ha' : p.Appends T.records q' := by
    rw [hrec]
    simpa using ha
  refine ⟨T, q', ?_, hfk, hT, by rw [hrec, hmap], ha', by simpa [Tree.size] using hjour⟩
  have hslot : q'.nodes.slotAt p.nodes.size = T.head.slot := by
    have := ha'.nodes_eq
    rw [records_eq] at this
    simpa using Arena.slotAt_of_toList this
  simp only [Array.length_toList, List.size_toArray] at hrun ⊢
  rw [EStateM.run_bind]
  show (EStateM.run (stampCopies p.nodes.size U.records.length >>= _) _) = _
  rw [run_bind_ok hrun, run_get_bind]
  simp only [hslot]
  rfl

/-! ### Reading a tree into a pool -/

/-- Bytes that decode to entries of no failure node, which fit in the bytes up to the limit and in
the free slots, are read in as a new subtree in fresh slots. -/
theorem importTree_of_fits (hloc : p.slots.Locates p.nodes.toList) {data : List UInt8}
    {es : List Entry} (hdec : TreeCode.decode data = .ok es)
    (hk : ∀ e ∈ es, e.kind ≠ failureKind) (hroom : p.used + TreeCode.arenaSize es ≤ p.limit)
    (hfree : es.length ≤ p.slots.free) :
    ∃ (T : Tree) (p' : Pool), (importTree data).run p = .ok (.ok (.root (p'.slots.idOf T.head.slot))) p' ∧
      T.Wf ∧ T.records.map Node.entry = es ∧ p.Appends T.records p' ∧ p'.journal = p.journal := by
  have hany : es.any (fun e => e.kind = failureKind) = false := by
    simpa using hk
  have hroom' : p.nodes.size + es.length ≤ p.slots.size := by
    have := hloc.length_le
    rw [hloc.free_eq] at hfree
    simp only [Array.length_toList] at hfree this
    omega
  obtain ⟨recs, p', hrun, ha, hmap, hj⟩ := appendEntries_spec es hloc hroom'
  obtain ⟨ts, hlen, hwf, hlay⟩ :=
    exists_forest_of_closes recs (hmap ▸ (TreeCode.decode_sound hdec).1)
  obtain ⟨T, rfl⟩ := List.length_eq_one_iff.mp hlen
  rw [layout_singleton] at hlay
  subst hlay
  refine ⟨T, p', ?_, hwf T (.head _), hmap, ha, hj⟩
  have hslot : p'.nodes.slotAt p.nodes.size = T.head.slot := by
    have := ha.nodes_eq
    rw [records_eq] at this
    simpa using Arena.slotAt_of_toList this
  unfold importTree
  rw [hdec]
  dsimp only
  rw [run_get_bind, hany]
  simp only [Bool.false_eq_true, if_false]
  rw [if_neg (by omega), run_bind_ok hrun, run_get_bind, hslot]
  rfl

theorem run_importTree_failure {data : List UInt8} {es : List Entry}
    (hdec : TreeCode.decode data = .ok es) (hk : ∃ e ∈ es, e.kind = failureKind) :
    (importTree data).run p = .ok (.ok (.failure p.failure)) p := by
  have hany : es.any (fun e => e.kind = failureKind) = true := by
    simpa using hk
  unfold importTree
  rw [hdec]
  dsimp only
  rw [run_get_bind, hany]
  rfl

/-- Bytes that decode to a tree of no failure node, which needs more bytes than the limit leaves
or more slots than are free, give the failure node with nothing but the refusal recorded. -/
theorem run_importTree_refused {data : List UInt8} {es : List Entry}
    (hdec : TreeCode.decode data = .ok es) (hk : ∀ e ∈ es, e.kind ≠ failureKind)
    (h : p.used + TreeCode.arenaSize es > p.limit ∨ p.slots.free < es.length) :
    (importTree data).run p = .ok (.ok (.failure p.failure)) (p.refused (TreeCode.arenaSize es)) := by
  have hany : es.any (fun e => e.kind = failureKind) = false := by
    simpa using hk
  unfold importTree
  rw [hdec]
  dsimp only
  rw [run_get_bind, hany]
  simp only [Bool.false_eq_true, if_false]
  rw [if_pos h, run_bind_ok (run_exhausted _ _)]
  rfl

/-- Reading bytes into a sound pool: malformed bytes are an error and change nothing; a tree that
holds a failure node, or does not fit, gives the failure node with the arena, the table and the
failure node as they were; otherwise the entries are appended as a new subtree in fresh slots,
in range and of no failure node, and its root is given. -/
theorem importTree_spec {ts : List Tree} (hS : p.Sound w ts) (data : List UInt8) :
    (∃ e, TreeCode.decode data = .error e ∧ (importTree data).run p = .ok (.error e) p) ∨
    (∃ p', (importTree data).run p = .ok (.ok (.failure p.failure)) p' ∧ p'.nodes = p.nodes ∧
      p'.slots = p.slots ∧ p'.failure = p.failure) ∨
    ∃ (T : Tree) (p' : Pool), (importTree data).run p = .ok (.ok (.root (p'.slots.idOf T.head.slot))) p' ∧
      T.Wf ∧ TreeCode.decode data = .ok (T.records.map Node.entry) ∧
      (∀ nd ∈ T.records, nd.entry.Bounded ∧ nd.kind ≠ failureKind) ∧ p.Appends T.records p' ∧
      p'.journal = p.journal := by
  cases hdec : TreeCode.decode data with
  | error e =>
    refine .inl ⟨e, rfl, ?_⟩
    unfold importTree
    rw [hdec]
    rfl
  | ok es =>
    right
    by_cases hk : ∀ e ∈ es, e.kind ≠ failureKind
    · by_cases hfits : p.used + TreeCode.arenaSize es ≤ p.limit ∧ es.length ≤ p.slots.free
      · obtain ⟨T, p', hrun, hT, hmap, ha, hj⟩ :=
          importTree_of_fits hS.laid.locates hdec hk hfits.1 hfits.2
        refine .inr ⟨T, p', hrun, hT, by rw [hmap], fun nd hnd => ?_, ha, hj⟩
        have hmem : nd.entry ∈ es := hmap ▸ List.mem_map_of_mem hnd
        exact ⟨(TreeCode.decode_sound hdec).2 _ hmem, hk _ hmem⟩
      · exact .inl ⟨_, run_importTree_refused hdec hk (by omega), rfl, rfl, rfl⟩
    · exact .inl ⟨p, run_importTree_failure hdec (by simpa using hk), rfl, rfl, rfl⟩

end Pool

end TreeArena
