import TreeArena.Proofs.Proper

/-!
# Each operation keeps the pool invariant

One lemma per pool operation takes `Pool.Kept` from the forest before to the forest its spec
describes after. The forest's soundness and ownership come with the spec; what is checked here is
that every record stays proper: an operation writes counts only into records that are no failure,
hangs only subtrees that are no failure below a parent, and leaves what it releases or degrades as
roots (`Node.Proper.lasting`, `Node.Proper.failed`). The failure node stays live because only
slots owed nothing are freed, and the pool owes it a unit (`Kept.step`).
-/

namespace TreeArena

namespace Tree

variable {Q : Bool → Node → Prop}

/-- Changing the subtree at a hole keeps a property of every record when the new subtree has it
wherever the old one had it. -/
theorem every_fill_congr {c : Ctx} {t t' : Tree} (h : ∀ u ∈ c.fill [t], Every Q true u)
    (ht : Every Q c.up.isEmpty t → Every Q c.up.isEmpty t') : ∀ u ∈ c.fill [t'], Every Q true u := by
  rw [Ctx.every_fill_iff] at h ⊢
  refine ⟨h.1, fun u hu => ?_⟩
  rw [List.mem_singleton.mp hu]
  exact ht (h.2 t (List.mem_singleton_self _))

theorem RootsOwed.mono {w w' : Nat → Nat} {ts : List Tree} (h : RootsOwed w ts)
    (hw : ∀ s, w s ≤ w' s) : RootsOwed w' ts :=
  fun t ht hp => Nat.lt_of_lt_of_le (h t ht hp) (hw _)

theorem addUnit_le (w : Nat → Nat) (s x : Nat) : w x ≤ addUnit w s x := by
  unfold addUnit
  split <;> omega

end Tree

namespace Node.Proper

variable {f : Nat} {r : Bool} {nd : Node}

theorem withChildren_zero (h : nd.Proper f r) : ({ nd with children := 0 } : Node).Proper f r :=
  ⟨h.kind_lt, h.payload_le, h.pinned_iff, h.pinned_spec, fun hk => ⟨(h.bare hk).1, rfl, (h.bare hk).2.2⟩⟩

end Node.Proper

namespace Pool

open TreeArena.Tree SlotTable

variable {p p' : Pool} {w : Nat → Nat} {ts : List Tree}

/-! ### Carrying the invariant across steps -/

/-- The invariant after an operation that frees no slot the failure node could be in, from the
new forest's soundness, ownership and records and the units still owed to the failure node. -/
theorem Kept.step (hK : p.Kept w ts) {P : Nat → Prop} (hf : p.Follows P p')
    (hP : ¬ P p.failure.slot) {w' : Nat → Nat} {ts' : List Tree} (hS : p'.Sound w' ts')
    (ho : RootsOwed w' ts') (hq : ∀ t ∈ ts', t.Every (Node.Proper p.failure.slot) true)
    (hwf : 0 < w' p.failure.slot) : p'.Kept w' ts' := by
  rw [← hf.failure_eq] at hq hwf
  refine ⟨hS, ho, hq, ?_, hwf⟩
  rw [hf.failure_eq]
  exact hf.resolve_isSome hP hK.failure_live

/-- The failure node is owed a unit, so operations that free only slots owed nothing keep it. -/
theorem Kept.not_freed (hK : p.Kept w ts) : ¬ w p.failure.slot = 0 :=
  Nat.pos_iff_ne_zero.mp hK.failure_owed

theorem Kept.of_same (hK : p.Kept w ts) (hn : p'.nodes = p.nodes) (hs : p'.slots = p.slots)
    (hf : p'.failure = p.failure) : p'.Kept w ts := by
  refine ⟨hK.sound.of_nodes_slots hn hs, hK.owed, ?_, ?_, ?_⟩ <;> rw [hf]
  · exact hK.proper
  · rw [hs]
    exact hK.failure_live
  · exact hK.failure_owed

/-- A subtree whose records are no failure, unpinned, in fresh slots and in range is proper
wherever it hangs. -/
theorem every_proper_of_records {f : Nat} {root : Bool} {t : Tree}
    (h : ∀ nd ∈ t.records, nd.kind < 256 ∧ nd.payload.length ≤ maxPayload ∧ nd.pinned = false ∧
      nd.slot ≠ f ∧ nd.kind ≠ failureKind) : t.Every (Node.Proper f) root := by
  have hfalse : t.Every (Node.Proper f) false := every_false_of_records t fun nd hnd => by
    obtain ⟨hk, hpay, hp, hs, hne⟩ := h nd hnd
    exact ⟨hk, hpay, by simp [hp, hs], fun h' => absurd h' (by simp [hp]), fun h' => absurd h' hne⟩
  cases root with
  | false => exact hfalse
  | true =>
    rw [← eta t] at hfalse ⊢
    exact hfalse.reroot hfalse.head.root

theorem head_mem_layout {t : Tree} {ts : List Tree} (ht : t ∈ ts) : t.head ∈ layout ts :=
  mem_layout_of_mem ht (by rw [records_eq]; exact .head _)

/-- Roots owned with one unit more on the slot of the record at a hole are owned without it,
once that record, if it is a root, is owned without it: no other root carries its slot. -/
theorem RootsOwed.of_addUnit {c : Ctx} {h : Node} {ks : List Tree}
    (hnd : ((layout (c.fill [node h ks])).map Node.slot).Nodup)
    (ho : RootsOwed (addUnit w h.slot) (c.fill [node h ks]))
    (hh : c.up = [] → h.pinned = false → 0 < w h.slot) : RootsOwed w (c.fill [node h ks]) := by
  have hout := (slot_ne_of_fill hnd).2
  have hside : ∀ t ∈ c.left ++ c.right, t.head.slot ≠ h.slot := by
    intro t ht
    apply hout
    rw [Ctx.layout_fill, Ctx.before, Ctx.after]
    rcases List.mem_append.mp ht with ht | ht <;> simp [head_mem_layout ht]
  intro t ht hp
  by_cases hs : t.head.slot = h.slot
  swap
  · rw [← addUnit_of_ne w hs]
    exact ho t ht hp
  -- only the record at the hole, when it is a root, carries its slot
  rcases List.eq_nil_or_concat c.up with hup | ⟨fs, f, hup⟩
  · rw [show c.fill [node h ks] = c.left ++ node h ks :: c.right by
      simp [Ctx.fill, hup, Frame.closeAll]] at ht
    rcases List.mem_append.mp ht with ht | ht
    · exact absurd hs (hside t (List.mem_append_left _ ht))
    · rcases List.mem_cons.mp ht with rfl | ht
      · exact hh hup hp
      · exact absurd hs (hside t (List.mem_append_right _ ht))
  · rw [List.concat_eq_append] at hup
    rw [Ctx.fill_of_up_eq hup] at ht
    rcases List.mem_append.mp ht with ht | ht
    · exact absurd hs (hside t (List.mem_append_left _ ht))
    · rcases List.mem_cons.mp ht with rfl | ht
      · exact absurd hs (hout _ (Ctx.head_mem_layout_fill (by rw [hup]; simp) []))
      · exact absurd hs (hside t (List.mem_append_right _ ht))

theorem RemainsAll.remains {h : Node} {ks S : List Tree} (hrem : RemainsAll ks S) :
    Remains (node h ks) S := fun u hu => by
  obtain ⟨k, hk, v, hv, hr⟩ := hrem u hu
  exact ⟨v, .kid hk hv, hr⟩

/-! ### Owning and giving back -/

/-- Retaining a live record either overflows its count, changing nothing, or owns it once more. -/
theorem Kept.retain {c : Ctx} {h : Node} {ks : List Tree} (hK : p.Kept w (c.fill [node h ks])) :
    (h.pinned = false ∧ h.retain = maxCount ∧
      (retain h.slot).run p = .error (.retainOverflow (p.slots.idOf h.slot)) p) ∨
    ∃ p', (retain h.slot).run p = .ok () p' ∧
      p'.Kept (addUnit w h.slot)
        (c.fill [node (if h.pinned then h else { h with retain := h.retain + 1 }) ks]) ∧
      p.Steps (fun _ => False) p' := by
  rcases retain_spec hK.sound with hover | ⟨p', hrun, hS', hst⟩
  · exact .inl hover
  refine .inr ⟨p', hrun, hK.step hst.follows id hS' ?_ ?_
    (Nat.lt_of_lt_of_le hK.failure_owed (addUnit_le w _ _)), hst⟩
  · refine (hK.owed.fill_congr ?_ ?_).mono (addUnit_le w _) <;> split <;> rfl
  · refine every_fill_congr hK.proper fun he => ?_
    split
    · exact he
    · rename_i hp
      exact he.recount (by simpa using hp) _

/-- Releasing a record keeps the invariant with the released unit gone: the record is pinned and
nothing changes, or it holds one unit fewer, or it was a root whose last unit went and what remains
of its children are new roots. -/
theorem Kept.release {c : Ctx} {h : Node} {ks : List Tree}
    (hK : p.Kept (addUnit w h.slot) (c.fill [node h ks])) (hf : 0 < w p.failure.slot) :
    ∃ p' ts', (release h.slot).run p = .ok () p' ∧ Released p p' w c h ks ∧ p'.Kept w ts' ∧
      p.Steps (fun s => w s = 0) p' := by
  obtain ⟨p', hrun, hrel, hst⟩ := release_spec hK.sound
  suffices ∃ ts', p'.Kept w ts' by
    obtain ⟨ts', hK'⟩ := this
    exact ⟨p', ts', hrun, hrel, hK', hst⟩
  have hP : ¬ w p.failure.slot = 0 := Nat.pos_iff_ne_zero.mp hf
  have hheld := (held_node_iff.mp hK.sound.held_fill).1
  rcases hrel with ⟨hp, rfl⟩ | ⟨hp, hone, hS₁⟩ | ⟨hp, hone, hup, S, hS₁, hown, rfl⟩
  · -- a pinned record holds no units of owners
    refine ⟨_, hK.step hst.follows hP
      (hK.sound.congr_pinned hp fun x hx => (addUnit_of_ne w hx).symm) ?_ hK.proper hf⟩
    exact RootsOwed.of_addUnit hK.sound.laid.nodup hK.owed fun _ hp' => by simp [hp] at hp'
  · -- the record keeps a unit: if it is a root, one of an owner
    refine ⟨_, hK.step hst.follows hP hS₁ ?_ ?_ hf⟩
    · refine RootsOwed.of_addUnit hS₁.laid.nodup (hK.owed.fill_congr rfl rfl) fun hup _ => ?_
      have : h.retain = w h.slot + 1 := by simpa [Node.Holds, hp, hup] using hheld
      show 0 < w h.slot
      omega
    · exact every_fill_congr hK.proper fun he => he.recount hp _
  · -- the root's last unit went: its record is cut out and its children released
    have hfill : ∀ x, c.fill [x] = c.left ++ x :: c.right := by
      simp [Ctx.fill, hup, Frame.closeAll]
    have hside : ∀ t ∈ c.left ++ c.right, t ∈ c.fill [node h ks] := by
      intro t ht
      rw [hfill]
      rcases List.mem_append.mp ht with ht | ht <;> simp [ht]
    have hslots := (slot_ne_of_fill hK.sound.laid.nodup).2
    refine ⟨_, hK.step hst.follows hP hS₁ ?_ ?_ hf⟩
    · refine rootsOwed_append.mpr ⟨fun t ht hp' => ?_, hown⟩
      have hs : t.head.slot ≠ h.slot := hslots _ (by
        rw [Ctx.layout_fill, Ctx.before, Ctx.after]
        rcases List.mem_append.mp ht with ht | ht <;> simp [head_mem_layout ht])
      rw [← addUnit_of_ne w hs]
      exact hK.owed t (hside t ht) hp'
    · intro t ht
      rcases List.mem_append.mp ht with ht | ht
      · exact hK.proper t (hside t ht)
      · exact (remainsAll_dropUnitAll ks).remains.every Node.Proper.lasting
          (hK.proper (node h ks) (by rw [hfill]; simp)) t ht

theorem Sound.position_fill {c : Ctx} {t : Tree} (hS : p.Sound w (c.fill [t])) :
    p.slots.position t.head.slot = some c.pos := by
  have hl : p.nodes.toList = c.before ++ t.head :: (layout t.kids ++ c.after) := by
    rw [← hS.laid.layout_eq, Ctx.layout_fill, layout_singleton, records_eq]
    simp
  have hlt : c.pos < p.nodes.toList.length := by
    rw [hl]
    simp [Ctx.pos]
  have := hS.laid.locates.position_slot c.pos hlt
  rwa [show p.nodes.toList[c.pos] = t.head by simp [hl, Ctx.pos]] at this

theorem Sound.resolve_idOf {c : Ctx} {t : Tree} (hS : p.Sound w (c.fill [t])) :
    p.slots.resolve (p.slots.idOf t.head.slot) = some c.pos := by
  have hpos := hS.position_fill
  have hlt : t.head.slot < p.slots.size := position_lt hpos
  have hne : t.head.slot ≠ 65535 := by
    have := hS.cap
    unfold maxSlots at this
    omega
  simp [SlotTable.resolve, SlotTable.idOf, NodeId.none, hne, hlt, hpos]

theorem Kept.failure_isFree (hK : p.Kept w ts) : p.slots.isFree p.failure.slot = false :=
  ((resolve_isSome_iff _ _).mp hK.failure_live).2.2.2

/-! ### Allocating -/

theorem Kept.withLimit (hK : p.Kept w ts) (n : Int) : (p.withLimit n).Kept w ts :=
  hK.of_same rfl rfl rfl

theorem Kept.refused (hK : p.Kept w ts) (n : Nat) : (p.refused n).Kept w ts :=
  hK.of_same rfl rfl rfl

/-- A pool just built keeps the invariant: its forest is the failure node alone, which owns the
one unit on its slot. -/
theorem Kept.new {tag : Nat} {cap : Int} {opts : PoolOptions} (h : Pool.new tag cap opts = .ok p) :
    p.Kept (fun s => if s = p.failure.slot then 1 else 0) [node (failureRecord p.failure.slot) []] := by
  obtain ⟨hS, hres⟩ := new_spec h
  have hproper : (failureRecord p.failure.slot).Proper p.failure.slot true :=
    ⟨by simp [failureRecord, failureKind], by simp [failureRecord], by simp [failureRecord],
      fun _ => ⟨rfl, rfl⟩, fun _ => ⟨rfl, rfl, rfl⟩⟩
  refine ⟨hS, fun t ht hp => ?_, fun t ht => ?_, by rw [hres]; rfl, by simp⟩
  · -- the only root is pinned
    rw [List.mem_singleton.mp ht] at hp
    cases hp
  · rw [List.mem_singleton.mp ht]
    exact every_node_iff.mpr ⟨hproper, by simp⟩

/-- Creating a record of a type that fits its byte gives the failure node, changing nothing the
invariant reads, or a new root in a free slot owned by the identifier returned. -/
theorem Kept.create (hK : p.Kept w ts) (hw : ∀ s, p.slots.isFree s = true → w s = 0) {kind : Nat}
    (hkind : kind < 256) (payload : List UInt8) :
    (∃ p', (create kind payload).run p = .ok p.failure p' ∧ p'.Kept w ts ∧
      p.Follows (fun _ => False) p') ∨
    ∃ s p', (create kind payload).run p = .ok (p.slots.idOf s) p' ∧ p.slots.isFree s = true ∧
      p'.Kept (addUnit w s) (ts ++ [node (made s kind payload) []]) ∧
      p.Follows (fun _ => False) p' ∧ p'.slots.idOf s = p.slots.idOf s := by
  rcases create_spec hK.sound hw kind payload with ⟨p', hrun, hn, hs, hf⟩ |
    ⟨s, p', hrun, hfs, hk, hpay, hS', ho, hfol, hid⟩
  · exact .inl ⟨p', hrun, hK.of_same hn hs hf, follows_of_slots hs hf⟩
  refine .inr ⟨s, p', hrun, hfs, hK.step hfol id hS' (ho hK.owed) ?_
    (Nat.lt_of_lt_of_le hK.failure_owed (addUnit_le w _ _)), hfol, hid⟩
  have hsf : s ≠ p.failure.slot := fun h => by
    rw [h, hK.failure_isFree] at hfs
    cases hfs
  intro t ht
  rcases List.mem_append.mp ht with ht | ht
  · exact hK.proper t ht
  · rw [List.mem_singleton.mp ht]
    exact every_proper_of_records fun nd hnd => by
      simp only [records_node, layout_nil, List.mem_singleton] at hnd
      subst hnd
      exact ⟨hkind, hpay, rfl, hsf, hk⟩

/-- Records appended in fresh slots with the entries of proper records that are no failure are
proper, wherever they hang. -/
theorem Kept.every_appended (hK : p.Kept w ts) {recs : List Node} (ha : p.Appends recs p')
    {T : Tree} (hrec : T.records = recs)
    (hent : ∀ nd ∈ recs, nd.entry.Bounded ∧ nd.kind ≠ failureKind) {root : Bool} :
    T.Every (Node.Proper p.failure.slot) root := by
  refine every_proper_of_records fun nd hnd => ?_
  rw [hrec] at hnd
  obtain ⟨hp, -, hfree⟩ := ha.fresh nd hnd
  obtain ⟨hb, hk⟩ := hent nd hnd
  refine ⟨hb.kind_lt, hb.payload_le, hp, fun h => ?_, hk⟩
  rw [h, hK.failure_isFree] at hfree
  cases hfree

theorem Sound.children_lt {nd : Node} (hS : p.Sound w ts) (hnd : nd ∈ layout ts) :
    nd.children < maxSlots := by
  have hlive : p.slots.isFree nd.slot = false :=
    (hS.isFree_eq_false_iff _).mpr (List.mem_map_of_mem hnd)
  obtain ⟨c, h, ks, rfl, hs⟩ := hS.exists_hole hlive
  have heq : h = nd := hS.eq_of_slot_eq (by rw [Ctx.layout_fill]; simp) hnd hs
  subst heq
  rw [hS.children_eq]
  have h1 := length_le_layout ks
  have h2 : (layout ks).length < (layout (c.fill [node h ks])).length := by
    rw [Ctx.layout_fill]
    simp
    omega
  have h3 := hS.laid.locates.length_le
  rw [← hS.laid.layout_eq] at h3
  have h4 := hS.cap
  omega

/-- The records of a subtree of proper records whose root is no failure have entries in range
and are no failure. -/
theorem Kept.entries_of_fill {c : Ctx} {U : Tree} (hK : p.Kept w (c.fill [U]))
    (hk : U.head.kind ≠ failureKind) :
    ∀ nd ∈ U.records, nd.entry.Bounded ∧ nd.kind ≠ failureKind := by
  have hU := hK.every_fill
  intro nd hnd
  have hcount : nd.children ≤ maxCount := by
    have := hK.sound.children_lt
      (show nd ∈ layout (c.fill [U]) by rw [Ctx.layout_fill, layout_singleton]; simp [hnd])
    unfold maxSlots at this
    unfold maxCount
    omega
  rw [records_eq] at hnd
  rcases List.mem_cons.mp hnd with rfl | hnd
  · exact ⟨⟨hU.head.kind_lt, hcount, hU.head.payload_le⟩, hk⟩
  · have hQ := hU.descendants nd hnd
    exact ⟨⟨hQ.kind_lt, hcount, hQ.payload_le⟩, hQ.kind_ne⟩

/-- Copying a subtree keeps the invariant: the copy is refused, changing nothing the invariant
reads, or it is a new root in fresh slots, owned by the identifier returned. -/
theorem Kept.cloneAt {c : Ctx} {U : Tree} (hK : p.Kept w (c.fill [U]))
    (hw : ∀ s, p.slots.isFree s = true → w s = 0) :
    (∃ p', (cloneAt c.pos).run p = .ok p.failure p' ∧ p'.Kept w (c.fill [U]) ∧
      p.Follows (fun _ => False) p') ∨
    ∃ (T : Tree) (p' : Pool), (cloneAt c.pos).run p = .ok (p'.slots.idOf T.head.slot) p' ∧
      p.slots.isFree T.head.slot = true ∧
      p'.Kept (addUnit w T.head.slot) (c.fill [U] ++ [T]) ∧ p.Follows (fun _ => False) p' := by
  rcases cloneAt_spec hK.sound with ⟨p', hrun, hn, hs, hf, -⟩ |
    ⟨T, p', hrun, hk, hT, hmap, ha, -⟩
  · exact .inl ⟨p', hrun, hK.of_same hn hs hf, follows_of_slots hs hf⟩
  have hfresh := (ha.fresh T.head (by rw [records_eq]; exact .head _)).2.2
  obtain ⟨hS', ho⟩ := ha.sound hK.sound hw hT rfl
  refine .inr ⟨T, p', hrun, hfresh,
    hK.step (ha.follows fun _ => False) (fun h => h) hS' (ho hK.owed) ?_
      (Nat.lt_of_lt_of_le hK.failure_owed (addUnit_le w _ _)), ha.follows _⟩
  intro t ht
  rcases List.mem_append.mp ht with ht | ht
  · exact hK.proper t ht
  · rw [List.mem_singleton.mp ht]
    refine hK.every_appended ha rfl fun nd hnd => ?_
    obtain ⟨u, hu, hue⟩ := List.mem_map.mp (hmap ▸ List.mem_map_of_mem hnd : nd.entry ∈ U.records.map Node.entry)
    obtain ⟨hb, hk'⟩ := hK.entries_of_fill hk u hu
    have hkind : u.kind = nd.kind := congrArg Entry.kind hue
    exact ⟨hue ▸ hb, hkind ▸ hk'⟩

/-- Reading bytes keeps the invariant: malformed bytes change nothing, a tree that holds a failure
node or does not fit changes nothing the invariant reads, and otherwise the tree is a new root in
fresh slots, owned by the identifier returned. -/
theorem Kept.importTree (hK : p.Kept w ts) (hw : ∀ s, p.slots.isFree s = true → w s = 0)
    (data : List UInt8) :
    (∃ e, (importTree data).run p = .ok (.error e) p) ∨
    (∃ p', (importTree data).run p = .ok (.ok (.failure p.failure)) p' ∧ p'.Kept w ts ∧
      p.Follows (fun _ => False) p') ∨
    ∃ (T : Tree) (p' : Pool),
      (importTree data).run p = .ok (.ok (.root (p'.slots.idOf T.head.slot))) p' ∧
      p.slots.isFree T.head.slot = true ∧ p'.Kept (addUnit w T.head.slot) (ts ++ [T]) ∧
      p.Follows (fun _ => False) p' := by
  rcases importTree_spec hK.sound data with ⟨e, -, hrun⟩ | ⟨p', hrun, hn, hs, hf⟩ |
    ⟨T, p', hrun, hT, -, hent, ha, -⟩
  · exact .inl ⟨e, hrun⟩
  · exact .inr (.inl ⟨p', hrun, hK.of_same hn hs hf, follows_of_slots hs hf⟩)
  have hfresh := (ha.fresh T.head (by rw [records_eq]; exact .head _)).2.2
  obtain ⟨hS', ho⟩ := ha.sound hK.sound hw hT rfl
  refine .inr (.inr ⟨T, p', hrun, hfresh,
    hK.step (ha.follows fun _ => False) (fun h => h) hS' (ho hK.owed) ?_
      (Nat.lt_of_lt_of_le hK.failure_owed (addUnit_le w _ _)), ha.follows _⟩)
  intro t ht
  rcases List.mem_append.mp ht with ht | ht
  · exact hK.proper t ht
  · rw [List.mem_singleton.mp ht]
    exact hK.every_appended ha rfl hent

/-! ### Editing -/

section Editing

variable {f : Nat}

theorem proper_of_mem_layout {ts : List Tree} (h : ∀ t ∈ ts, t.Every (Node.Proper f) true)
    {nd : Node} (hnd : nd ∈ layout ts) : ∃ r, nd.Proper f r := by
  obtain ⟨t, ht, hnd⟩ := exists_mem_of_mem_layout hnd
  rw [records_eq] at hnd
  rcases List.mem_cons.mp hnd with rfl | hnd
  · exact ⟨true, (h t ht).head⟩
  · exact ⟨false, (h t ht).descendants nd hnd⟩

/-- What adopting a subtree that is no failure leaves is proper: the rest of the forest, and the
subtree ready to hang from a parent. -/
theorem every_adopted {c : Ctx} {T : Tree} {rest : List Tree} {T' : Tree}
    (hq : ∀ u ∈ c.fill [T], u.Every (Node.Proper f) true) (ha : Adopted c T rest T')
    (hk : T.head.kind ≠ failureKind) :
    (∀ u ∈ rest, u.Every (Node.Proper f) true) ∧ T'.Every (Node.Proper f) false := by
  obtain ⟨hc, hT⟩ := Ctx.every_fill_iff.mp hq
  have hT := hT T (List.mem_singleton_self _)
  rcases ha with ⟨hup, rfl, rfl⟩ | ⟨g, gs, hup, rfl, rfl⟩
  · -- a root gained the unit of its new edge
    refine ⟨Ctx.every_iff_fill_nil.mp hc, ?_⟩
    rw [hup, List.isEmpty_nil] at hT
    have hp := hT.head.pinned_eq_false hk
    rw [if_neg (by simp [hp])]
    rw [← eta T] at hT
    exact (hT.recount hp _).unroot_proper hk
  · -- a child left its parent, whose count went down
    rw [hup] at hT
    refine ⟨fun u hu => ?_, hT⟩
    rw [mapAll_eq_map] at hu
    obtain ⟨u₀, hu₀, rfl⟩ := List.mem_map.mp hu
    exact (Ctx.every_iff_fill_nil.mp hc u₀ hu₀).map fun _ _ h => h.lowerAt _

/-- A record of what adopting leaves is a record of the forest outside the adopted subtree, up to
its children count. -/
theorem adopted_records {c : Ctx} {T : Tree} {rest : List Tree} {T' : Tree} (ha : Adopted c T rest T')
    {nd : Node} (hnd : nd ∈ layout rest) :
    ∃ nd₀ ∈ layout (c.fill []), nd₀.slot = nd.slot ∧ nd₀.kind = nd.kind := by
  rcases ha with ⟨-, rfl, -⟩ | ⟨g, gs, -, rfl, -⟩
  · exact ⟨nd, hnd, rfl, rfl⟩
  · rw [layout_mapAll] at hnd
    obtain ⟨nd₀, hnd₀, rfl⟩ := List.mem_map.mp hnd
    refine ⟨nd₀, hnd₀, ?_, ?_⟩ <;> unfold lowerAt <;> split <;> rfl

/-- Attaching a subtree that is no failure below a record that is no failure, outside the
subtree, keeps the invariant, unless adopting a root overflows its count, which changes
nothing. -/
theorem Kept.attach {c : Ctx} {T : Tree} (hK : p.Kept w (c.fill [T])) {r : Nat}
    (hr : r ∈ (layout (c.fill [])).map Node.slot)
    (hkr : ∀ nd ∈ layout (c.fill []), nd.slot = r → nd.kind ≠ failureKind)
    (hkT : T.head.kind ≠ failureKind) (index : Int) :
    (c.up = [] ∧ T.head.pinned = false ∧ T.head.retain = maxCount ∧
      (attach r T.head.slot index).run p = .error (.retainOverflow (p.slots.idOf T.head.slot)) p) ∨
    ∃ p' ts', (attach r T.head.slot index).run p = .ok () p' ∧ p'.Kept w ts' ∧
      p.Steps (fun _ => False) p' := by
  rcases attach_spec hK.sound hr index with hover | ⟨p', d, h, ks, T', hrun, hh, -, had, hS', ho, hst⟩
  · exact .inl hover
  obtain ⟨hrest, hT'⟩ := every_adopted hK.proper had hkT
  obtain ⟨hd, hnode⟩ := Ctx.every_fill_iff.mp hrest
  obtain ⟨hhP, hks⟩ := every_node_iff.mp (hnode _ (List.mem_singleton_self _))
  have hkh : h.kind ≠ failureKind := by
    obtain ⟨nd₀, hnd₀, hs, hk⟩ := @adopted_records _ _ _ _ had h
      (by rw [Ctx.layout_fill]; simp)
    rw [← hk]
    exact hkr nd₀ hnd₀ (hs.trans hh)
  refine .inr ⟨p', _, hrun, hK.step hst.follows id hS' (ho hK.owed) ?_ hK.failure_owed, hst⟩
  refine Ctx.every_fill_iff.mpr ⟨hd, fun u hu => ?_⟩
  rw [List.mem_singleton.mp hu]
  refine every_node_iff.mpr ⟨hhP.withChildren hkh _, fun k hk => ?_⟩
  rcases List.mem_append.mp hk with hk | hk
  · exact hks k (List.mem_of_mem_take hk)
  · rcases List.mem_cons.mp hk with rfl | hk
    · exact hT'
    · exact hks k (List.mem_of_mem_drop hk)

/-- Cutting a child from its parent keeps the invariant: the parent counts one child fewer and
what remains of the child is new roots. -/
theorem Kept.cut {d : Ctx} {h : Node} {L R : List Tree} {T : Tree}
    (hK : p.Kept w ((d.child h L R).fill [T])) :
    ∃ p' ts', (cut h.slot T.head.slot).run p = .ok () p' ∧ p'.Kept w ts' ∧
      p.Steps (fun s => w s = 0) p' := by
  obtain ⟨p', S, hrun, hS', hown, rfl, ho, hst⟩ := cut_spec hK.sound
  have hq := hK.proper
  rw [Ctx.child_fill] at hq
  obtain ⟨hd, hnode⟩ := Ctx.every_fill_iff.mp hq
  obtain ⟨hhP, hks⟩ := every_node_iff.mp (hnode _ (List.mem_singleton_self _))
  have hT := hks T (by simp)
  -- the parent has a child, so it is no failure
  have hkh : h.kind ≠ failureKind := hhP.kind_ne_of_children (by
    have hwf : (node h (L ++ [T] ++ R)).Wf := Sound.wf_fill (c := d) hK.sound
    rw [(wf_node_iff.mp hwf).1]
    simp)
  refine ⟨p', _, hrun, hK.step hst.follows hK.not_freed hS' ?_ ?_ hK.failure_owed, hst⟩
  · rw [Ctx.appendRight_fill]
    exact rootsOwed_append.mpr ⟨ho hK.owed, hown⟩
  · rw [Ctx.appendRight_fill]
    intro u hu
    rcases List.mem_append.mp hu with hu | hu
    · refine every_fill_congr (Ctx.every_fill_iff.mpr ⟨hd, hnode⟩) (fun _ => ?_) u hu
      refine every_node_iff.mpr ⟨hhP.withChildren hkh _, fun k hk => hks k ?_⟩
      rcases List.mem_append.mp hk with hk | hk <;> simp [hk]
    · have hT' : T.Every (Node.Proper p.failure.slot) true := by
        rw [← eta T] at hT ⊢
        exact hT.reroot hT.head.root
      exact (remains_dropUnit T).every Node.Proper.lasting hT' u hu

theorem every_toRoot {r : Bool} {t : Tree} (h : t.Every (Node.Proper f) r) :
    t.Every (Node.Proper f) true := by
  cases r with
  | true => exact h
  | false =>
    rw [← eta t] at h ⊢
    exact h.reroot h.head.root

/-- Removing every child of a record keeps the invariant: what remains of them is new roots. -/
theorem Kept.dropChildren {c : Ctx} {h : Node} {ks : List Tree} (hK : p.Kept w (c.fill [node h ks]))
    {bound : Nat} (hb : ks.length ≤ bound) :
    ∃ p' ts', (dropChildren Pool.release h.slot bound).run p = .ok () p' ∧ p'.Kept w ts' ∧
      p.Steps (fun s => w s = 0) p' := by
  obtain ⟨p', S, hrun, hS', hown, rfl, hst⟩ :=
    dropChildren_spec (releasesLast_release (layout ks).length) bound hK.sound hb
      fun k hk => size_le_layout hk
  have hnode := hK.every_fill
  refine ⟨p', _, hrun, hK.step hst.follows hK.not_freed hS' ?_ ?_ hK.failure_owed, hst⟩
  · rw [Ctx.appendRight_fill]
    exact rootsOwed_append.mpr ⟨hK.owed.fill_congr rfl rfl, hown⟩
  · rw [Ctx.appendRight_fill]
    intro u hu
    rcases List.mem_append.mp hu with hu | hu
    · refine every_fill_congr hK.proper (fun he => ?_) u hu
      exact every_node_iff.mpr ⟨he.head.withChildren_zero, by simp⟩
    · exact (remainsAll_dropUnitAll ks).remains.every Node.Proper.lasting (every_toRoot hnode) u hu

/-- Putting a subtree that is no failure in the place of a child outside it keeps the invariant:
what remains of the child is new roots. -/
theorem Kept.substitute {cO cT : Ctx} {O T : Tree} (hK : p.Kept w (cT.fill [T]))
    (hO : cO.fill [O] = cT.fill [T]) (hup : cO.up ≠ []) (hout : O.head ∉ T.records)
    (hkT : T.head.kind ≠ failureKind) :
    (cT.up = [] ∧ T.head.pinned = false ∧ T.head.retain = maxCount ∧
      (substitute O.head.slot T.head.slot).run p =
        .error (.retainOverflow (p.slots.idOf T.head.slot)) p) ∨
    ∃ p' ts', (substitute O.head.slot T.head.slot).run p = .ok () p' ∧ p'.Kept w ts' ∧
      p.Steps (fun s => w s = 0) p' := by
  rcases substitute_spec hK.sound hO hup hout with hover |
    ⟨p', c, T', S, hrun, hS', hown, hcup, -, ⟨O₁, had, -, rfl⟩, ho, hst⟩
  · exact .inl hover
  obtain ⟨hrest, hT'⟩ := every_adopted hK.proper had hkT
  have hO₁ := (Ctx.every_fill_iff.mp hrest).2 _ (List.mem_singleton_self _)
  have hfalse : c.up.isEmpty = false := by simpa using hcup
  refine .inr ⟨p', _, hrun, hK.step hst.follows hK.not_freed hS' ?_ ?_ hK.failure_owed, hst⟩
  · exact rootsOwed_append.mpr ⟨ho hK.owed, hown⟩
  · intro u hu
    rcases List.mem_append.mp hu with hu | hu
    · exact every_fill_congr hrest (fun _ => hfalse ▸ hT') u hu
    · exact (remains_dropUnit O₁).every Node.Proper.lasting (every_toRoot hO₁) u hu

/-- Splicing the children of a record into the children of a record that is no failure, outside
its subtree, keeps the invariant. -/
theorem Kept.splice {ct cr : Ctx} {ht hr : Node} {kt kr : List Tree}
    (hK : p.Kept w (ct.fill [node ht kt])) (heq : cr.fill [node hr kr] = ct.fill [node ht kt])
    (hout : hr ∉ (node ht kt).records) {i : Nat} (hi : i ≤ kr.length)
    (hkr : hr.kind ≠ failureKind) :
    ∃ p' ts', (splice cr.pos ct.pos hr.slot ht.slot i kr.length).run p = .ok () p' ∧
      p'.Kept w ts' ∧ p.Steps (fun _ => False) p' := by
  obtain ⟨p', d, K, hrun, hd, -, hS', ho, hst⟩ := splice_spec hK.sound heq hout hi
  have hnode := hK.every_fill
  have hkt := (every_node_iff.mp hnode).2
  -- the record that gave its children away stays in place, childless
  have hrest : ∀ u ∈ d.fill [node hr K], u.Every (Node.Proper p.failure.slot) true := by
    rw [hd]
    exact every_fill_congr hK.proper fun he =>
      every_node_iff.mpr ⟨he.head.withChildren_zero, by simp⟩
  obtain ⟨hdE, hnode'⟩ := Ctx.every_fill_iff.mp hrest
  obtain ⟨hhr, hK'⟩ := every_node_iff.mp (hnode' _ (List.mem_singleton_self _))
  refine ⟨p', _, hrun, hK.step hst.follows id hS' (ho hK.owed) ?_ hK.failure_owed, hst⟩
  refine Ctx.every_fill_iff.mpr ⟨hdE, fun u hu => ?_⟩
  rw [List.mem_singleton.mp hu]
  refine every_node_iff.mpr ⟨hhr.withChildren hkr _, fun k hk => ?_⟩
  simp only [List.mem_append] at hk
  rcases hk with (hk | hk) | hk
  · exact hK' k (List.mem_of_mem_take hk)
  · exact hkt k hk
  · exact hK' k (List.mem_of_mem_drop hk)

theorem Frame.EveryAll.sides {Q : Bool → Node → Prop} :
    ∀ {fs : List Frame}, Frame.EveryAll Q fs →
      ∀ g ∈ fs, (∀ t ∈ g.left, t.Every Q false) ∧ ∀ t ∈ g.right, t.Every Q false
  | [], _, g, hg => nomatch hg
  | _ :: _, ⟨_, hl, hr, hgs⟩, g, hg => by
    rcases List.mem_cons.mp hg with rfl | hg
    · exact ⟨hl, hr⟩
    · exact Frame.EveryAll.sides hgs g hg

/-- The records of the chain above a record that is no failure are no failure: they have
children. -/
theorem Kept.chain_kinds {c : Ctx} {h : Node} {ks : List Tree} (hK : p.Kept w (c.fill [node h ks]))
    (hk : h.kind ≠ failureKind) :
    ∀ a ∈ c.chain h, a.kind ≠ failureKind ∧ ∃ r, a.Proper p.failure.slot r := by
  have hwf := (Ctx.wf_fill_iff.mp hK.sound.wf).1.1
  have hchildren : ∀ {fs : List Frame} {n : Nat}, 0 < n → Frame.WfAll fs n →
      ∀ g ∈ fs, g.head.children ≠ 0 := by
    intro fs
    induction fs with
    | nil => intro _ _ _ g hg; cases hg
    | cons g gs ih =>
      rintro n hn ⟨hg, hgs⟩ g' hg'
      rcases List.mem_cons.mp hg' with rfl | hg'
      · rw [hg.1]
        omega
      · exact ih Nat.one_pos hgs g' hg'
  intro a ha
  rcases List.mem_cons.mp ha with rfl | ha
  · exact ⟨hk, proper_of_mem_layout hK.proper (by rw [Ctx.layout_fill]; simp)⟩
  · obtain ⟨g, hg, rfl⟩ := List.mem_map.mp ha
    obtain ⟨r, hP⟩ := proper_of_mem_layout hK.proper (Ctx.head_mem_layout_fill hg _)
    exact ⟨hP.kind_ne_of_children (hchildren Nat.one_pos hwf g hg), r, hP⟩

/-- What degrading leaves below the failure record is proper as roots. -/
theorem Degraded.every_proper {as : List Node} {ks : List Tree} {u : Tree}
    (hd : Degraded as ks u) (hks : ∀ k ∈ ks, k.Every (Node.Proper f) false)
    (has : ∀ a ∈ as, a.kind ≠ failureKind ∧ ∃ r, a.Proper f r) : u.Every (Node.Proper f) true := by
  rcases hd with ⟨k, hk, v, hv, hr⟩ | ⟨a, ha, n, rfl⟩
  · have hrem : Remains k [u] := fun u' hu' => by
      rw [List.mem_singleton.mp hu']
      exact ⟨v, hv, hr⟩
    exact hrem.every Node.Proper.lasting (every_toRoot (hks k hk)) u (List.mem_singleton_self _)
  · obtain ⟨hka, r, hP⟩ := has a ha
    exact every_node_iff.mpr ⟨hP.failed hka n, by simp⟩

/-- Degrading a record that is no failure keeps the invariant: the outermost record of its chain
is a failure root in place, and what survives below is new roots. Apart from the notices it
logs, it only frees slots owed nothing. -/
theorem Kept.degrade {c : Ctx} {h : Node} {ks : List Tree} (hK : p.Kept w (c.fill [node h ks]))
    (hk : h.kind ≠ failureKind) :
    ∃ p' ts', (degrade h.slot).run p = .ok () p' ∧ p'.Kept w ts' ∧
      p.Steps (fun s => w s = 0) { p' with journal := p.journal } := by
  have hchain := hK.chain_kinds hk
  obtain ⟨p', S, hrun, hS', ho, hdeg, -, hst⟩ :=
    degrade_spec hK.sound fun a ha => (hchain a ha).1
  have hf : p.Follows (fun s => w s = 0) p' := by
    have := hst.follows
    exact ⟨this.failure_eq, this.size_eq, this.kept⟩
  obtain ⟨⟨hup, hl, hr⟩, hnode⟩ := Ctx.every_fill_iff.mp hK.proper
  have hks := (every_node_iff.mp (hnode _ (List.mem_singleton_self _))).2
  have hhang : ∀ k ∈ c.hanging ks, k.Every (Node.Proper p.failure.slot) false := by
    intro k hk'
    rcases List.mem_append.mp hk' with hk' | hk'
    · exact hks k hk'
    · obtain ⟨g, hg, hk'⟩ := List.mem_flatMap.mp hk'
      rcases List.mem_append.mp hk' with hk' | hk'
      · exact (Frame.EveryAll.sides hup g hg).1 k hk'
      · exact (Frame.EveryAll.sides hup g hg).2 k hk'
  obtain ⟨hko, r, hPo⟩ := hchain _ List.getLastD_mem_cons
  refine ⟨p', _, hrun, hK.step hf hK.not_freed hS' (ho hK.owed) ?_ hK.failure_owed, hst⟩
  intro u hu
  simp only [List.mem_append, List.mem_cons] at hu
  rcases hu with hu | rfl | hu | hu
  · exact hl u hu
  · exact every_node_iff.mpr ⟨hPo.failed hko _, by simp⟩
  · exact hr u hu
  · exact (hdeg u hu).every_proper hhang fun a ha => hchain a ((List.dropLast_prefix _).subset ha)

theorem Kept.moveRoot {L R A B : List Tree} {T U : Tree} (hK : p.Kept w (L ++ T :: R))
    (hsplit : (Ctx.top A B).fill [U] = L ++ R) :
    ∃ n p', (move (p.position U.head.slot) (p.position T.head.slot)
        (p.nodes.subtreeEnd (p.position T.head.slot) - p.position T.head.slot)).run p = .ok n p' ∧
      p'.Kept w (A ++ T :: U :: B) ∧ p.Steps (fun _ => False) p' := by
  obtain ⟨n, p', hrun, hS', ho, hst⟩ := moveRoot_spec hK.sound hsplit
  refine ⟨n, p', hrun, hK.step hst.follows id hS' (ho hK.owed) ?_ hK.failure_owed, hst⟩
  have hmem : ∀ t ∈ A ++ U :: B, t ∈ L ++ R := by
    intro t ht
    rw [← hsplit, Ctx.top_fill]
    simpa using ht
  intro t ht
  apply hK.proper
  simp only [List.mem_append, List.mem_cons] at ht ⊢
  rcases ht with ht | rfl | rfl | ht
  · rcases List.mem_append.mp (hmem t (by simp [ht])) with h | h <;> simp [h]
  · simp
  · rcases List.mem_append.mp (hmem t (by simp)) with h | h <;> simp [h]
  · rcases List.mem_append.mp (hmem t (by simp [ht])) with h | h <;> simp [h]

end Editing

end Pool

end TreeArena
