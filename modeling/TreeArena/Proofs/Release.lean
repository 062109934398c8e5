import TreeArena.Proofs.Placement
import TreeArena.Proofs.Records
import TreeArena.Pool.Ownership

/-!
# Retaining, detaching and releasing

`Pool.Sound p w ts`: the pool lays out the forest `ts`, whose counts are right and whose records
hold their units, `w s` owed to slot `s` besides parent edges. The ownership primitives keep it:
`retain` owes one more unit to its slot (`retain_spec`), `detach` turns a child subtree into the
last root, which keeps its edge's unit in transit (`detach_spec`), and giving back a unit either
leaves the record with one unit fewer or reclaims a root that held only that unit
(`releaseWithin_spec`, the outcomes in `Released`): its children are detached and released in
turn, so a child owned elsewhere survives as a new root, and its record is cut out.

Destruction nests two levels of fuel per level of the subtree, so twice its records suffice
(`releasesLast_releaseWithin`), and the depth `Pool.release` supplies covers any subtree
(`release_spec`). Only slots owed nothing are freed, each with its generation bumped once
(`Pool.Steps`, `SlotTable.Frees`), and every subtree that survives as a new root is owed a unit
(`RootsOwed`).
-/

namespace TreeArena

/-! ### Running state operations -/

section Run

variable {σ α β : Type}

theorem run_get_bind (f : σ → EStateM Fault σ α) (p : σ) : (get >>= f).run p = (f p).run p := rfl

theorem run_bind_ok {x : EStateM Fault σ α} {f : α → EStateM Fault σ β} {p p' : σ} {a : α}
    (h : x.run p = .ok a p') : (x >>= f).run p = (f a).run p' := by
  rw [EStateM.run_bind, h]

theorem run_bind_error {x : EStateM Fault σ α} {f : α → EStateM Fault σ β} {p p' : σ} {e : Fault}
    (h : x.run p = .error e p') : (x >>= f).run p = .error e p' := by
  rw [EStateM.run_bind, h]

theorem run_modify_bind (g : σ → σ) (f : Unit → EStateM Fault σ α) (p : σ) :
    (modify g >>= f).run p = (f ()).run (g p) := rfl

end Run

/-! ### Freeing slots -/

namespace SlotTable

/-- `t'` is `t` with some slots in use freed, each one satisfying `P` and its generation bumped
once; apart from that only positions change. -/
structure Frees (P : Nat → Prop) (t t' : SlotTable) : Prop where
  size_eq : t'.size = t.size
  hint_eq : t'.hint = t.hint
  generations_size : t'.generations.size = t.generations.size
  slot : ∀ s, (t'.isFree s = t.isFree s ∧ t'.generation s = t.generation s) ∨
    (P s ∧ t.isFree s = false ∧ t'.isFree s = true ∧
      t'.generation s = (t.generation s + 1) % halfWord)

variable {P Q : Nat → Prop}

theorem Frees.refl (P : Nat → Prop) (t : SlotTable) : t.Frees P t :=
  ⟨rfl, rfl, rfl, fun _ => .inl ⟨rfl, rfl⟩⟩

theorem Frees.trans {t t' t'' : SlotTable} (h : t.Frees P t') (h' : t'.Frees P t'') :
    t.Frees P t'' := by
  refine ⟨h'.size_eq.trans h.size_eq, h'.hint_eq.trans h.hint_eq,
    h'.generations_size.trans h.generations_size, fun s => ?_⟩
  rcases h.slot s with ⟨f1, g1⟩ | ⟨hp, f0, f1, g1⟩ <;>
    rcases h'.slot s with ⟨f2, g2⟩ | ⟨hp', f1', f2, g2⟩
  · exact .inl ⟨f2.trans f1, g2.trans g1⟩
  · exact .inr ⟨hp', f1 ▸ f1', f2, by rw [g2, g1]⟩
  · exact .inr ⟨hp, f0, f2.trans f1, g2.trans g1⟩
  · rw [f1] at f1'; cases f1'

theorem Frees.mono {t t' : SlotTable} (h : t.Frees P t') (hPQ : ∀ s, P s → Q s) : t.Frees Q t' :=
  ⟨h.size_eq, h.hint_eq, h.generations_size, fun s =>
    (h.slot s).imp id fun ⟨hp, rest⟩ => ⟨hPQ s hp, rest⟩⟩

theorem Frees.kept {t t' : SlotTable} (h : t.Frees P t') {s : Nat} (hs : t.isFree s = false)
    (hP : ¬ P s) : t'.isFree s = false ∧ t'.generation s = t.generation s := by
  rcases h.slot s with ⟨f, g⟩ | ⟨hp, -⟩
  · exact ⟨f.trans hs, g⟩
  · exact absurd hp hP

theorem Frees.of_repoints {t t' : SlotTable} (hr : t.Repoints t')
    (hfree : ∀ s, t'.isFree s = t.isFree s) : t.Frees P t' :=
  ⟨hr.size_eq, hr.hint_eq, by rw [hr.generations_eq],
    fun s => .inl ⟨hfree s, by simp [generation, hr.generations_eq]⟩⟩

theorem Locates.isFree_iff_not_mem {t : SlotTable} {l : List Node} (h : t.Locates l) (s : Nat) :
    t.isFree s = true ↔ s ∉ l.map Node.slot := by
  rw [h.isFree_iff]
  simp

theorem Frees.of_locates {t t' : SlotTable} (hr : t.Repoints t') {l l' : List Node}
    (hl : t.Locates l) (hl' : t'.Locates l') (hperm : (l'.map Node.slot).Perm (l.map Node.slot)) :
    t.Frees P t' := by
  refine Frees.of_repoints hr fun s => Bool.eq_iff_iff.mpr ?_
  rw [hl.isFree_iff_not_mem, hl'.isFree_iff_not_mem, hperm.mem_iff]

theorem frees_release {t : SlotTable} (hg : t.generations.size = t.size) {s : Nat}
    (hs : t.isFree s = false) (hP : P s) : t.Frees P (t.release s) := by
  refine ⟨size_release t s, by unfold release; split <;> rfl, generations_size_release t s,
    fun s' => ?_⟩
  by_cases h : s = s'
  · subst h
    refine .inr ⟨hP, hs, by simp [isFree, position_release], ?_⟩
    rw [generation_release hg, if_pos ⟨rfl, hs⟩]
  · refine .inl ⟨by simp [isFree, position_release, h], ?_⟩
    rw [generation_release hg, if_neg (fun h' => h h'.1)]

/-- Freeing the slot of a record and then locating the records without it frees that slot. -/
theorem frees_erase {t t' : SlotTable} {A Z l' : List Node} {x : Node}
    (hl : t.Locates (A ++ x :: Z)) (hg : t.generations.size = t.size)
    (hr : (t.release x.slot).Repoints t') (hl' : t'.Locates l')
    (hperm : (l'.map Node.slot).Perm ((A ++ Z).map Node.slot)) (hP : P x.slot) : t.Frees P t' := by
  have hnd := hl.nodup
  simp only [List.map_append, List.map_cons, List.nodup_append, List.nodup_cons] at hnd
  have hx : t.isFree x.slot = false := by
    rw [Bool.eq_false_iff, ne_eq, hl.isFree_iff_not_mem]
    simp
  refine (frees_release hg hx hP).trans (Frees.of_repoints hr fun y => Bool.eq_iff_iff.mpr ?_)
  rw [hl'.isFree_iff_not_mem, hperm.mem_iff]
  by_cases hy : x.slot = y
  · subst hy
    simp only [isFree, position_release, if_true, Option.isNone_none, iff_true]
    simp only [List.map_append, List.mem_append, not_or]
    exact ⟨fun h => hnd.2.2 _ h _ (List.mem_cons_self ..) rfl, hnd.2.1.1⟩
  · rw [isFree, position_release, if_neg hy, ← isFree, hl.isFree_iff_not_mem]
    simp only [List.map_append, List.map_cons, List.mem_append, List.mem_cons, not_or]
    exact ⟨fun h => ⟨h.1, fun h' => hy h'.symm, h.2⟩, fun h => ⟨h.1, h.2.2⟩⟩

end SlotTable

namespace Pool

open TreeArena.Tree SlotTable

variable {P Q : Nat → Prop}

/-- `p'` is `p` with its arena rearranged or cut and some slots satisfying `P` freed; nothing
else changes. -/
def Steps (P : Nat → Prop) (p p' : Pool) : Prop :=
  ∃ (a : Arena) (t : SlotTable), p' = { p with nodes := a, slots := t } ∧ p.slots.Frees P t

theorem Steps.refl (P : Nat → Prop) (p : Pool) : p.Steps P p :=
  ⟨p.nodes, p.slots, rfl, Frees.refl P _⟩

theorem Steps.nodes (P : Nat → Prop) (p : Pool) (a : Arena) : p.Steps P { p with nodes := a } :=
  ⟨a, p.slots, rfl, Frees.refl P _⟩

theorem Steps.trans {p p' p'' : Pool} (h : p.Steps P p') (h' : p'.Steps P p'') : p.Steps P p'' := by
  obtain ⟨a, t, rfl, hf⟩ := h
  obtain ⟨a', t', rfl, hf'⟩ := h'
  exact ⟨a', t', rfl, hf.trans hf'⟩

theorem Steps.mono {p p' : Pool} (h : p.Steps P p') (hPQ : ∀ s, P s → Q s) : p.Steps Q p' := by
  obtain ⟨a, t, rfl, hf⟩ := h
  exact ⟨a, t, rfl, hf.mono hPQ⟩

theorem Steps.frees {p p' : Pool} (h : p.Steps P p') : p.slots.Frees P p'.slots := by
  obtain ⟨a, t, rfl, hf⟩ := h
  exact hf

theorem Steps.journal_eq {p p' : Pool} (h : p.Steps P p') : p'.journal = p.journal := by
  obtain ⟨a, t, rfl, -⟩ := h
  rfl

/-- The pool lays out a forest whose counts are right and whose records hold their units, in a
table of at most `maxSlots` slots that keeps a generation for each. -/
structure Sound (p : Pool) (w : Nat → Nat) (ts : List Tree) : Prop where
  laid : p.Laid ts
  wf : ∀ t ∈ ts, t.Wf
  held : ∀ t ∈ ts, t.Held w true
  cap : p.slots.size ≤ maxSlots
  gens : p.slots.generations.size = p.slots.size

variable {p : Pool} {w : Nat → Nat}

theorem Sound.of_nodes_slots {p' : Pool} {ts : List Tree} (hS : p.Sound w ts)
    (hn : p'.nodes = p.nodes) (hs : p'.slots = p.slots) : p'.Sound w ts := by
  obtain ⟨⟨hl, hloc⟩, hw, hh, hc, hg⟩ := hS
  exact ⟨⟨hn ▸ hl, by rw [hn, hs]; exact hloc⟩, hw, hh, hs ▸ hc, hs ▸ hg⟩

/-- The record at a hole: where it sits, what follows it, and its children count. -/
theorem Sound.toList_eq {c : Ctx} {h : Node} {ks : List Tree} (hS : p.Sound w (c.fill [node h ks])) :
    p.nodes.toList = c.before ++ h :: (layout ks ++ c.after) := by
  rw [← hS.laid.layout_eq, Ctx.layout_fill]
  simp

theorem Sound.wf_fill {c : Ctx} {t : Tree} (hS : p.Sound w (c.fill [t])) : t.Wf :=
  (Ctx.wf_fill_iff.mp hS.wf).2 t (List.mem_singleton_self _)

theorem Sound.held_fill {c : Ctx} {t : Tree} (hS : p.Sound w (c.fill [t])) :
    t.Held w c.up.isEmpty :=
  (Ctx.held_fill_iff.mp hS.held).2 t (List.mem_singleton_self _)

theorem Sound.children_eq {c : Ctx} {h : Node} {ks : List Tree}
    (hS : p.Sound w (c.fill [node h ks])) : h.children = ks.length :=
  (wf_node_iff.mp hS.wf_fill).1

/-! ### Distinct slots -/

theorem Laid.nodup {p : Pool} {ts : List Tree} (h : p.Laid ts) :
    ((layout ts).map Node.slot).Nodup := by
  rw [h.layout_eq]
  exact h.locates.nodup

theorem slot_ne_of_nodup_append {l₁ l₂ : List Node} (h : ((l₁ ++ l₂).map Node.slot).Nodup)
    {x y : Node} (hx : x ∈ l₁) (hy : y ∈ l₂) : x.slot ≠ y.slot := by
  rw [List.map_append, List.nodup_append] at h
  exact h.2.2 _ (List.mem_map_of_mem hx) _ (List.mem_map_of_mem hy)

/-- In a forest with distinct slots, the root of the subtree at a hole carries a slot that no
other record carries. -/
theorem slot_ne_of_fill {c : Ctx} {h : Node} {ks : List Tree}
    (hnd : ((layout (c.fill [node h ks])).map Node.slot).Nodup) :
    (∀ nd ∈ layout ks, nd.slot ≠ h.slot) ∧ ∀ nd ∈ layout (c.fill []), nd.slot ≠ h.slot := by
  rw [Ctx.layout_fill] at hnd
  simp only [layout_cons, records_node, layout_nil, List.append_nil] at hnd
  have hnd' : ((h :: (layout ks ++ c.before ++ c.after)).map Node.slot).Nodup := by
    apply (List.Perm.nodup_iff _).mp hnd
    apply List.Perm.map
    simp only [List.append_assoc, List.cons_append]
    exact List.perm_middle.trans (List.Perm.cons _ (by
      rw [← List.append_assoc, ← List.append_assoc]
      exact List.Perm.append_right _ List.perm_append_comm))
  rw [List.map_cons, List.nodup_cons] at hnd'
  refine ⟨fun nd hnd hs => hnd'.1 ?_, fun nd hnd hs => hnd'.1 ?_⟩
  · rw [← hs]; exact List.mem_map_of_mem (by simp [hnd])
  · rw [Ctx.layout_fill] at hnd
    simp only [layout_nil, List.append_nil] at hnd
    rw [← hs]
    exact List.mem_map_of_mem (by simp only [List.mem_append] at hnd ⊢; tauto)

/-! ### Moving subtrees -/

theorem Laid.move_fill_frees {c₁ c₂ : Ctx} {us : List Tree} (h : p.Laid (c₁.fill us))
    (hus : layout us ≠ []) (hc : c₂.fill [] = c₁.fill []) {dst : Nat}
    (hland : landing dst c₁.pos (layout us).length = c₂.pos)
    (hdst : dst ≤ c₁.pos ∨ c₁.pos + (layout us).length ≤ dst ∧ dst ≤ p.nodes.size) :
    ∃ (a : Arena) (t : SlotTable), (move dst c₁.pos (layout us).length).run p =
        .ok c₂.pos { p with nodes := a, slots := t } ∧
      ({ p with nodes := a, slots := t } : Pool).Laid (c₂.fill us) ∧
      p.slots.Frees (fun _ => False) t := by
  obtain ⟨a, t, hmove, hlaid, hrep⟩ := h.move_fill hus hc hland hdst
  have hperm : a.toList.Perm p.nodes.toList := by
    rw [← hlaid.layout_eq, ← h.layout_eq]
    exact Ctx.perm_layout_fill hc us
  exact ⟨a, t, hmove, hlaid, Frees.of_locates hrep h.locates hlaid.locates (hperm.map Node.slot)⟩

/-- Moving the block of the subtree at a hole to the end of the arena makes it the last root;
nothing is freed. -/
theorem Laid.move_to_end {c : Ctx} {u : Tree} (h : p.Laid (c.fill [u])) (hu : u.Wf) :
    ∃ (n : Nat) (a : Arena) (t : SlotTable),
      (move p.nodes.size c.pos (p.nodes.subtreeEnd c.pos - c.pos)).run p =
        .ok n { p with nodes := a, slots := t } ∧
      ({ p with nodes := a, slots := t } : Pool).Laid (c.fill [] ++ [u]) ∧
      p.slots.Frees (fun _ => False) t := by
  have hl : p.nodes.toList = c.before ++ u.records ++ c.after := by
    rw [← h.layout_eq, Ctx.layout_fill, layout_singleton]
  have hlen : (layout [u]).length = u.size := by rw [layout_singleton]; rfl
  have hend : p.nodes.subtreeEnd c.pos = c.pos + u.size := Arena.subtreeEnd_records hl hu
  have hsize : p.nodes.size = c.pos + u.size + c.after.length := by
    rw [← Array.length_toList, hl]; simp [Ctx.pos, Tree.size]; omega
  -- the block lands behind the forest left without it
  have hland : landing p.nodes.size c.pos (layout [u]).length = (Ctx.top (c.fill []) []).pos := by
    have := u.size_pos
    rw [Ctx.top_pos, hlen, landing, if_neg (by omega), hsize, Ctx.layout_fill]
    simp only [layout_nil, List.append_nil, List.length_append]
    unfold Ctx.pos
    omega
  have htop : (Ctx.top (c.fill []) []).fill [] = c.fill [] := by simp [Ctx.top_fill]
  obtain ⟨a, t, hmove, hlaid, hfree⟩ := h.move_fill_frees (by simp [records_eq]) htop hland
    (.inr ⟨by rw [hlen]; omega, Nat.le_refl _⟩)
  refine ⟨(Ctx.top (c.fill []) []).pos, a, t, ?_, by simpa [Ctx.top_fill] using hlaid, hfree⟩
  rw [hend, show c.pos + u.size - c.pos = (layout [u]).length by omega]
  exact hmove

end Pool

namespace Tree

variable {w w' : Nat → Nat}

theorem Held.congr_pinned {root : Bool} {t : Tree} (h : Held w root t)
    (hw : ∀ nd ∈ t.records, nd.pinned = false → w' nd.slot = w nd.slot) : Held w' root t := by
  induction h with
  | @node hd ks r hh _ ih =>
    refine .node ?_ fun t ht => ih t ht fun nd hnd => hw nd ?_
    · unfold Node.Holds at hh ⊢
      cases hp : hd.pinned
      · rw [hw hd (by simp) hp]; simpa [hp] using hh
      · exact .inl rfl
    · simp only [records_node, List.mem_cons]
      exact .inr (mem_layout_of_mem ht hnd)

theorem held_congr_pinned_layout {root : Bool} {ts : List Tree} (h : ∀ t ∈ ts, Held w root t)
    (hw : ∀ nd ∈ layout ts, nd.pinned = false → w' nd.slot = w nd.slot) :
    ∀ t ∈ ts, Held w' root t :=
  fun t ht => (h t ht).congr_pinned fun nd hnd => hw nd (mem_layout_of_mem ht hnd)

theorem Ctx.Held.congr {c : Ctx} (h : c.Held w)
    (hw : ∀ nd ∈ layout (c.fill []), nd.pinned = false → w' nd.slot = w nd.slot) : c.Held w' := by
  rw [Ctx.held_iff_fill_nil] at h ⊢
  exact held_congr_pinned_layout h hw

mutual

/-- What remains of a root once it gives back one unit: a pinned root stays as it is, a root
holding more keeps one unit fewer, and a root holding only that unit is reclaimed, each of its
children giving back its edge's unit in turn. -/
def dropUnit : Tree → List Tree
  | node h ks =>
    if h.pinned then [node h ks]
    else if h.retain = 1 then dropUnitAll ks
    else [node { h with retain := h.retain - 1 } ks]

/-- What remains of consecutive roots once each gives back one unit, first to last. -/
def dropUnitAll : List Tree → List Tree
  | [] => []
  | t :: ts => dropUnit t ++ dropUnitAll ts

end

theorem dropUnit_of_pinned {h : Node} (ks : List Tree) (hp : h.pinned = true) :
    (node h ks).dropUnit = [node h ks] := by
  rw [dropUnit, if_pos hp]

theorem dropUnit_of_ne_one {h : Node} (ks : List Tree) (hp : h.pinned = false) (hone : h.retain ≠ 1) :
    (node h ks).dropUnit = [node { h with retain := h.retain - 1 } ks] := by
  rw [dropUnit, if_neg (by simp [hp]), if_neg hone]

theorem dropUnit_of_one {h : Node} (ks : List Tree) (hp : h.pinned = false) (hone : h.retain = 1) :
    (node h ks).dropUnit = dropUnitAll ks := by
  rw [dropUnit, if_neg (by simp [hp]), if_pos hone]

@[simp] theorem dropUnitAll_nil : dropUnitAll [] = [] := by
  rw [dropUnitAll]

@[simp] theorem dropUnitAll_cons (t : Tree) (ts : List Tree) :
    dropUnitAll (t :: ts) = t.dropUnit ++ dropUnitAll ts := by
  rw [dropUnitAll]

end Tree

namespace Pool

open TreeArena.Tree SlotTable

variable {p : Pool} {w : Nat → Nat}

/-- Rewriting the root record of the subtree at a hole, keeping its slot and children count, when
the new record holds what it should. Units owed to other records must not change. -/
theorem Sound.modify_fill {c : Ctx} {h : Node} {ks : List Tree} (hS : p.Sound w (c.fill [node h ks]))
    (f : Node → Node) (hf : ∀ nd, (f nd).slot = nd.slot) (hfc : (f h).children = h.children)
    {w' : Nat → Nat} (hhold : (f h).Holds w' c.up.isEmpty)
    (hw : ∀ nd ∈ layout (c.fill [node h ks]), nd.slot ≠ h.slot → w' nd.slot = w nd.slot) :
    ({ p with nodes := p.nodes.modify c.pos f } : Pool).Sound w' (c.fill [node (f h) ks]) := by
  have hnd := slot_ne_of_fill hS.laid.nodup
  have hmem : ∀ nd ∈ layout (c.fill []), nd ∈ layout (c.fill [node h ks]) := by
    intro nd hn
    rw [Ctx.layout_fill] at hn ⊢
    simp only [layout_nil, List.append_nil, List.mem_append] at hn ⊢
    tauto
  have hks : ∀ nd ∈ layout ks, nd ∈ layout (c.fill [node h ks]) := by
    intro nd hn
    rw [Ctx.layout_fill]
    simp [hn]
  obtain ⟨hcw, hw1⟩ := Ctx.wf_fill_iff.mp hS.wf
  obtain ⟨hch, hw2⟩ := Ctx.held_fill_iff.mp hS.held
  have hwn := hw1 _ (List.mem_singleton_self _)
  have hhn := hw2 _ (List.mem_singleton_self _)
  rw [wf_node_iff] at hwn
  rw [held_node_iff] at hhn
  refine ⟨hS.laid.modify_fill f hf, Ctx.wf_fill_iff.mpr ⟨hcw, ?_⟩,
    Ctx.held_fill_iff.mpr ⟨hch.congr fun nd hn _ => hw nd (hmem nd hn) (hnd.2 nd hn), ?_⟩, hS.cap,
    hS.gens⟩
  · rintro t ht
    rw [List.mem_singleton] at ht
    subst ht
    exact wf_node_iff.mpr ⟨by rw [hfc]; exact hwn.1, hwn.2⟩
  · rintro t ht
    rw [List.mem_singleton] at ht
    subst ht
    exact held_node_iff.mpr ⟨hhold, held_congr_layout hhn.2 fun nd hn =>
      hw nd (hks nd hn) (hnd.1 nd hn)⟩

/-- Units owed to a pinned record at a hole do not matter: no other record carries its slot. -/
theorem Sound.congr_pinned {c : Ctx} {h : Node} {ks : List Tree}
    (hS : p.Sound w (c.fill [node h ks])) (hp : h.pinned = true) {w' : Nat → Nat}
    (hw : ∀ x, x ≠ h.slot → w' x = w x) : p.Sound w' (c.fill [node h ks]) := by
  have hnd := slot_ne_of_fill hS.laid.nodup
  refine ⟨hS.laid, hS.wf, held_congr_pinned_layout hS.held fun nd hn hnp => hw _ fun heq => ?_,
    hS.cap, hS.gens⟩
  rw [Ctx.layout_fill] at hn
  simp only [layout_cons, records_node, layout_nil, List.append_nil, List.mem_append,
    List.mem_cons] at hn
  rcases hn with (hn | rfl | hn) | hn
  · exact hnd.2 nd (by rw [Ctx.layout_fill]; simp [hn]) heq
  · rw [hp] at hnp; cases hnp
  · exact hnd.1 nd hn heq
  · exact hnd.2 nd (by rw [Ctx.layout_fill]; simp [hn]) heq

/-- Rewriting fields of the record at a hole that the accounting does not read. -/
theorem Sound.modify_fill_same {c : Ctx} {h : Node} {ks : List Tree}
    (hS : p.Sound w (c.fill [node h ks])) (f : Node → Node) (hf : ∀ nd, (f nd).slot = nd.slot)
    (hfc : (f h).children = h.children) (hp : (f h).pinned = h.pinned)
    (hr : (f h).retain = h.retain) :
    ({ p with nodes := p.nodes.modify c.pos f } : Pool).Sound w (c.fill [node (f h) ks]) := by
  refine hS.modify_fill f hf hfc ?_ fun _ _ _ => rfl
  have := (held_node_iff.mp hS.held_fill).1
  unfold Node.Holds at this ⊢
  rwa [hp, hr, hf]

/-! ### Retaining -/

/-- Retaining a record owes it one unit more; a full count is a fault that changes nothing, and a
pinned record is not counted. -/
theorem retain_spec {c : Ctx} {h : Node} {ks : List Tree} (hS : p.Sound w (c.fill [node h ks])) :
    (h.pinned = false ∧ h.retain = maxCount ∧
      (retain h.slot).run p = .error (.retainOverflow (p.slots.idOf h.slot)) p) ∨
    ∃ p', (retain h.slot).run p = .ok () p' ∧
      p'.Sound (addUnit w h.slot)
        (c.fill [node (if h.pinned then h else { h with retain := h.retain + 1 }) ks]) ∧
      p.Steps (fun _ => False) p' := by
  have hpos : p.position h.slot = c.pos := hS.laid.position_fill
  have hl : p.nodes.toList = c.before ++ h :: (layout ks ++ c.after) := by
    rw [← hS.laid.layout_eq, Ctx.layout_fill]; simp
  have hnd := slot_ne_of_fill hS.laid.nodup
  have hw : ∀ nd ∈ layout (c.fill [node h ks]), nd.slot ≠ h.slot →
      addUnit w h.slot nd.slot = w nd.slot := fun nd _ hne => addUnit_of_ne w hne
  have hpin : p.nodes.pinnedAt c.pos = h.pinned := Arena.pinnedAt_of_toList hl
  have hret : p.nodes.retainAt c.pos = h.retain := Arena.retainAt_of_toList hl
  rw [retain, run_get_bind, hpos]
  dsimp only
  rw [hpin, hret]
  cases hp : h.pinned
  · by_cases hmax : h.retain = maxCount
    · exact .inl ⟨rfl, hmax, by rw [if_neg (by simp), if_pos hmax]; rfl⟩
    · right
      rw [if_neg (by simp), if_neg hmax, run_setRetain]
      refine ⟨_, rfl, ?_, Steps.nodes _ _ _⟩
      have := hS.modify_fill (fun nd => { nd with retain := h.retain + 1 }) (fun _ => rfl) rfl
        ?_ hw
      · simpa [hp] using this
      · obtain ⟨_, hh⟩ := Ctx.held_fill_iff.mp hS.held
        have := (held_node_iff.mp (hh _ (List.mem_singleton_self _))).1
        unfold Node.Holds at this ⊢
        simp only [hp, Bool.false_eq_true, false_or, addUnit_self] at this ⊢
        omega
  · right
    refine ⟨p, by rw [if_pos rfl]; rfl, ?_, Steps.refl _ p⟩
    simp only [if_true]
    exact hS.congr_pinned hp fun x hx => addUnit_of_ne w hx

/-! ### Detaching -/

theorem Laid.length_le {ts : List Tree} (h : p.Laid ts) : (layout ts).length ≤ p.slots.size := by
  rw [h.layout_eq]
  exact h.locates.length_le

/-- A record has fewer children than the table has slots, so its count fits. -/
theorem Laid.length_kids_lt {c : Ctx} {h : Node} {ks : List Tree} (hl : p.Laid (c.fill [node h ks]))
    (hcap : p.slots.size ≤ maxSlots) : ks.length < maxCount := by
  have h1 := hl.length_le
  have h2 := length_le_layout ks
  rw [Ctx.layout_fill] at h1
  simp only [layout_cons, records_node, layout_nil, List.append_nil, List.length_append,
    List.length_cons] at h1
  unfold maxSlots at hcap
  unfold maxCount
  omega

/-- Detaching a child subtree moves it to the end of the arena as the last root, which keeps its
edge's unit in transit, and takes one from the parent's children count. -/
theorem detach_spec {d : Ctx} {h : Node} {L R : List Tree} {T : Tree}
    (hS : p.Sound w ((d.child h L R).fill [T])) :
    ∃ p', (detach h.slot T.head.slot).run p = .ok () p' ∧
      p'.Sound (addUnit w T.head.slot)
        ((d.appendRight [T]).fill [node { h with children := h.children - 1 } (L ++ R)]) ∧
      p.Steps (fun _ => False) p' := by
  let c := d.child h L R
  let f : Frame := ⟨h, L, R⟩
  let fs := d.up
  have hup : c.up = f :: fs := rfl
  change p.Sound w (c.fill [T]) at hS
  show ∃ p', (detach f.head.slot T.head.slot).run p = .ok () p' ∧
      p'.Sound (addUnit w T.head.slot)
        ((Ctx.mk fs c.left (c.right ++ [T])).fill
          [node { f.head with children := f.head.children - 1 } (f.left ++ f.right)]) ∧
      p.Steps (fun _ => False) p'
  obtain ⟨hcw, hTw⟩ := Ctx.wf_fill_iff.mp hS.wf
  obtain ⟨hch, hTh⟩ := Ctx.held_fill_iff.mp hS.held
  have hT : T.Wf := hTw T (List.mem_singleton_self _)
  have hf : f.Wf 1 ∧ Frame.WfAll fs 1 := by
    have := hcw.1
    rwa [hup] at this
  have hfc : f.head.children = f.left.length + 1 + f.right.length := hf.1.1
  -- the subtree moves to the end of the arena, behind the forest left without it
  obtain ⟨n, a, t, hmove, hlaid, hfree⟩ := hS.laid.move_to_end hT
  -- the parent record is now the root of the subtree in the hole `c'`
  let c' : Ctx := ⟨fs, c.left, c.right ++ [T]⟩
  have hfill : c.fill [] ++ [T] = c'.fill [node f.head (f.left ++ f.right)] := by
    simp [Ctx.fill, c', hup, Frame.closeAll, Frame.close]
  rw [hfill] at hlaid
  have hpar := hlaid.position_fill
  simp only [head_node] at hpar
  have hl₁ : a.toList = c'.before ++ f.head :: (layout (f.left ++ f.right) ++ c'.after) := by
    rw [← hlaid.layout_eq, Ctx.layout_fill]; simp
  have hcount : a.childrenAt c'.pos = f.head.children := Arena.childrenAt_of_toList hl₁
  -- the parent's children are records of the arena, so fewer than the table's slots
  have hbound : f.head.children ≤ maxCount := by
    have h3 : t.size ≤ maxSlots := hfree.size_eq ▸ hS.cap
    have := hlaid.length_kids_lt h3
    rw [List.length_append] at this
    omega
  have hpos : p.position T.head.slot = c.pos := hS.laid.position_fill
  have hrun : (detach f.head.slot T.head.slot).run p = .ok ()
      { p with
        nodes := a.modify c'.pos (fun nd => { nd with children := (↑f.head.children - 1 : Int).toNat })
        slots := t } := by
    rw [detach, run_get_bind]
    dsimp only
    rw [hpos, run_bind_ok hmove, run_get_bind]
    dsimp only
    rw [hpar, hcount, run_setChildren (by omega) (by omega)]
  refine ⟨_, hrun, ?_, ⟨_, t, rfl, hfree⟩⟩
  have hnd : (∀ nd ∈ layout T.kids, nd.slot ≠ T.head.slot) ∧
      ∀ nd ∈ layout (c.fill []), nd.slot ≠ T.head.slot :=
    slot_ne_of_fill (by rw [eta]; exact hS.laid.nodup)
  refine ⟨?_, ?_, ?_, ?_, ?_⟩
  · have := hlaid.modify_fill (fun nd => { nd with children := (↑f.head.children - 1 : Int).toNat })
      (fun _ => rfl)
    simpa [show (↑f.head.children - 1 : Int).toNat = f.head.children - 1 by omega] using this
  · refine Ctx.wf_fill_iff.mpr ⟨⟨hf.2, hcw.2.1, ?_⟩, ?_⟩
    · intro u hu
      rcases List.mem_append.mp hu with hu | hu
      · exact hcw.2.2 u hu
      · rw [List.mem_singleton] at hu; subst hu; exact hT
    · rintro u hu
      rw [List.mem_singleton] at hu
      subst hu
      refine wf_node_iff.mpr ⟨?_, fun v hv => ?_⟩
      · simp [hfc]
      · rcases List.mem_append.mp hv with hv | hv
        · exact hf.1.2.1 v hv
        · exact hf.1.2.2 v hv
  · -- the records left in place hold what they held; the subtree's root trades its edge's unit
    -- for one in transit
    let d : Ctx := ⟨fs, c.left, c.right⟩
    have hd : c.fill [] = d.fill [node f.head (f.left ++ f.right)] := by
      simp [Ctx.fill, d, hup, Frame.closeAll, Frame.close]
    have hc' : ∀ x, c'.fill [x] = d.fill [x] ++ [T] := by
      intro x
      simp [Ctx.fill, c', d]
    have hrest : ∀ u ∈ d.fill [node f.head (f.left ++ f.right)], Held (addUnit w T.head.slot) true u := by
      rw [← hd]
      exact held_congr_layout (Ctx.held_iff_fill_nil.mp hch) fun nd hn => addUnit_of_ne w (hnd.2 nd hn)
    obtain ⟨hdh, hph⟩ := Ctx.held_fill_iff.mp hrest
    have hph' := held_node_iff.mp (hph _ (List.mem_singleton_self _))
    have hT' : Held (addUnit w T.head.slot) true T := by
      have h0 : Held w false (node T.head T.kids) := by
        rw [eta]
        rw [hup] at hTh
        exact hTh T (List.mem_singleton_self _)
      rw [← eta T]
      exact Held.reroot h0 hnd.1
    rw [hc']
    intro u hu
    rcases List.mem_append.mp hu with hu | hu
    · refine Ctx.held_fill_iff.mpr ⟨hdh, fun v hv => ?_⟩ u hu
      rw [List.mem_singleton] at hv
      subst hv
      exact held_node_iff.mpr hph'
    · rw [List.mem_singleton] at hu
      subst hu
      exact hT'
  · rw [hfree.size_eq]
    exact hS.cap
  · rw [hfree.generations_size, hfree.size_eq]
    exact hS.gens

/-! ### Dropping children -/

/-- A property of records that releasing keeps: it ignores the retain counts of records that
are not pinned, and a record that has it as a child has it as a root. -/
def Lasting (Q : Bool → Node → Prop) : Prop :=
  (∀ r nd n, nd.pinned = false → Q r nd → Q r { nd with retain := n }) ∧
    ∀ nd, Q false nd → Q true nd

/-- `S` is what remains of the root `T` once released: subtrees of `T`, each with its root's
retain count changed at most. -/
def Remains (T : Tree) (S : List Tree) : Prop :=
  ∀ u ∈ S, ∃ v, Sub v T ∧ Recounted v u

/-- `S` is what remains of the children `ks` once each is released. -/
def RemainsAll (ks S : List Tree) : Prop :=
  ∀ u ∈ S, ∃ k ∈ ks, ∃ v, Sub v k ∧ Recounted v u

theorem remainsAll_nil : RemainsAll [] [] := fun u hu => by cases hu

theorem RemainsAll.cons {K : Tree} {ks S₁ S₂ : List Tree} (h₁ : Remains K S₁)
    (h₂ : RemainsAll ks S₂) : RemainsAll (K :: ks) (S₁ ++ S₂) := by
  intro u hu
  rcases List.mem_append.mp hu with hu | hu
  · obtain ⟨v, hv, hr⟩ := h₁ u hu
    exact ⟨K, List.mem_cons_self .., v, hv, hr⟩
  · obtain ⟨k, hk, v, hv, hr⟩ := h₂ u hu
    exact ⟨k, List.mem_cons_of_mem _ hk, v, hv, hr⟩

theorem RemainsAll.freed {h : Node} {ks S : List Tree} (hS : RemainsAll ks S) :
    Remains (node h ks) S := by
  intro u hu
  obtain ⟨k, hk, v, hv, hr⟩ := hS u hu
  exact ⟨v, .kid hk hv, hr⟩

theorem remains_self (T : Tree) : Remains T [T] := by
  intro u hu
  rw [List.mem_singleton] at hu
  exact ⟨T, .refl T, .inl hu⟩

theorem remains_kept {h : Node} (ks : List Tree) (hp : h.pinned = false) (n : Nat) :
    Remains (node h ks) [node { h with retain := n } ks] := by
  intro u hu
  rw [List.mem_singleton] at hu
  exact ⟨node h ks, .refl _, .inr ⟨hp, n, hu⟩⟩

mutual

/-- What a root leaves once it gives back a unit are subtrees of it, recounted at most. -/
theorem remains_dropUnit : ∀ T : Tree, Remains T T.dropUnit
  | node h ks => by
    cases hp : h.pinned
    case true =>
      rw [dropUnit_of_pinned ks hp]
      exact remains_self _
    case false =>
      by_cases hone : h.retain = 1
      · rw [dropUnit_of_one ks hp hone]
        exact (remainsAll_dropUnitAll ks).freed
      · rw [dropUnit_of_ne_one ks hp hone]
        exact remains_kept ks hp _

theorem remainsAll_dropUnitAll : ∀ ks : List Tree, RemainsAll ks (dropUnitAll ks)
  | [] => by
    rw [dropUnitAll_nil]
    exact remainsAll_nil
  | K :: ks => by
    rw [dropUnitAll_cons]
    exact RemainsAll.cons (remains_dropUnit K) (remainsAll_dropUnitAll ks)

end

/-- Every lasting property of a released root's records holds of what remains of it. -/
theorem Remains.every {T : Tree} {S : List Tree} (hS : Remains T S) {Q : Bool → Node → Prop}
    (hQ : Lasting Q) (hT : Every Q true T) : ∀ u ∈ S, Every Q true u := by
  intro u hu
  obtain ⟨v, hv, hr⟩ := hS u hu
  -- a subtree below a child becomes a root
  have hv' : Every Q true v := by
    rcases hT.sub hv with h | h
    · exact h
    · rw [← eta v] at h ⊢
      exact h.reroot (hQ.2 _ h.head)
  rcases hr with rfl | ⟨hp, n, rfl⟩
  · exact hv'
  · rw [← eta v] at hv'
    obtain ⟨hh, hks⟩ := every_node_iff.mp hv'
    exact every_node_iff.mpr ⟨hQ.1 _ _ n hp hh, hks⟩

/-- `rel s` gives back the unit in transit of the last root of a forest, in slot `s`, when that
root's subtree has at most `n` records: the subtree is replaced by what remains of it once it
gives back that unit, subtrees whose roots are owed units, and only slots owed nothing are freed. -/
def ReleasesLast (rel : Nat → PoolM Unit) (n : Nat) : Prop :=
  ∀ (p : Pool) (w : Nat → Nat) (ts : List Tree) (T : Tree), T.size ≤ n →
    p.Sound (addUnit w T.head.slot) (ts ++ [T]) →
    ∃ p' S, (rel T.head.slot).run p = .ok () p' ∧ p'.Sound w (ts ++ S) ∧ RootsOwed w S ∧
      S = T.dropUnit ∧ p.Steps (fun s => w s = 0) p'

theorem Node.with_children_self {h : Node} {n : Nat} (hn : h.children = n) :
    { h with children := n } = h := by
  cases h
  subst hn
  rfl

/-- Dropping the children of the record at a hole: one by one, the first child is detached to
the end of the arena, keeping its edge's unit in transit, and released there by `rel`. What
survives of the children ends up after the forest. -/
theorem dropChildren_spec {rel : Nat → PoolM Unit} {n : Nat} (hrel : ReleasesLast rel n) :
    ∀ (bound : Nat) {p : Pool} {w : Nat → Nat} {c : Ctx} {h : Node} {ks : List Tree},
    p.Sound w (c.fill [node h ks]) → ks.length ≤ bound → (∀ k ∈ ks, k.size ≤ n) →
    ∃ p' S, (dropChildren rel h.slot bound).run p = .ok () p' ∧
      p'.Sound w ((c.appendRight S).fill [node { h with children := 0 } []]) ∧ RootsOwed w S ∧
      S = dropUnitAll ks ∧ p.Steps (fun s => w s = 0) p'
  | 0, p, w, c, h, ks, hS, hb, _ => by
    obtain rfl : ks = [] := List.eq_nil_of_length_eq_zero (by omega)
    have h0 : h.children = 0 := hS.children_eq
    refine ⟨p, [], rfl, ?_, rootsOwed_nil, dropUnitAll_nil.symm, Steps.refl _ p⟩
    rw [Ctx.appendRight_nil, Node.with_children_self h0]
    exact hS
  | bound + 1, p, w, c, h, ks, hS, hb, hn => by
    have hpos : p.position h.slot = c.pos := hS.laid.position_fill
    have hcount : p.nodes.childrenAt c.pos = ks.length :=
      (Arena.childrenAt_of_toList hS.toList_eq).trans hS.children_eq
    cases ks with
    | nil =>
      refine ⟨p, [], ?_, ?_, rootsOwed_nil, dropUnitAll_nil.symm, Steps.refl _ p⟩
      · rw [dropChildren, run_get_bind]
        dsimp only
        rw [hpos, hcount]
        rfl
      · have h0 : h.children = 0 := hS.children_eq
        rw [Ctx.appendRight_nil, Node.with_children_self h0]
        exact hS
    | cons K ks =>
      have hl : p.nodes.toList = c.before ++ h :: (K.records ++ (layout ks ++ c.after)) := by
        rw [hS.toList_eq, layout_cons, List.append_assoc]
      have hnext : p.nodes.next c.pos = c.pos + 1 := Arena.next_of_toList hl
      have hslot : p.nodes.slotAt (c.pos + 1) = K.head.slot := by
        have hl' : p.nodes.toList = (c.before ++ [h]) ++ K.head :: (layout K.kids ++
            (layout ks ++ c.after)) := by
          rw [hl, records_eq]; simp
        have := Arena.slotAt_of_toList hl'
        simpa [Ctx.pos] using this
      -- the first child goes to the end of the arena, then its unit in transit is given back
      obtain ⟨p₁, hrun₁, hS₁, hst₁⟩ := detach_spec (d := c) (L := []) (R := ks) (T := K) (by
        rw [Ctx.child_fill]; exact hS)
      rw [Ctx.appendRight_fill, List.nil_append] at hS₁
      obtain ⟨p₂, S₁, hrun₂, hS₂, hown₁, hrem₁, hst₂⟩ := hrel p₁ w _ K (hn K (by simp)) hS₁
      rw [← Ctx.appendRight_fill] at hS₂
      obtain ⟨p₃, S₂, hrun₃, hS₃, hown₂, hrem₂, hst₃⟩ := dropChildren_spec hrel bound hS₂
        (by simp at hb; omega) (fun k hk => hn k (by simp [hk]))
      refine ⟨p₃, S₁ ++ S₂, ?_, ?_, rootsOwed_append.mpr ⟨hown₁, hown₂⟩,
        by rw [hrem₁, hrem₂, dropUnitAll_cons], (hst₁.mono fun _ h => h.elim).trans (hst₂.trans hst₃)⟩
      · rw [dropChildren, run_get_bind]
        dsimp only
        rw [hpos, hcount, if_neg (by simp), hnext, hslot, run_bind_ok hrun₁, run_bind_ok hrun₂]
        exact hrun₃
      · rw [← Ctx.appendRight_appendRight]
        exact hS₃

/-! ### Reclaiming and releasing -/

/-- Cutting out a childless root owed nothing, once its slot is freed. -/
theorem Sound.excise_root {L R : List Tree} {h : Node} (hS : p.Sound w (L ++ node h [] :: R))
    (hw : w h.slot = 0) :
    ∃ p', (excise (layout L).length 1).run { p with slots := p.slots.release h.slot } = .ok () p' ∧
      p'.Sound w (L ++ R) ∧ p.Steps (fun s => w s = 0) p' := by
  have hl : layout (L ++ node h [] :: R) =
      ({ p with slots := p.slots.release h.slot } : Pool).nodes.toList := hS.laid.layout_eq
  obtain ⟨a, t, hrun, hlaid, hrep⟩ := Laid.excise_root hl hS.laid.locates rfl
  have hmem : ∀ u ∈ L ++ R, u ∈ L ++ node h [] :: R := by
    intro u hu
    simp only [List.mem_append, List.mem_cons] at hu ⊢
    tauto
  have hsize : t.size = p.slots.size := by rw [hrep.size_eq, size_release]
  refine ⟨_, hrun, ⟨hlaid, fun u hu => hS.wf u (hmem u hu), fun u hu => hS.held u (hmem u hu),
    ?_, ?_⟩, ⟨a, t, rfl, ?_⟩⟩
  · show t.size ≤ maxSlots
    rw [hsize]
    exact hS.cap
  · show t.generations.size = t.size
    rw [hrep.generations_eq, generations_size_release, hsize]
    exact hS.gens
  · have hl' : p.nodes.toList = layout L ++ h :: layout R := by
      rw [← hS.laid.layout_eq]
      simp
    have hloc := hS.laid.locates
    rw [hl'] at hloc
    have ha : a.toList = layout L ++ layout R := by
      rw [← show layout (L ++ R) = a.toList from hlaid.layout_eq, layout_append]
    exact frees_erase hloc hS.gens hrep hlaid.locates (by rw [ha]) hw

/-- Reclaiming a root owed nothing: its children are dropped, each released within `fuel`, so
what survives of them follows the forest; then its slot is freed and its record cut out. -/
theorem destroyWithin_spec {fuel n : Nat} (hrel : ReleasesLast (releaseWithin fuel) n)
    {L R : List Tree} {h : Node} {ks : List Tree} (hS : p.Sound w (L ++ node h ks :: R))
    (hw : w h.slot = 0) (hks : ∀ k ∈ ks, k.size ≤ n) :
    ∃ p' S, (destroyWithin (fuel + 1) h.slot).run p = .ok () p' ∧
      p'.Sound w (L ++ R ++ S) ∧ RootsOwed w S ∧ S = dropUnitAll ks ∧
      p.Steps (fun s => w s = 0) p' := by
  have hS' : p.Sound w ((Ctx.top L R).fill [node h ks]) := by
    rw [Ctx.top_fill]
    simpa using hS
  have hcount : p.nodes.childrenAt (p.position h.slot) = ks.length := by
    have hpos : p.position h.slot = (Ctx.top L R).pos := hS'.laid.position_fill
    rw [hpos]
    exact (Arena.childrenAt_of_toList hS'.toList_eq).trans hS'.children_eq
  obtain ⟨p₁, S, hrun₁, hS₁, hown, hrem, hst₁⟩ :=
    dropChildren_spec hrel ks.length hS' (Nat.le_refl _) hks
  -- the record, childless now, is the root right after `L`
  have hpos : p₁.position h.slot = (layout L).length := by
    have := hS₁.laid.position_fill
    simpa [Ctx.top_pos] using this
  rw [Ctx.appendRight_fill, Ctx.top_fill] at hS₁
  obtain ⟨p₂, hrun₂, hS₂, hst₂⟩ := Sound.excise_root (h := { h with children := 0 })
    (by simpa using hS₁) hw
  refine ⟨p₂, S, ?_, by simpa using hS₂, hown, hrem, hst₁.trans hst₂⟩
  rw [destroyWithin, run_get_bind]
  dsimp only
  rw [hcount, run_bind_ok hrun₁, run_get_bind]
  rw [hpos, run_modify_bind]
  exact hrun₂

/-- What giving back one unit of the record `h` at the hole `c` leaves, `w` being the units owed
after it: a pinned record is untouched; a record holding more than that unit keeps one fewer; a
root holding only that unit is reclaimed, and what survives of its children follows the forest. -/
def Released (p p' : Pool) (w : Nat → Nat) (c : Ctx) (h : Node) (ks : List Tree) : Prop :=
  (h.pinned = true ∧ p' = p) ∨
  (h.pinned = false ∧ h.retain ≠ 1 ∧
    p'.Sound w (c.fill [node { h with retain := h.retain - 1 } ks])) ∨
  (h.pinned = false ∧ h.retain = 1 ∧ c.up = [] ∧
    ∃ S, p'.Sound w (c.left ++ c.right ++ S) ∧ RootsOwed w S ∧ S = dropUnitAll ks)

/-- Giving back the unit in transit of the last root leaves the forest in front of it followed by
subtrees whose roots are owed units. -/
theorem Released.last {p' : Pool} {ts : List Tree} {h : Node} {ks : List Tree}
    (hS : p.Sound (addUnit w h.slot) (ts ++ [node h ks])) (hr : Released p p' w (Ctx.top ts []) h ks) :
    ∃ S, p'.Sound w (ts ++ S) ∧ RootsOwed w S ∧ S = (node h ks).dropUnit := by
  have hS' : p.Sound (addUnit w h.slot) ((Ctx.top ts []).fill [node h ks]) := by
    simpa [Ctx.top_fill] using hS
  rcases hr with ⟨hp, rfl⟩ | ⟨hp, hone, hS₁⟩ | ⟨hp, hone, -, S, hS₁, hown, hrem⟩
  · refine ⟨[node h ks], ?_, by simp [hp], (dropUnit_of_pinned ks hp).symm⟩
    have := hS'.congr_pinned hp fun x hx => (addUnit_of_ne w hx).symm
    simpa [Ctx.top_fill] using this
  · refine ⟨[node { h with retain := h.retain - 1 } ks], by simpa [Ctx.top_fill] using hS₁, ?_,
      (dropUnit_of_ne_one ks hp hone).symm⟩
    -- a root keeping a unit after giving one back is owed one
    have := (held_node_iff.mp (hS.held (node h ks) (by simp))).1
    unfold Node.Holds at this
    simp only [hp, Bool.false_eq_true, false_or, if_true, addUnit_self] at this
    simp only [rootsOwed_singleton, head_node]
    omega
  · exact ⟨S, by simpa [Ctx.top] using hS₁, hown, hrem.trans (dropUnit_of_one ks hp hone).symm⟩

/-- Giving back one unit of a record, with destruction nesting within `fuel + 1` below it. -/
theorem releaseWithin_spec_of {fuel n : Nat} (hrel : ReleasesLast (releaseWithin fuel) n)
    {c : Ctx} {h : Node} {ks : List Tree} (hS : p.Sound (addUnit w h.slot) (c.fill [node h ks]))
    (hks : ∀ k ∈ ks, k.size ≤ n) :
    ∃ p', (releaseWithin (fuel + 2) h.slot).run p = .ok () p' ∧ Released p p' w c h ks ∧
      p.Steps (fun s => w s = 0) p' := by
  have hpos : p.position h.slot = c.pos := hS.laid.position_fill
  have hpin : p.nodes.pinnedAt c.pos = h.pinned := Arena.pinnedAt_of_toList hS.toList_eq
  have hret : p.nodes.retainAt c.pos = h.retain := Arena.retainAt_of_toList hS.toList_eq
  rw [releaseWithin, run_get_bind]
  dsimp only
  rw [hpos, hpin, hret]
  cases hp : h.pinned
  case true => exact ⟨p, rfl, .inl ⟨hp, rfl⟩, Steps.refl _ p⟩
  case false =>
  -- the record holds its parent edge's unit, if any, the units owed to it, and the one given back
  have hholds : h.retain = (if c.up.isEmpty then 0 else 1) + w h.slot + 1 := by
    have := (held_node_iff.mp hS.held_fill).1
    unfold Node.Holds at this
    simp only [hp, Bool.false_eq_true, false_or, addUnit_self] at this
    omega
  have hlower : lower h.retain = h.retain - 1 := by
    unfold lower
    rw [if_neg (by omega)]
  have hS₁ := hS.modify_fill (fun nd => { nd with retain := h.retain - 1 }) (fun _ => rfl) rfl
    (by unfold Node.Holds; simp only [hp, Bool.false_eq_true, false_or]; omega)
    (fun nd _ hne => (addUnit_of_ne w hne).symm)
  rw [if_neg (by simp), hlower, run_bind_ok (run_setRetain _ _ _)]
  by_cases hone : h.retain = 1
  · -- only the unit given back was held: a root owed nothing, which is reclaimed
    have hup : c.up = [] := by
      cases hc : c.up
      · rfl
      · rw [hc] at hholds; simp at hholds; omega
    have hw0 : w h.slot = 0 := by rw [hup] at hholds; simp at hholds; omega
    rw [if_pos hone]
    have hfill : c.fill [node { h with retain := h.retain - 1 } ks] =
        c.left ++ node { h with retain := h.retain - 1 } ks :: c.right := by
      simp [Ctx.fill, hup, Frame.closeAll]
    rw [hfill] at hS₁
    obtain ⟨p', S, hrun, hS', hown, hrem, hst⟩ := destroyWithin_spec hrel hS₁ hw0 hks
    exact ⟨p', hrun, .inr (.inr ⟨hp, hone, hup, S, hS', hown, hrem⟩),
      (show p.Steps (fun s => w s = 0) _ from Steps.nodes _ _ _).trans hst⟩
  · rw [if_neg hone]
    exact ⟨_, rfl, .inr (.inl ⟨hp, hone, hS₁⟩), Steps.nodes _ _ _⟩

/-- Releasing the last root within `fuel` handles subtrees of up to `fuel / 2` records: each
level of destruction takes two. -/
theorem releasesLast_releaseWithin (fuel : Nat) : ReleasesLast (releaseWithin fuel) (fuel / 2) := by
  induction fuel using Nat.strongRecOn with
  | ind fuel ih =>
  intro p w ts T hT hS
  have := T.size_pos
  obtain ⟨f, rfl⟩ : ∃ f, fuel = f + 2 := ⟨fuel - 2, by omega⟩
  rw [← eta T] at hS hT ⊢
  have hS' : p.Sound (addUnit w T.head.slot) ((Ctx.top ts []).fill [node T.head T.kids]) := by
    simpa [Ctx.top_fill] using hS
  obtain ⟨p', hrun, hrel, hst⟩ := releaseWithin_spec_of (ih f (by omega)) hS' fun k hk => by
    have := size_lt_of_mem (h := T.head) hk
    omega
  obtain ⟨S, hS', hown, hrem⟩ := hrel.last hS
  exact ⟨p', S, hrun, hS', hown, hrem, hst⟩

/-- Giving back one unit of a record: `fuel` covering two levels per record of its subtree is
enough for the destruction it may start. -/
theorem releaseWithin_spec {fuel : Nat} {c : Ctx} {h : Node} {ks : List Tree}
    (hS : p.Sound (addUnit w h.slot) (c.fill [node h ks])) (hfuel : 2 * (node h ks).size ≤ fuel) :
    ∃ p', (releaseWithin fuel h.slot).run p = .ok () p' ∧ Released p p' w c h ks ∧
      p.Steps (fun s => w s = 0) p' := by
  have := (node h ks).size_pos
  obtain ⟨f, rfl⟩ : ∃ f, fuel = f + 2 := ⟨fuel - 2, by omega⟩
  exact releaseWithin_spec_of (releasesLast_releaseWithin f) hS fun k hk => by
    have := size_lt_of_mem (h := h) hk
    omega

/-- `Pool.release` gives back one unit of a record with all the nesting its destruction needs. -/
theorem release_spec {c : Ctx} {h : Node} {ks : List Tree}
    (hS : p.Sound (addUnit w h.slot) (c.fill [node h ks])) :
    ∃ p', (release h.slot).run p = .ok () p' ∧ Released p p' w c h ks ∧
      p.Steps (fun s => w s = 0) p' := by
  have hle : (node h ks).size ≤ p.nodes.size := by
    rw [hS.laid.size_eq, Ctx.layout_fill, layout_singleton]
    simp [Tree.size]
    omega
  rw [release, run_get_bind]
  exact releaseWithin_spec hS (by unfold depth; omega)

end Pool

end TreeArena
