import TreeArena.Proofs.Walk
import TreeArena.Proofs.Moves

/-!
# Where the records of a forest are placed

`Pool.Laid p ts`: the arena of `p` is the layout of the forest `ts` and the table locates its
records. The forest's counts need not be right (`Tree.Wf` is asked apart), so the statement also
describes the arena in the middle of an edit.

Each primitive edit has its effect on the forest here. Rewriting the record at a hole rewrites the
root of the subtree in the hole (`Laid.modify_fill`); moving a run of sibling subtrees in front
of the record at `dst` takes it out of one hole and puts it into another of the forest that is
left (`Laid.move_fill`); cutting out a childless root whose slot was freed drops it
(`Laid.excise_root`); appending a record in a fresh slot adds a childless root at the end
(`Laid.push`).
-/

namespace TreeArena

namespace Pool

open TreeArena.Tree SlotTable

/-- The arena lays out the forest and the table locates the records. -/
structure Laid (p : Pool) (ts : List Tree) : Prop where
  layout_eq : layout ts = p.nodes.toList
  locates : p.slots.Locates p.nodes.toList

variable {p : Pool} {ts : List Tree}

theorem position_of_locates (h : p.slots.Locates p.nodes.toList) {pre post : List Node} {nd : Node}
    (hl : p.nodes.toList = pre ++ nd :: post) : p.position nd.slot = pre.length := by
  have := h.position_slot pre.length (by rw [hl]; simp)
  simp only [hl, List.getElem_append_right (Nat.le_refl _), Nat.sub_self,
    List.getElem_cons_zero] at this
  simp [position, this]

theorem Laid.position_fill {c : Ctx} {t : Tree} (h : p.Laid (c.fill [t])) :
    p.position t.head.slot = c.pos := by
  have hl : p.nodes.toList = c.before ++ t.head :: (layout t.kids ++ c.after) := by
    rw [← h.layout_eq, Ctx.layout_fill, layout_singleton, records_eq]
    simp
  exact position_of_locates h.locates hl

theorem Laid.size_eq (h : p.Laid ts) : p.nodes.size = (layout ts).length := by
  rw [← Array.length_toList, h.layout_eq]

/-! ### Rewriting a record -/

theorem modify_append_cons (A B : List Node) (x : Node) (f : Node → Node) :
    (A ++ x :: B).modify A.length f = A ++ f x :: B := by
  apply List.ext_getElem (by simp)
  intro j h₁ h₂
  rw [List.getElem_modify]
  split
  · rename_i hj
    subst hj
    simp
  · rename_i hj
    rcases Nat.lt_or_gt_of_ne hj with hlt | hlt
    · rw [List.getElem_append_right (by omega), List.getElem_append_right (by omega)]
      rw [List.getElem_cons, List.getElem_cons, dif_neg (by omega), dif_neg (by omega)]
    · rw [List.getElem_append_left hlt, List.getElem_append_left hlt]

/-- Rewriting the record at a hole, keeping its slot, rewrites the root of the subtree there. -/
theorem Laid.modify_fill {c : Ctx} {h : Node} {ks : List Tree} (hl : p.Laid (c.fill [node h ks]))
    (f : Node → Node) (hf : ∀ nd, (f nd).slot = nd.slot) :
    ({ p with nodes := p.nodes.modify c.pos f } : Pool).Laid (c.fill [node (f h) ks]) := by
  have hmod : (p.nodes.modify c.pos f).toList = layout (c.fill [node (f h) ks]) := by
    rw [Arena.modify, Array.toList_modify, ← hl.layout_eq, Ctx.layout_fill, Ctx.layout_fill]
    simp only [layout_cons, records_node, layout_nil, List.append_nil]
    rw [Ctx.pos, show c.before ++ h :: layout ks ++ c.after = c.before ++ h :: (layout ks ++ c.after)
      by simp, modify_append_cons]
    simp
  refine ⟨hmod.symm, ?_⟩
  show p.slots.Locates (p.nodes.modify c.pos f).toList
  exact locates_modify hl.locates c.pos hf

/-- The record in slot `s` rewritten by `f`, every other record as it is. -/
def atSlot (s : Nat) (f : Node → Node) (nd : Node) : Node := if nd.slot = s then f nd else nd

/-- Rewriting the record of a live slot, found through the table, rewrites it wherever it is in
the forest. -/
theorem Laid.modify_slot (h : p.Laid ts) {nd : Node} (hnd : nd ∈ layout ts) (f : Node → Node)
    (hf : ∀ x, (f x).slot = x.slot) :
    ({ p with nodes := p.nodes.modify (p.position nd.slot) f } : Pool).Laid
      (mapAll (atSlot nd.slot f) ts) := by
  rw [h.layout_eq] at hnd
  obtain ⟨i, hi, hget, hpos⟩ := h.locates.position_of_mem hnd
  have hp : p.position nd.slot = i := by simp [position, hpos]
  have hmod : (p.nodes.modify i f).toList = layout (mapAll (atSlot nd.slot f) ts) := by
    rw [layout_mapAll, h.layout_eq, Arena.modify, Array.toList_modify]
    apply List.ext_getElem (by simp)
    intro j h₁ h₂
    rw [List.getElem_modify, List.getElem_map]
    unfold atSlot
    split
    · rename_i hij
      subst hij
      rw [hget, if_pos rfl]
    · rename_i hij
      have hj : j < p.nodes.toList.length := by simpa using h₁
      rw [if_neg fun hs => hij (h.locates.slot_inj hi hj (by rw [hget]; exact hs.symm))]
  rw [hp]
  exact ⟨hmod.symm, locates_modify h.locates i hf⟩

/-! ### Moving a run of subtrees -/

/-- Moving the records of a nonempty run of sibling subtrees in front of the record at `dst`:
the run leaves its hole `c₁` and fills the hole `c₂` of the forest left without it, where `c₂` is
the hole the run lands in. -/
theorem Laid.move_fill {c₁ c₂ : Ctx} {us : List Tree} (h : p.Laid (c₁.fill us))
    (hus : layout us ≠ []) (hc : c₂.fill [] = c₁.fill []) {dst : Nat}
    (hland : landing dst c₁.pos (layout us).length = c₂.pos)
    (hdst : dst ≤ c₁.pos ∨ c₁.pos + (layout us).length ≤ dst ∧ dst ≤ p.nodes.size) :
    ∃ (a : Arena) (t : SlotTable), (move dst c₁.pos (layout us).length).run p =
        .ok c₂.pos { p with nodes := a, slots := t } ∧
      ({ p with nodes := a, slots := t } : Pool).Laid (c₂.fill us) ∧ p.slots.Repoints t := by
  have hl : p.nodes.toList = c₁.before ++ layout us ++ c₁.after := by
    rw [← h.layout_eq, Ctx.layout_fill]
  obtain ⟨a, t, hrun, ha, hloc, hrep⟩ := move_spec h.locates hl hus hdst
  have hland' : landing dst c₁.before.length (layout us).length = c₂.pos := hland
  rw [hland'] at hrun ha
  refine ⟨a, t, hrun, ⟨?_, hloc⟩, hrep⟩
  rw [ha, ← Ctx.before_append_after hc, Ctx.layout_fill, Ctx.pos, List.take_left, List.drop_left]

/-! ### Cutting out and appending roots -/

/-- Cutting out a childless root whose slot was freed drops it from the forest. -/
theorem Laid.excise_root {t : SlotTable} {ts₁ ts₂ : List Tree} {nd : Node}
    (hl : layout (ts₁ ++ node nd [] :: ts₂) = p.nodes.toList) (hloc : t.Locates p.nodes.toList)
    (hslots : p.slots = t.release nd.slot) :
    ∃ (a : Arena) (t' : SlotTable), (excise (layout ts₁).length 1).run p =
        .ok () { p with nodes := a, slots := t' } ∧
      ({ p with nodes := a, slots := t' } : Pool).Laid (ts₁ ++ ts₂) ∧ p.slots.Repoints t' := by
  have hl' : p.nodes.toList = layout ts₁ ++ nd :: layout ts₂ := by rw [← hl]; simp
  obtain ⟨a, t', hrun, ha, hloc', hrep⟩ := excise_spec (hl' ▸ hloc) hl' hslots
  exact ⟨a, t', hrun, ⟨by rw [ha]; simp, hloc'⟩, hrep⟩

/-- Appending a record in a free slot, claimed and pointed at the end, adds a childless root. -/
theorem Laid.push (h : p.Laid ts) {s : Nat} (hfree : p.slots.isFree s = true) (hs : s < p.slots.size)
    {nd : Node} (hnd : nd.slot = s) :
    ({ p with nodes := p.nodes.push nd, slots := (p.slots.claim s).set s p.nodes.size } : Pool).Laid
      (ts ++ [node nd []]) := by
  refine ⟨by simp [h.layout_eq], ?_⟩
  simp only [Array.toList_push]
  rw [← Array.length_toList]
  exact h.locates.push hfree hs hnd

end Pool

end TreeArena
