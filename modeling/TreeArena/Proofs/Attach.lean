import TreeArena.Proofs.Degrade
import TreeArena.Edit

/-!
# Attaching a subtree

Adopting a record takes its subtree out of its place and leaves it a root that holds one unit in
transit for the edge it is about to gain: a child is detached to the end of the arena and keeps
its old edge's unit, a root gains a unit (`adopt_spec`). Attaching then moves that root's block
in front of the chosen child of the new parent, whose count grows by one, and the unit in transit
becomes the new edge's (`attach_spec`). The parent must lie outside the adopted subtree, which
is what the edits check before they attach.

The records the code reaches through the table are found in the forest by `Sound.exists_hole`,
and a hole outside a root stays a hole of the forest once that root is moved
(`Ctx.exists_erase_root`).
-/

namespace TreeArena

namespace Pool

open TreeArena.Tree SlotTable

variable {p : Pool} {w : Nat → Nat}

/-! ### Finding records -/

theorem Sound.exists_hole {ts : List Tree} (hS : p.Sound w ts) {s : Nat}
    (hs : p.slots.isFree s = false) :
    ∃ (c : Ctx) (h : Node) (ks : List Tree), c.fill [node h ks] = ts ∧ h.slot = s := by
  obtain ⟨i, hi⟩ : ∃ i, p.slots.position s = some i := by
    simpa [SlotTable.isFree, Option.isSome_iff_exists] using hs
  obtain ⟨hlt, hslot⟩ := hS.laid.locates.slot_position hi
  have hlt' : i < (layout ts).length := by
    rw [hS.laid.layout_eq]
    exact hlt
  obtain ⟨c, t, hc, hpos⟩ := exists_fill ts i hlt'
  refine ⟨c, t.head, t.kids, by rw [eta, hc], ?_⟩
  -- the record at position `i` is the root of the subtree there
  have hl : p.nodes.toList = c.before ++ t.head :: (layout t.kids ++ c.after) := by
    rw [← hS.laid.layout_eq, ← hc, Ctx.layout_fill, layout_singleton, records_eq]
    simp
  rw [← hslot]
  simp only [hl]
  rw [List.getElem_append_right (by simp [← hpos, Ctx.pos])]
  simp [← hpos, Ctx.pos]

theorem Sound.isFree_eq_false_iff {ts : List Tree} (hS : p.Sound w ts) (s : Nat) :
    p.slots.isFree s = false ↔ s ∈ (layout ts).map Node.slot := by
  rw [← Bool.not_eq_true, hS.laid.locates.isFree_iff_not_mem, hS.laid.layout_eq, not_not]

theorem Sound.eq_of_slot_eq {ts : List Tree} (hS : p.Sound w ts) {x y : Node}
    (hx : x ∈ layout ts) (hy : y ∈ layout ts) (hxy : x.slot = y.slot) : x = y :=
  List.inj_on_of_nodup_map hS.laid.nodup hx hy hxy

/-- A pool laying out a sound forest whose table frees some slots of a sound pool's table keeps
the table's bounds. -/
theorem Sound.of_frees {ts ts' : List Tree} {p' : Pool} {w' : Nat → Nat} {P : Nat → Prop}
    (hS : p.Sound w ts) (hl : p'.Laid ts') (hw : ∀ t ∈ ts', t.Wf) (hh : ∀ t ∈ ts', t.Held w' true)
    (hf : p.slots.Frees P p'.slots) : p'.Sound w' ts' := by
  refine ⟨hl, hw, hh, hf.size_eq ▸ hS.cap, ?_⟩
  rw [hf.generations_size, hf.size_eq]
  exact hS.gens

theorem slot_ne_of_fill_records {c : Ctx} {T : Tree}
    (hnd : ((layout (c.fill [T])).map Node.slot).Nodup) {x y : Node} (hx : x ∈ T.records)
    (hy : y ∈ layout (c.fill [])) : x.slot ≠ y.slot := by
  have hperm : (c.before ++ T.records ++ c.after).Perm (T.records ++ (c.before ++ c.after)) := by
    rw [← List.append_assoc]
    exact List.perm_append_comm.append_right _
  rw [Ctx.layout_fill, layout_singleton] at hnd
  rw [Ctx.layout_fill, layout_nil, List.append_nil] at hy
  exact slot_ne_of_nodup_append ((hperm.map Node.slot).nodup_iff.mp hnd) hx hy

/-! ### Adopting -/

/-- The record in slot `s` with one child fewer. -/
def lowerAt (s : Nat) (nd : Node) : Node :=
  if nd.slot = s then { nd with children := nd.children - 1 } else nd

/-- What adopting the subtree `T` at the hole `c` leaves: `rest`, the forest without it, in which
its old parent, if it had one, counts one child fewer, and `T'`, the subtree as a root, whose
root record gained a unit unless it was a root already pinned. -/
def Adopted (c : Ctx) (T : Tree) (rest : List Tree) (T' : Tree) : Prop :=
  (c.up = [] ∧ rest = c.fill [] ∧
    T' = node (if T.head.pinned then T.head else { T.head with retain := T.head.retain + 1 })
      T.kids) ∨
  ∃ f fs, c.up = f :: fs ∧ rest = mapAll (lowerAt f.head.slot) (c.fill []) ∧ T' = T

/-- Adopting the subtree at a hole leaves it a root holding one unit in transit: a child is
detached to the end of the arena and keeps its old edge's unit, a root gains a unit, unless its
count is full, which is a fault that changes nothing. The rest of the forest keeps its shape,
with at most one record rewritten (the old parent's count), and its roots stay roots. -/
theorem adopt_spec {c : Ctx} {T : Tree} (hS : p.Sound w (c.fill [T])) :
    (c.up = [] ∧ T.head.pinned = false ∧ T.head.retain = maxCount ∧
      (adopt T.head.slot).run p = .error (.retainOverflow (p.slots.idOf T.head.slot)) p) ∨
    ∃ (p' : Pool) (L R : List Tree) (T' : Tree) (φ : Node → Node),
      (adopt T.head.slot).run p = .ok () p' ∧
      p'.Sound (addUnit w T.head.slot) (L ++ T' :: R) ∧ T'.head.slot = T.head.slot ∧
      T'.records.map Node.slot = T.records.map Node.slot ∧
      (∀ nd, (φ nd).slot = nd.slot) ∧ L ++ R = mapAll φ (c.fill []) ∧ Adopted c T (L ++ R) T' ∧
      (RootsOwed w (c.fill [T]) → RootsOwed w (L ++ R)) ∧ p.Steps (fun _ => False) p' := by
  have hpos : p.position T.head.slot = c.pos := hS.laid.position_fill
  have hpar : p.nodes.parentOf c.pos = c.parent.map Ctx.pos :=
    Arena.parentOf_fill hS.laid.layout_eq.symm hS.wf
  rw [adopt, run_get_bind, hpos, hpar]
  cases hc : c.up with
  | nil =>
    -- a root gains the unit
    have hnone : c.parent = none := by simp [Ctx.parent, hc]
    rw [hnone]
    have hS' : p.Sound w (c.fill [node T.head T.kids]) := by rw [eta]; exact hS
    rcases retain_spec hS' with ⟨hp, hmax, hrun⟩ | ⟨p', hrun, hS'', hst⟩
    · exact .inl ⟨rfl, hp, hmax, hrun⟩
    · have hfill : ∀ x, c.fill [x] = c.left ++ x :: c.right := by simp [Ctx.fill, hc, Frame.closeAll]
      have hrest : c.left ++ c.right = c.fill [] := by simp [Ctx.fill, hc, Frame.closeAll]
      refine .inr ⟨p', c.left, c.right, _, id, hrun, by rw [← hfill]; exact hS'', ?_, ?_,
        fun _ => rfl, ?_, .inl ⟨hc, hrest, rfl⟩, ?_, hst⟩
      · split <;> rfl
      · rw [records_eq T]
        split <;> rfl
      · rw [mapAll_eq_self (c.fill []) fun nd _ => (rfl : id nd = nd)]
        exact hrest
      · intro hown
        rw [hfill, ← List.singleton_append, ← List.append_assoc, rootsOwed_append,
          rootsOwed_append] at hown
        exact rootsOwed_append.mpr ⟨hown.1.1, hown.2⟩
  | cons f fs =>
    -- a child is detached and keeps its old edge's unit
    let d : Ctx := ⟨fs, c.left, c.right⟩
    have hsome : c.parent = some d := by simp [Ctx.parent, hc, d]
    have hcd : c = d.child f.head f.left f.right := by
      cases c
      simp only at hc
      simp [hc, d, Ctx.child]
    rw [hcd] at hS
    have hslot : p.nodes.slotAt d.pos = f.head.slot := by
      have hS' : p.Sound w (d.fill [node f.head (f.left ++ [T] ++ f.right)]) := hS
      exact Arena.slotAt_of_toList hS'.toList_eq
    rw [hsome, Option.map_some]
    dsimp only
    rw [hslot]
    obtain ⟨p', hrun, hS', hst⟩ := detach_spec hS
    -- only the old parent's record carries its slot
    have hrest : d.fill [node { f.head with children := f.head.children - 1 } (f.left ++ f.right)] ++
        [] = mapAll (lowerAt f.head.slot) (c.fill []) := by
      have hnd := @slot_ne_of_fill d f.head (f.left ++ [T] ++ f.right) hS.laid.nodup
      have hfix : ∀ nd ∈ layout (d.fill []), lowerAt f.head.slot nd = nd := fun nd hnd' => by
        simp [lowerAt, hnd.2 nd hnd']
      have hks : mapAll (lowerAt f.head.slot) (f.left ++ f.right) = f.left ++ f.right :=
        mapAll_eq_self _ fun nd hnd' => by
          have : nd ∈ layout (f.left ++ [T] ++ f.right) := by
            simp only [layout_append, List.mem_append] at hnd' ⊢
            tauto
          simp [lowerAt, hnd.1 nd this]
      calc d.fill [node { f.head with children := f.head.children - 1 } (f.left ++ f.right)] ++ []
          = (d.map (lowerAt f.head.slot)).fill
              (mapAll (lowerAt f.head.slot) [node f.head (f.left ++ f.right)]) := by
            rw [Ctx.map_eq_self hfix]
            simp [hks, lowerAt]
        _ = mapAll (lowerAt f.head.slot) (c.fill []) := by
            rw [Ctx.map_fill, hcd, Ctx.child_fill]
            simp
    refine .inr ⟨p', _, [], T, lowerAt f.head.slot, hrun,
      by rw [← Ctx.appendRight_fill]; exact hS', rfl, rfl, fun nd => ?_, hrest,
      .inr ⟨f, fs, hc, hrest, rfl⟩, fun hown => ?_, hst⟩
    · unfold lowerAt
      split <;> rfl
    rw [hcd, Ctx.child_fill] at hown
    have hown' : RootsOwed w
        (d.fill [node { f.head with children := f.head.children - 1 } (f.left ++ f.right)]) :=
      hown.fill_congr rfl rfl
    simpa using hown'

/-! ### Grafting a root -/

section Graft

variable {L R ks kl kd : List Tree} {T : Tree} {c : Ctx} {h : Node}

/-- The root `T`, put among the children of the record at a hole of the rest of the forest,
holds the unit it had in transit for its new edge; the records of the rest owe nothing to its
slot. -/
theorem held_graft (hheld : ∀ t ∈ L ++ T :: R, Tree.Held (addUnit w T.head.slot) true t)
    (hnd : ((layout (L ++ T :: R)).map Node.slot).Nodup) (hc : c.fill [node h ks] = L ++ R)
    (hk : kl ++ kd = ks) (m : Nat) :
    ∀ t ∈ c.fill [node { h with children := m } (kl ++ T :: kd)], Tree.Held w true t := by
  have hnd' : ((layout ((Ctx.top L R).fill [node T.head T.kids])).map Node.slot).Nodup := by
    rw [eta, Ctx.top_fill]
    simpa using hnd
  have hTs : ∀ nd ∈ layout (L ++ R), w nd.slot = addUnit w T.head.slot nd.slot := by
    intro nd hn
    refine (addUnit_of_ne w fun heq => ?_).symm
    rw [eta] at hnd'
    exact slot_ne_of_fill_records hnd' (by rw [records_eq]; exact List.mem_cons_self ..)
      (by rw [Ctx.top_fill]; simpa using hn) heq.symm
  have hrest : ∀ t ∈ c.fill [node h ks], Tree.Held w true t := by
    rw [hc]
    exact held_congr_layout (fun t ht => hheld t (by simp at ht ⊢; tauto)) hTs
  obtain ⟨hch, hh⟩ := Ctx.held_fill_iff.mp hrest
  obtain ⟨hhold, hks⟩ := held_node_iff.mp (hh _ (List.mem_singleton_self _))
  -- the grafted root trades the unit in transit for its new edge's
  have hT : Tree.Held w false T := by
    have := hheld T (by simp)
    rw [← eta T] at this ⊢
    exact Held.unroot this (slot_ne_of_fill hnd').1
  subst hk
  refine Ctx.held_fill_iff.mpr ⟨hch, fun t ht => ?_⟩
  rw [List.mem_singleton] at ht
  subst ht
  refine held_node_iff.mpr ⟨hhold, fun k hk => ?_⟩
  rcases List.mem_append.mp hk with hk | hk
  · exact hks k (List.mem_append_left _ hk)
  · rcases List.mem_cons.mp hk with rfl | hk
    · exact hT
    · exact hks k (List.mem_append_right _ hk)

/-- The root `T`, put among the children of the record at a hole of the rest of the forest,
whose count grows by one, leaves every tree well formed. -/
theorem wf_graft (hwf : ∀ t ∈ L ++ T :: R, t.Wf) (hc : c.fill [node h ks] = L ++ R)
    (hk : kl ++ kd = ks) :
    ∀ t ∈ c.fill [node { h with children := ks.length + 1 } (kl ++ T :: kd)], t.Wf := by
  have hrest : ∀ t ∈ c.fill [node h ks], t.Wf := by
    rw [hc]
    exact fun t ht => hwf t (by simp at ht ⊢; tauto)
  obtain ⟨hcw, hw⟩ := Ctx.wf_fill_iff.mp hrest
  obtain ⟨-, hks⟩ := wf_node_iff.mp (hw _ (List.mem_singleton_self _))
  have hT : T.Wf := hwf T (by simp)
  subst hk
  refine Ctx.wf_fill_iff.mpr ⟨hcw, fun t ht => ?_⟩
  rw [List.mem_singleton] at ht
  subst ht
  refine wf_node_iff.mpr ⟨by simp; omega, fun k hk => ?_⟩
  rcases List.mem_append.mp hk with hk | hk
  · exact hks k (List.mem_append_left _ hk)
  · rcases List.mem_cons.mp hk with rfl | hk
    · exact hT
    · exact hks k (List.mem_append_right _ hk)

end Graft

/-! ### Attaching -/

/-- Attaching the subtree at a hole as a child of the record in slot `r`, which lies outside it:
after adopting the subtree, its block moves in front of child `min index n` of that record, `n`
its count once the subtree is adopted, and the count grows by one. Only a full count of a root
being adopted stops it, with nothing changed. -/
theorem attach_spec {c : Ctx} {T : Tree} (hS : p.Sound w (c.fill [T])) {r : Nat}
    (hr : r ∈ (layout (c.fill [])).map Node.slot) (index : Int) :
    (c.up = [] ∧ T.head.pinned = false ∧ T.head.retain = maxCount ∧
      (attach r T.head.slot index).run p = .error (.retainOverflow (p.slots.idOf T.head.slot)) p) ∨
    ∃ (p' : Pool) (d : Ctx) (h : Node) (ks : List Tree) (T' : Tree),
      (attach r T.head.slot index).run p = .ok () p' ∧ h.slot = r ∧
      T'.records.map Node.slot = T.records.map Node.slot ∧ Adopted c T (d.fill [node h ks]) T' ∧
      p'.Sound w (d.fill [node { h with children := ks.length + 1 }
        (ks.take (min index.toNat ks.length) ++ T' :: ks.drop (min index.toNat ks.length))]) ∧
      (RootsOwed w (c.fill [T]) → RootsOwed w (d.fill [node { h with children := ks.length + 1 }
        (ks.take (min index.toNat ks.length) ++ T' :: ks.drop (min index.toNat ks.length))])) ∧
      p.Steps (fun _ => False) p' := by
  obtain ⟨rs, hrs, rfl⟩ := List.mem_map.mp hr
  have hout : ∀ x ∈ T.records, x.slot ≠ rs.slot :=
    fun x hx => slot_ne_of_fill_records hS.laid.nodup hx hrs
  rcases adopt_spec hS with ⟨hup, hp, hmax, hrun⟩ |
    ⟨p₁, L, R, T', -, hrun₁, hS₁, hs₁, hrec, -, -, hadopt, hown₁, hst₁⟩
  · exact .inl ⟨hup, hp, hmax, by rw [attach, run_bind_error hrun]⟩
  right
  -- the parent record is still live, and outside the adopted subtree
  have hlive : p₁.slots.isFree rs.slot = false := by
    have h0 : p.slots.isFree rs.slot = false := by
      refine (hS.isFree_eq_false_iff _).mpr (List.mem_map_of_mem ?_)
      rw [Ctx.layout_fill] at hrs ⊢
      simp only [layout_nil, List.append_nil, List.mem_append] at hrs ⊢
      tauto
    exact (hst₁.frees.kept h0 id).1
  obtain ⟨cr, hr₀, kr, hcr, hslot⟩ := hS₁.exists_hole hlive
  have hout' : (node hr₀ kr).head ∉ T'.records := by
    intro hm
    have : hr₀.slot ∈ T.records.map Node.slot := by rw [← hrec]; exact List.mem_map_of_mem hm
    obtain ⟨x, hx, hxs⟩ := List.mem_map.mp this
    exact hout x hx (hxs.trans hslot)
  obtain ⟨c', -, hc', hcase⟩ := Ctx.exists_erase_root hcr hout'
  -- where the code finds the parent, its children and the adopted block
  have hS₁r : p₁.Sound (addUnit w T.head.slot) (cr.fill [node hr₀ kr]) := by rw [hcr]; exact hS₁
  have hS₁t : p₁.Sound (addUnit w T.head.slot) ((Ctx.top L R).fill [T']) := by
    rw [Ctx.top_fill]; simpa using hS₁
  have hpr : p₁.position rs.slot = cr.pos := by rw [← hslot]; exact hS₁r.laid.position_fill
  have hpt : p₁.position T.head.slot = (layout L).length := by
    rw [← hs₁, hS₁t.laid.position_fill, Ctx.top_pos]
  have hn : p₁.nodes.childrenAt cr.pos = kr.length :=
    (Arena.childrenAt_of_toList hS₁r.toList_eq).trans hS₁r.children_eq
  have hwr : (node hr₀ kr).Wf := hS₁r.wf_fill
  have hwT : T'.Wf := hS₁t.wf_fill
  have hl₁ : p₁.nodes.toList = cr.before ++ (node hr₀ kr).records ++ cr.after := by
    rw [← hS₁r.laid.layout_eq, Ctx.layout_fill, layout_singleton]
  have hlt : p₁.nodes.toList = (layout L) ++ T'.records ++ layout R := by
    rw [← hS₁.laid.layout_eq]; simp
  have hend : p₁.nodes.subtreeEnd (layout L).length = (layout L).length + T'.size :=
    Arena.subtreeEnd_records hlt hwT
  let at_ := min index.toNat kr.length
  have hat : at_ ≤ kr.length := Nat.min_le_right _ _
  have hcs : p₁.nodes.childStart cr.pos at_ = cr.pos + 1 + (layout (kr.take at_)).length :=
    Arena.childStart_records hl₁ hwr hat
  -- the adopted block lands in front of the chosen child
  let kl := kr.take at_
  let kd := kr.drop at_
  let c₂ := c'.child hr₀ kl kd
  have hc₂ : c₂.fill [] = (Ctx.top L R).fill [] := by
    rw [Ctx.child_fill, Ctx.top_fill, List.append_nil, List.append_nil, List.take_append_drop, hc']
  have hsz : (layout [T']).length = T'.size := by rw [layout_singleton]; rfl
  have hkl : (layout kl).length ≤ (layout kr).length := by
    have h := congrArg (fun ts => (layout ts).length) (List.take_append_drop at_ kr)
    simp only [layout_append, List.length_append] at h
    show (layout (kr.take at_)).length ≤ _
    omega
  have hsize_r : (node hr₀ kr).size = (layout kr).length + 1 := size_eq _
  have harena : p₁.nodes.size = cr.pos + (node hr₀ kr).size + cr.after.length := by
    rw [← Array.length_toList, hl₁]; simp [Ctx.pos, Tree.size]; omega
  have hland : landing (cr.pos + 1 + (layout kl).length) (Ctx.top L R).pos (layout [T']).length =
      c₂.pos := by
    rw [Ctx.top_pos, hsz, Ctx.child_pos, landing]
    rcases hcase with ⟨h1, h2⟩ | ⟨h1, h2⟩
    · rw [if_pos (by omega)]; omega
    · rw [if_neg (by omega)]; omega
  have hdst : cr.pos + 1 + (layout kl).length ≤ (Ctx.top L R).pos ∨
      (Ctx.top L R).pos + (layout [T']).length ≤ cr.pos + 1 + (layout kl).length ∧
        cr.pos + 1 + (layout kl).length ≤ p₁.nodes.size := by
    rw [Ctx.top_pos, hsz]
    rcases hcase with ⟨h1, h2⟩ | ⟨h1, h2⟩
    · left; omega
    · right; omega
  obtain ⟨a, t, hmove, hlaid, hfree⟩ :=
    hS₁t.laid.move_fill_frees (by simp [records_eq]) hc₂ hland hdst
  rw [Ctx.top_pos, hsz] at hmove
  have hlaid' : ({ p₁ with nodes := a, slots := t } : Pool).Laid
      (c'.fill [node hr₀ (kl ++ T' :: kd)]) := by
    rw [Ctx.child_fill] at hlaid
    simpa using hlaid
  have hpr₂ : ({ p₁ with nodes := a, slots := t } : Pool).position rs.slot = c'.pos := by
    rw [← hslot]
    exact hlaid'.position_fill
  have hlen : kl.length + kd.length = kr.length := by
    rw [← List.length_append, List.take_append_drop]
  -- the parent's children are records of the arena, so fewer than the table's slots
  have hbound : kr.length + 1 ≤ maxCount := by
    have h3 : t.size ≤ maxSlots := hfree.size_eq ▸ hS₁.cap
    have := hlaid'.length_kids_lt h3
    simp only [List.length_append, List.length_cons] at this
    omega
  let f := fun nd : Node => { nd with children := kr.length + 1 }
  have hrun : (attach rs.slot T.head.slot index).run p =
      .ok () { p₁ with nodes := a.modify c'.pos f, slots := t } := by
    rw [attach, run_bind_ok hrun₁, run_get_bind]
    dsimp only
    rw [hpr, hpt, hn, hend, hcs, Nat.add_sub_cancel_left, run_bind_ok hmove, run_get_bind, hpr₂,
      run_setChildren (by omega) (by omega)]
    rfl
  have hheld := hS₁.held
  rw [← hs₁] at hheld
  refine ⟨_, c', hr₀, kr, T', hrun, hslot, hrec, hc' ▸ hadopt,
    hS₁.of_frees (hlaid'.modify_fill f fun _ => rfl)
      (wf_graft hS₁.wf hc' (List.take_append_drop at_ kr))
      (held_graft hheld hS₁.laid.nodup hc' (List.take_append_drop at_ kr) _) hfree,
    fun hown => ?_, hst₁.trans ⟨_, t, rfl, hfree⟩⟩
  have := hown₁ hown
  rw [← hc'] at this
  exact this.fill_congr rfl rfl

end Pool

end TreeArena
