import TreeArena.Proofs.ForestViews

/-!
# The pool's edits on the abstract forest

Each pool edit behind a public edit, run on a pool that keeps its invariant, acts on the pool's
abstract forest as the matching edit of `Forest`:

* `Kept.attach_view`: attaching a subtree as a child is `Forest.AddsChild`;
* `Kept.cut_view`: cutting a child takes it out of its parent's children and releases it, which
  is `Forest.RemovesChildAt` and `Forest.RemovesChild`;
* `Kept.dropChildren_view`: dropping every child is `Forest.RemovesChildren`;
* `Kept.substitute_view`: putting a subtree in the place of a child is `Forest.ReplacesChild`;
* `Sound.moveRoot_view`: moving a root's block leaves the view as it is.

The identifiers are those of the table before the edit: a slot the edit frees no longer names
its node, and every other slot keeps its generation.
-/

namespace TreeArena

theorem insertIdx_eq_take_drop {α : Type} (a : α) :
    ∀ (l : List α) (i : Nat), i ≤ l.length → l.insertIdx i a = l.take i ++ a :: l.drop i
  | l, 0, _ => by simp
  | [], i + 1, h => by simp at h
  | x :: l, i + 1, h => by
    simp [List.insertIdx_succ_cons, insertIdx_eq_take_drop a l i (by simpa using h)]

namespace Tree

theorem nodeView_insertIdx (g : Nat → Nat) (h : Node) (l : List Nat) (i s : Nat) :
    (nodeView g (h, l)).withChildren ((nodeView g (h, l)).children.insertIdx i ⟨s, g s⟩) =
      nodeView g (h, l.insertIdx i s) := by
  simp [nodeView, NodeView.withChildren, List.map_insertIdx]

variable {g : Nat → Nat}

theorem ids_getElem?_length (L R : List Tree) (T : Tree) :
    (ids g (L ++ T :: R))[L.length]? = some ⟨T.head.slot, g T.head.slot⟩ := by
  simp [ids, heads]

theorem ids_eraseIdx_length (L R : List Tree) (T : Tree) :
    (ids g (L ++ T :: R)).eraseIdx L.length = ids g (L ++ R) := by
  rw [ids_append, List.eraseIdx_append_of_length_le (by simp [ids, heads]), ids_cons]
  simp [ids, heads]

/-- Replacing the identifier of the child `X` by that of `Y` exchanges the two subtrees; the one
of `X` appears once when the slots are distinct. -/
theorem ids_replace {L R : List Tree} {X Y : Tree} (hnd : (heads (L ++ X :: R)).Nodup) :
    (ids g (L ++ X :: R)).replace ⟨X.head.slot, g X.head.slot⟩ ⟨Y.head.slot, g Y.head.slot⟩ =
      ids g (L ++ Y :: R) := by
  have hout : (⟨X.head.slot, g X.head.slot⟩ : NodeId) ∉ ids g L := by
    intro hm
    obtain ⟨s, hs, hss⟩ := List.mem_map.mp hm
    obtain rfl : s = X.head.slot := congrArg NodeId.slot hss
    simp only [heads_append, heads_cons, List.nodup_append, List.mem_cons] at hnd
    exact hnd.2.2 _ hs _ (by simp) rfl
  rw [ids_append, ids_cons, List.replace_append_right hout, List.replace_cons_self, ← ids_cons,
    ← ids_append]

theorem nodup_detach {d : Ctx} {h h' : Node} {L M R : List Tree} (hs : h'.slot = h.slot)
    (hnd : ((layout (d.fill [node h (L ++ M ++ R)])).map Node.slot).Nodup) :
    ((layout (d.fill [node h' (L ++ R)] ++ M)).map Node.slot).Nodup := by
  refine (List.Perm.nodup_iff ?_).mp hnd
  simp only [layout_append, Ctx.layout_fill, layout_cons, layout_nil, records_node,
    List.append_nil, List.map_append, List.map_cons, hs]
  rw [List.perm_iff_count]
  intro a
  simp only [List.count_append, List.count_cons]
  omega

theorem nodup_swap {d : Ctx} {h : Node} {L R : List Tree} {X Y : Tree}
    (hnd : ((layout (d.fill [node h (L ++ X :: R)] ++ [Y])).map Node.slot).Nodup) :
    ((layout (d.fill [node h (L ++ Y :: R)] ++ [X])).map Node.slot).Nodup := by
  refine (List.Perm.nodup_iff ?_).mp hnd
  simp only [layout_append, Ctx.layout_fill, layout_cons, layout_nil, records_node,
    List.append_nil, List.map_append, List.map_cons]
  rw [List.perm_iff_count]
  intro a
  simp only [List.count_append, List.count_cons]
  omega

end Tree

namespace Pool

open TreeArena.Tree Forest

variable {p p' : Pool} {w : Nat → Nat}

theorem unpinned_of_every {f : Nat} {c : Ctx} {t : Tree}
    (hq : ∀ u ∈ c.fill [t], u.Every (Node.Proper f) true) (hup : c.up ≠ []) :
    ∀ nd ∈ t.records, nd.pinned = false := by
  have he := (Ctx.every_fill_iff.mp hq).2 t (List.mem_singleton_self _)
  rw [show c.up.isEmpty = false by simpa using hup] at he
  intro nd hnd
  have hP := every_false_iff.mp he nd hnd
  exact hP.pinned_eq_false hP.kind_ne

theorem Kept.unpinned_of_up {c : Ctx} {t : Tree} (hK : p.Kept w (c.fill [t])) (hup : c.up ≠ []) :
    ∀ nd ∈ t.records, nd.pinned = false :=
  unpinned_of_every hK.proper hup

theorem Kept.head_unpinned {c : Ctx} {t : Tree} (hK : p.Kept w (c.fill [t]))
    (hk : t.head.kind ≠ failureKind) : t.head.pinned = false :=
  hK.every_fill.head.pinned_eq_false hk

/-! ### Attaching -/

/-- Attaching the subtree at a hole as child `index` of the record in slot `r`, outside it,
adds it there in the view. -/
theorem Kept.attach_view {c : Ctx} {T : Tree} (hK : p.Kept w (c.fill [T])) {r : Nat}
    (hr : r ∈ (layout (c.fill [])).map Node.slot) (hkT : T.head.kind ≠ failureKind) {index : Int}
    (hrun : (Pool.attach r T.head.slot index).run p = .ok () p') :
    AddsChild p.view (p.slots.idOf r) (p.slots.idOf T.head.slot) index.toNat p'.view := by
  rcases attach_spec hK.sound hr index with ⟨-, -, -, herr⟩ |
    ⟨p₁, d, h, ks, T', hrun₁, rfl, hrec, had, hS', -, hst⟩
  · rw [herr] at hrun
    cases hrun
  obtain rfl : p₁ = p' := (EStateM.Result.ok.inj (hrun₁.symm.trans hrun)).2
  have hnd := hK.sound.laid.nodup
  have hs : T'.head.slot = T.head.slot := by
    rw [← eta T, ← eta T'] at hrec
    simpa using (List.cons.inj hrec).1
  -- once adopted, `T'` is a root after the rest of the forest
  have hadopt := adopts_of_adopted (g := p.slots.generation) had hnd (hK.head_unpinned hkT)
  have hnd₁ : ((layout ((d.appendRight [T']).fill [node h ks])).map Node.slot).Nodup := by
    rw [Ctx.appendRight_fill]
    exact had.perm_slots.nodup_iff.mpr hnd
  have hnd₂ := hS'.laid.nodup
  rw [hK.sound.view_eq, hS'.view_eq_of_frees hst.frees]
  refine ⟨_, nodeView p.slots.generation (h, heads ks), hadopt, ?_, ?_⟩
  · rw [← Ctx.appendRight_fill]
    exact forestView_fill_head hnd₁
  -- the record's node before attaching is the one after it, without `T'`
  set m := min index.toNat ks.length
  have hback : forestView p.slots.generation (d.fill [node h ks] ++ [T']) =
      (forestView p.slots.generation (d.fill [node { h with children := ks.length + 1 }
        (ks.take m ++ T' :: ks.drop m)])).put (p.slots.idOf h.slot)
        (nodeView p.slots.generation (h, heads ks)) := by
    have := forestView_detach (g := p.slots.generation) (h := { h with children := ks.length + 1 })
      (L := ks.take m) (M := [T']) (R := ks.drop m)
      (show h.slot = ({ h with children := ks.length + 1 } : Node).slot from rfl) (by simpa using hnd₂)
    rw [List.take_append_drop, List.append_assoc, List.singleton_append] at this
    exact this
  have hkids : (heads ks).insertIdx m T.head.slot = heads (ks.take m ++ T' :: ks.drop m) := by
    rw [insertIdx_eq_take_drop _ _ _ (by simp [heads, m])]
    simp [heads, List.map_take, List.map_drop, hs]
  have hm : min index.toNat ((nodeView p.slots.generation (h, heads ks)).children.length) = m := by
    simp [heads, m]
  rw [hback, put_put, hm]
  simp only [SlotTable.idOf]
  rw [nodeView_insertIdx, hkids]
  exact (put_eq_self (forestView_fill_head hnd₂)).symm

theorem Kept.children_unpinned {c : Ctx} {h : Node} {ks : List Tree}
    (hK : p.Kept w (c.fill [node h ks])) : ∀ nd ∈ layout ks, nd.pinned = false := by
  intro nd hnd
  obtain ⟨k, hk, hndk⟩ := exists_mem_of_mem_layout hnd
  obtain ⟨L, R, rfl⟩ := List.append_of_mem hk
  have hK' : p.Kept w ((c.child h L R).fill [k]) := by
    rw [Ctx.child_fill]
    simpa using hK
  exact hK'.unpinned_of_up (by simp [Ctx.child]) nd hndk

/-! ### Removing children -/

/-- Cutting the child `T` of `h` takes it out of `h`'s children and releases it. -/
theorem Kept.cut_view {d : Ctx} {h : Node} {L R : List Tree} {T : Tree}
    (hK : p.Kept w ((d.child h L R).fill [T]))
    (hrun : (Pool.cut h.slot T.head.slot).run p = .ok () p') :
    Releases (Forest.put p.view (p.slots.idOf h.slot) (nodeView p.slots.generation (h, heads (L ++ R))))
      [p.slots.idOf T.head.slot] p'.view := by
  obtain ⟨p₁, S, hrun₁, hS', -, rfl, -, hst⟩ := cut_spec hK.sound
  obtain rfl : p₁ = p' := (EStateM.Result.ok.inj (hrun₁.symm.trans hrun)).2
  have hnd := hK.sound.laid.nodup
  rw [Ctx.child_fill] at hnd
  have hpin := hK.unpinned_of_up (by simp [Ctx.child])
  rw [hK.sound.view_eq, hS'.view_eq_of_frees hst.frees, Ctx.appendRight_fill, Ctx.child_fill]
  -- once cut, the child is a root after the rest of the forest
  have hcut := forestView_detach (g := p.slots.generation) (h := h) (M := [T])
    (show ({ h with children := h.children - 1 } : Node).slot = h.slot from rfl) hnd
  rw [nodeView_children_count] at hcut
  rw [SlotTable.idOf, ← hcut]
  have hrel := releases_dropUnit (g := p.slots.generation) T
    (d.fill [node { h with children := h.children - 1 } (L ++ R)]) []
    (nodup_detach (show ({ h with children := h.children - 1 } : Node).slot = h.slot from rfl) hnd)
    hpin (.nil _)
  rwa [List.append_nil] at hrel

/-- Cutting child `L.length` of `h` is removing it in the view, by position and by name. -/
theorem Kept.cut_removes {d : Ctx} {h : Node} {L R : List Tree} {T : Tree}
    (hK : p.Kept w ((d.child h L R).fill [T]))
    (hrun : (Pool.cut h.slot T.head.slot).run p = .ok () p') :
    RemovesChildAt p.view (p.slots.idOf h.slot) L.length p'.view ∧
      RemovesChild p.view (p.slots.idOf h.slot) (p.slots.idOf T.head.slot) p'.view := by
  have hrel := hK.cut_view hrun
  have hnd := hK.sound.laid.nodup
  rw [Ctx.child_fill, List.append_assoc, List.singleton_append] at hnd
  have hu : p.view (p.slots.idOf h.slot) =
      some (nodeView p.slots.generation (h, heads (L ++ T :: R))) := by
    rw [hK.sound.view_eq, Ctx.child_fill, List.append_assoc, List.singleton_append]
    exact forestView_fill_head hnd
  have hkids : (nodeView p.slots.generation (h, heads (L ++ T :: R))).children =
      ids p.slots.generation (L ++ T :: R) := rfl
  have hrest : nodeView p.slots.generation (h, heads (L ++ R)) =
      (nodeView p.slots.generation (h, heads (L ++ T :: R))).withChildren
        (ids p.slots.generation (L ++ R)) := rfl
  refine ⟨⟨_, _, hu, by rw [hkids]; exact ids_getElem?_length L R T, ?_⟩,
    ⟨_, hu, by rw [hkids]; simp [ids, heads, SlotTable.idOf], ?_⟩⟩
  · rw [hkids, ids_eraseIdx_length, ← hrest]
    exact hrel
  · rw [hkids, show p.slots.idOf T.head.slot = ⟨T.head.slot, p.slots.generation T.head.slot⟩ from rfl,
      ids_erase (nodup_heads_of_fill hnd), ← hrest]
    exact hrel

/-- Dropping every child of `h` releases them in the view, first to last. -/
theorem Kept.dropChildren_view {c : Ctx} {h : Node} {ks : List Tree}
    (hK : p.Kept w (c.fill [node h ks])) {bound : Nat} (hb : ks.length ≤ bound)
    (hrun : (Pool.dropChildren Pool.release h.slot bound).run p = .ok () p') :
    RemovesChildren p.view (p.slots.idOf h.slot) p'.view := by
  obtain ⟨p₁, S, hrun₁, hS', -, rfl, hst⟩ :=
    dropChildren_spec (releasesLast_release (layout ks).length) bound hK.sound hb
      fun k hk => size_le_layout hk
  obtain rfl : p₁ = p' := (EStateM.Result.ok.inj (hrun₁.symm.trans hrun)).2
  have hnd := hK.sound.laid.nodup
  rw [hK.sound.view_eq, hS'.view_eq_of_frees hst.frees, Ctx.appendRight_fill]
  refine ⟨_, forestView_fill_head hnd, ?_⟩
  have hnd' : ((layout (c.fill [node h ([] ++ ks ++ [])])).map Node.slot).Nodup := by simpa using hnd
  -- once dropped, the children are roots after the rest of the forest
  have hcut := forestView_detach (g := p.slots.generation) (h := h) (L := []) (M := ks) (R := [])
    (show ({ h with children := 0 } : Node).slot = h.slot from rfl) hnd'
  simp only [List.nil_append, List.append_nil, heads_nil, nodeView_children_count] at hcut
  rw [show (nodeView p.slots.generation (h, heads ks)).withChildren [] =
    nodeView p.slots.generation (h, []) from rfl, SlotTable.idOf, ← hcut]
  have hnd₂ := nodup_detach (L := []) (R := [])
    (show ({ h with children := 0 } : Node).slot = h.slot from rfl) hnd'
  have hrel := releasesAll_dropUnitAll (g := p.slots.generation) ks
    (c.fill [node { h with children := 0 } []]) [] (by simpa using hnd₂)
    hK.children_unpinned (.nil _)
  simpa using hrel

/-! ### Replacing a child -/

theorem Sound.head_slot_ne {cO cT : Ctx} {O T : Tree} (hS : p.Sound w (cT.fill [T]))
    (hO : cO.fill [O] = cT.fill [T]) (hout : O.head ∉ T.records) : O.head.slot ≠ T.head.slot := by
  intro heq
  have hmO : O.head ∈ layout (cT.fill [T]) := by
    rw [← hO, Ctx.layout_fill, layout_singleton, records_eq]
    simp
  have hmT : T.head ∈ layout (cT.fill [T]) := by
    rw [Ctx.layout_fill, layout_singleton, records_eq]
    simp
  rw [hS.eq_of_slot_eq hmO hmT heq, records_eq] at hout
  exact hout (List.mem_cons_self ..)

/-- Putting the subtree at a hole, which is no failure, in the place of the child `O` of `hp`,
outside it, is replacing that child in the view. -/
theorem Kept.substitute_view {d cT : Ctx} {hp : Node} {L R : List Tree} {O T : Tree}
    (hK : p.Kept w (cT.fill [T])) (hO : (d.child hp L R).fill [O] = cT.fill [T])
    (hout : O.head ∉ T.records) (hkT : T.head.kind ≠ failureKind)
    (hrun : (Pool.substitute O.head.slot T.head.slot).run p = .ok () p') :
    ReplacesChild p.view (p.slots.idOf hp.slot) (p.slots.idOf O.head.slot)
      (p.slots.idOf T.head.slot) p'.view := by
  rcases substitute_spec hK.sound hO (by simp [Ctx.child]) hout with ⟨-, -, -, herr⟩ |
    ⟨p₁, c, T', S, hrun₁, hS', -, hcup, hTs, ⟨O₁, had, hOs, rfl⟩, -, hst⟩
  · rw [herr] at hrun
    cases hrun
  obtain rfl : p₁ = p' := (EStateM.Result.ok.inj (hrun₁.symm.trans hrun)).2
  set g := p.slots.generation with hg
  have hnd := hK.sound.laid.nodup
  have hpin := unpinned_of_every (every_adopted hK.proper had hkT).1 hcup
  obtain ⟨f, fs, hup⟩ := List.exists_cons_of_ne_nil hcup
  obtain ⟨e, rfl⟩ : ∃ e : Ctx, c = e.child f.head f.left f.right := ⟨_, Ctx.eq_child_of_up hup⟩
  have hadopt := adopts_of_adopted (g := g) had hnd (hK.head_unpinned hkT)
  have hnd₁ := had.perm_slots.nodup_iff.mpr hnd
  rw [Ctx.child_fill, List.append_assoc, List.singleton_append] at hadopt hnd₁
  -- the old child's parent before adopting, and its node once `T` is adopted
  have hv : forestView g (cT.fill [T]) ⟨hp.slot, g hp.slot⟩ =
      some (nodeView g (hp, heads (L ++ O :: R))) := by
    have hndO := hnd
    rw [← hO, Ctx.child_fill, List.append_assoc, List.singleton_append] at hndO ⊢
    exact forestView_fill_head hndO
  have hu : forestView g (e.fill [node f.head (f.left ++ O₁ :: f.right)] ++ [T'])
      ⟨f.head.slot, g f.head.slot⟩ = some (nodeView g (f.head, heads (f.left ++ O₁ :: f.right))) := by
    rw [← Ctx.appendRight_fill] at hnd₁ ⊢
    exact forestView_fill_head hnd₁
  -- adopting keeps the old child below its parent, which is then the frame `f`
  have hm : (⟨O.head.slot, g O.head.slot⟩ : NodeId) ∈
      (nodeView g (f.head, heads (f.left ++ O₁ :: f.right))).children := by
    simp [heads, hOs]
  have hpar : hp.slot = f.head.slot := congrArg NodeId.slot
    (hadopt.parent_eq (forestView_parentsUnique hnd₁) hv (by simp [heads])
      (fun h => hK.sound.head_slot_ne hO hout (congrArg NodeId.slot h)) hu hm)
  rw [hK.sound.view_eq, hS'.view_eq_of_frees hst.frees]
  refine ⟨_, _, hadopt, by rw [SlotTable.idOf, hpar]; exact hu, hm, ?_⟩
  -- the parent's children with `T'` in the place of `O₁`, and `O₁` a root after the rest
  have hkids : (nodeView g (f.head, heads (f.left ++ O₁ :: f.right))).children.replace
      ⟨O.head.slot, g O.head.slot⟩ ⟨T.head.slot, g T.head.slot⟩ =
      ids g (f.left ++ T' :: f.right) := by
    rw [← hOs, ← hTs]
    exact ids_replace (nodup_heads_of_fill (by simpa using (List.nodup_append.mp
      (by simpa only [layout_append, List.map_append] using hnd₁)).1))
  simp only [SlotTable.idOf, ← hg]
  rw [hpar, hkids, show (nodeView g (f.head, heads (f.left ++ O₁ :: f.right))).withChildren
      (ids g (f.left ++ T' :: f.right)) = nodeView g (f.head, heads (f.left ++ T' :: f.right))
      from rfl, ← forestView_swap hnd₁, Ctx.child_fill, List.append_assoc, List.singleton_append,
    ← hOs]
  have hrel := releases_dropUnit (g := g) O₁ (e.fill [node f.head (f.left ++ T' :: f.right)]) []
    (by simpa using nodup_swap hnd₁) hpin (.nil _)
  rwa [List.append_nil] at hrel

theorem Kept.parent_kind_ne {d : Ctx} {h : Node} {L R : List Tree} {T : Tree}
    (hK : p.Kept w ((d.child h L R).fill [T])) : h.kind ≠ failureKind := by
  have hq := hK.proper
  rw [Ctx.child_fill] at hq
  have hP := ((Ctx.every_fill_iff.mp hq).2 _ (List.mem_singleton_self _)).head
  have hwf : (node h (L ++ [T] ++ R)).Wf := Sound.wf_fill (c := d) hK.sound
  refine hP.kind_ne_of_children ?_
  show h.children ≠ 0
  rw [(wf_node_iff.mp hwf).1]
  simp

/-! ### Reordering roots -/

theorem Sound.view_orphan {c : Ctx} {t : Tree} (hS : p.Sound w (c.fill [t])) (hup : c.up = []) :
    Forest.Orphan p.view (p.slots.idOf t.head.slot) := by
  have hfill : c.fill [t] = c.left ++ t :: c.right := by
    simp [Ctx.fill, hup, Frame.closeAll]
  rw [hS.view_eq, hfill]
  rw [hfill] at hS
  exact forestView_orphan hS.laid.nodup (by simp)

/-- Moving a root's block in front of another root leaves the view as it is. -/
theorem Sound.moveRoot_view {L R A B : List Tree} {T U : Tree} (hS : p.Sound w (L ++ T :: R))
    (hsplit : (Ctx.top A B).fill [U] = L ++ R) {n : Nat}
    (hrun : (Pool.move (p.position U.head.slot) (p.position T.head.slot)
      (p.nodes.subtreeEnd (p.position T.head.slot) - p.position T.head.slot)).run p = .ok n p') :
    p'.view = p.view := by
  obtain ⟨n₁, p₁, hrun₁, hS', -, hst⟩ := moveRoot_spec hS hsplit
  obtain rfl : p₁ = p' := (EStateM.Result.ok.inj (hrun₁.symm.trans hrun)).2
  rw [hS.view_eq, hS'.view_eq_of_frees hst.frees]
  refine forestView_perm hS.laid.nodup ?_
  -- the roots are the same ones, `T` now in front of `U`
  have hl := congrArg linksAll hsplit
  rw [Ctx.top_fill] at hl
  rw [List.perm_iff_count]
  intro a
  have hc := congrArg (List.count a) hl
  simp only [linksAll_append, linksAll_cons, linksAll_nil, List.count_append, List.count_nil] at hc ⊢
  omega

end Pool

end TreeArena
