import TreeArena.Proofs.Links

/-!
# How edits change the abstract forest

The forest-level results of the pool's primitive edits, read through `Tree.lookup`. Adopting a
subtree takes it out of its parent's children and leaves every other record as it was, up to
that parent's children count (`Adopted.lookup_of_ne`, `Adopted.recordAt`); attaching hangs it
below the new parent at the index asked for and changes no other entry (`lookup_attached_parent`,
`lookup_attached_of_ne`); rewriting one record changes only its own entry
(`lookup_fill_node_congr`); and cutting out a root, or degrading one, leaves the entries of the
other roots' subtrees (`lookup_beside`).

`recordAt s ts` is the record in slot `s` with its children count set aside: moving children
around never changes it.
-/

namespace TreeArena

namespace Tree

open Pool

/-- The record in slot `s`, with its children count set aside. -/
def recordAt (s : Nat) (ts : List Tree) : Option Node :=
  (lookup s ts).map fun e => { e.1 with children := 0 }

theorem recordAt_eq_of_lookup {s : Nat} {ts us : List Tree} (h : lookup s ts = lookup s us) :
    recordAt s ts = recordAt s us := by
  rw [recordAt, recordAt, h]

theorem Ctx.heads_fill_congr (c : Ctx) {us us' : List Tree} (hh : heads us = heads us') :
    heads (c.fill us) = heads (c.fill us') := by
  by_cases hc : c.up = []
  · rw [Ctx.heads_fill_of_up_eq_nil hc, Ctx.heads_fill_of_up_eq_nil hc, hh]
  · exact Ctx.heads_fill_of_up_ne_nil hc _ _

/-- A forest with distinct slots looks up what a part of it looks up. -/
theorem lookup_of_linksAll_subset {ts us : List Tree} (hnd : ((layout ts).map Node.slot).Nodup)
    (hsub : ∀ e ∈ linksAll us, e ∈ linksAll ts) {s : Nat} {e : Node × List Nat}
    (he : lookup s us = some e) : lookup s ts = some e := by
  obtain ⟨hmem, rfl⟩ := mem_of_lookup he
  exact lookup_of_mem hnd (hsub e hmem)

/-! ### Subtrees -/

theorem Sub.records_subset {v t : Tree} (h : Sub v t) : ∀ x ∈ v.records, x ∈ t.records := by
  induction h with
  | refl => exact fun x hx => hx
  | kid hk _ ih =>
    intro x hx
    rw [records_node]
    exact List.mem_cons_of_mem _ (mem_layout_of_mem hk (ih x hx))

/-- In a subtree with distinct slots, the only subtree holding the root's slot is the whole. -/
theorem Sub.eq_of_head {v t : Tree} (h : Sub v t) (hnd : (t.records.map Node.slot).Nodup)
    (hv : t.head.slot ∈ v.records.map Node.slot) : v = t := by
  cases h with
  | refl => rfl
  | kid hk hsub =>
    -- below a child there are only slots of that child, and the root's is not one of them
    obtain ⟨x, hx, hxs⟩ := List.mem_map.mp hv
    rw [records_node, List.map_cons, List.nodup_cons] at hnd
    exact absurd (hxs ▸ List.mem_map_of_mem (mem_layout_of_mem hk (hsub.records_subset x hx)))
      hnd.1

theorem Recounted.slots {v u : Tree} (h : Recounted v u) :
    u.records.map Node.slot = v.records.map Node.slot := by
  rcases h with rfl | ⟨-, n, rfl⟩
  · rfl
  · rw [records_eq v]
    simp

/-- A recounted root keeps the slot and the pin of its root record, so a root recounted from an
unpinned one is owed a unit on that slot. -/
theorem Recounted.owed {v u : Tree} (h : Recounted v u) {w : Nat → Nat} {ts : List Tree}
    (hown : RootsOwed w ts) (hu : u ∈ ts) (hp : v.head.pinned = false) : 0 < w v.head.slot := by
  have hu' := hown u hu
  rcases h with rfl | ⟨-, n, rfl⟩ <;> exact hu' hp

theorem kidSlots_singleton (t : Tree) : kidSlots [t] = heads t.kids ++ kidSlots t.kids := by
  rw [← eta t]
  simp [kidSlots]

theorem Ctx.mem_kidSlots_fill (c : Ctx) {us : List Tree} {s : Nat} (hs : s ∈ kidSlots us) :
    s ∈ kidSlots (c.fill us) := by
  obtain ⟨e, he, hse⟩ := List.mem_flatMap.mp hs
  exact List.mem_flatMap.mpr ⟨e, c.linksAll_subset_fill us he, hse⟩

/-- A record of a subtree that is a root of the forest is the subtree's root: below the root
every record is some record's child. -/
theorem slot_eq_head_of_mem_heads {c : Ctx} {T : Tree}
    (hnd : ((layout (c.fill [T])).map Node.slot).Nodup) {s : Nat} (hs : s ∈ heads (c.fill [T]))
    (hT : s ∈ T.records.map Node.slot) : s = T.head.slot := by
  rw [records_eq, List.map_cons, List.mem_cons] at hT
  rcases hT with rfl | hT
  · rfl
  · have hk : s ∈ kidSlots [T] := by
      rw [kidSlots_singleton]
      exact (perm_heads_kids T.kids).symm.subset hT
    exact absurd (c.mem_kidSlots_fill hk) (not_mem_kidSlots_of_mem_heads hnd hs)

theorem Ctx.nodup_fill_nil {c : Ctx} {us : List Tree}
    (hnd : ((layout (c.fill us)).map Node.slot).Nodup) :
    ((layout (c.fill [])).map Node.slot).Nodup := by
  refine hnd.sublist (List.Sublist.map _ ?_)
  rw [Ctx.layout_fill, Ctx.layout_fill, layout_nil, List.append_nil]
  exact (List.sublist_append_left _ _).append (List.Sublist.refl _)

/-- In a forest with distinct slots, two subtrees sharing a slot are the same. -/
theorem eq_of_mem_slots : ∀ {ks : List Tree}, ((layout ks).map Node.slot).Nodup →
    ∀ {k k' : Tree}, k ∈ ks → k' ∈ ks → ∀ {s : Nat}, s ∈ k.records.map Node.slot →
      s ∈ k'.records.map Node.slot → k = k'
  | [], _, _, _, hk, _, _, _, _ => absurd hk List.not_mem_nil
  | a :: ks, hnd, k, k', hk, hk', s, hs, hs' => by
    rw [layout_cons, List.map_append, List.nodup_append] at hnd
    have hin : ∀ {t}, t ∈ ks → s ∈ t.records.map Node.slot → s ∈ (layout ks).map Node.slot :=
      fun ht hst => by
        obtain ⟨x, hx, rfl⟩ := List.mem_map.mp hst
        exact List.mem_map_of_mem (mem_layout_of_mem ht hx)
    rcases List.mem_cons.mp hk with rfl | hk₁ <;> rcases List.mem_cons.mp hk' with rfl | hk₂
    · rfl
    · exact absurd rfl (hnd.2.2 _ hs _ (hin hk₂ hs'))
    · exact absurd rfl (hnd.2.2 _ hs' _ (hin hk₁ hs))
    · exact eq_of_mem_slots hnd.2.1 hk₁ hk₂ hs hs'

end Tree

namespace Pool

open TreeArena.Tree

/-! ### Adopting -/

section Adopting

variable {c : Ctx} {T : Tree} {rest : List Tree} {T' : Tree}

theorem lowerAt_slot (s : Nat) (nd : Node) : (lowerAt s nd).slot = nd.slot := by
  unfold lowerAt
  split <;> rfl

theorem Adopted.kids_eq (ha : Adopted c T rest T') : T'.kids = T.kids := by
  rcases ha with ⟨-, -, rfl⟩ | ⟨-, -, -, -, rfl⟩ <;> rfl

theorem Adopted.head_slot (ha : Adopted c T rest T') : T'.head.slot = T.head.slot := by
  rcases ha with ⟨-, -, rfl⟩ | ⟨-, -, -, -, rfl⟩
  · simp only [head_node]
    split <;> rfl
  · rfl

theorem Adopted.slots (ha : Adopted c T rest T') :
    (layout rest).map Node.slot = (layout (c.fill [])).map Node.slot := by
  rcases ha with ⟨-, rfl, -⟩ | ⟨-, -, -, rfl, -⟩
  · rfl
  · rw [layout_mapAll, List.map_map]
    exact List.map_congr_left fun nd _ => lowerAt_slot _ nd

theorem Adopted.nodup (ha : Adopted c T rest T')
    (hnd : ((layout (c.fill [T])).map Node.slot).Nodup) : ((layout rest).map Node.slot).Nodup := by
  rw [ha.slots]
  exact Ctx.nodup_fill_nil hnd

theorem Adopted.lookup_moved (ha : Adopted c T rest T') {s : Nat} (hs : s ≠ T.head.slot) :
    lookup s [T'] = lookup s [T] := by
  rw [← eta T', ← eta T, lookup_node, lookup_node, ha.head_slot, ha.kids_eq,
    if_neg (Ne.symm hs), if_neg (Ne.symm hs)]

/-- Below a parent, the parent's record lists the subtree at the hole among its children. -/
theorem lookup_parent {f : Frame} {fs : List Frame} (hup : c.up = f :: fs) {us : List Tree}
    (hnd : ((layout (c.fill us)).map Node.slot).Nodup) :
    lookup f.head.slot (c.fill us) = some (f.head, heads (f.left ++ us ++ f.right)) := by
  rw [Ctx.eq_child_of_up hup, Ctx.child_fill] at hnd ⊢
  exact lookup_fill_head hnd

/-- Adopting keeps the entry of every record outside the subtree but its old parent's. -/
theorem Adopted.lookup_of_ne (ha : Adopted c T rest T') {s : Nat}
    (hs : s ∉ T.records.map Node.slot) (hP : ∀ f ∈ c.up.head?, f.head.slot ≠ s) :
    lookup s rest = lookup s (c.fill [T]) := by
  have hT : lookup s [T] = none := lookup_eq_none (by rwa [layout_singleton])
  rcases ha with ⟨hup, rfl, -⟩ | ⟨f, fs, hup, rfl, -⟩
  · have h₀ : c.fill [] = c.left ++ [] ++ c.right := by simp [Ctx.fill, hup, Frame.closeAll]
    have h₁ : c.fill [T] = c.left ++ [T] ++ c.right := by simp [Ctx.fill, hup, Frame.closeAll]
    rw [h₀, h₁, lookup_append, lookup_append, lookup_append, lookup_append, hT, lookup_nil]
  · have hne : f.head.slot ≠ s := hP f (by simp [hup])
    rw [lookup_mapAll (lowerAt_slot _), Ctx.lookup_fill_parent hup hne
      (show lookup s [] = lookup s [T] by rw [hT]; rfl)]
    cases hl : lookup s (c.fill [T]) with
    | none => rfl
    | some e =>
      obtain ⟨-, hes⟩ := mem_of_lookup hl
      simp [lowerAt, hes, Ne.symm hne]

/-- Adopting keeps every record outside the subtree, up to its children count. -/
theorem Adopted.recordAt (hnd : ((layout (c.fill [T])).map Node.slot).Nodup)
    (ha : Adopted c T rest T') {s : Nat} (hs : s ∉ T.records.map Node.slot) :
    recordAt s rest = recordAt s (c.fill [T]) := by
  rcases ha with ⟨hup, hrest, hT'⟩ | ⟨f, fs, hup, rfl, -⟩
  · exact recordAt_eq_of_lookup (Adopted.lookup_of_ne (.inl ⟨hup, hrest, hT'⟩) hs (by simp [hup]))
  by_cases hP : f.head.slot = s
  · -- the old parent keeps its record, with one child fewer
    subst hP
    have hnd₀ := Ctx.nodup_fill_nil hnd
    rw [Tree.recordAt, Tree.recordAt, lookup_mapAll (lowerAt_slot _), lookup_parent hup hnd₀,
      lookup_parent hup hnd]
    simp [lowerAt]
  · have hne : ∀ g ∈ c.up.head?, g.head.slot ≠ s := by simp [hup, hP]
    exact recordAt_eq_of_lookup (Adopted.lookup_of_ne (.inr ⟨f, fs, hup, rfl, rfl⟩) hs hne)

theorem Adopted.mem_heads (ha : Adopted c T rest T') {s : Nat} (hs : s ≠ T.head.slot)
    (h : s ∈ heads (c.fill [T])) : s ∈ heads rest := by
  rcases ha with ⟨hup, rfl, -⟩ | ⟨f, fs, hup, rfl, -⟩
  · rw [Ctx.heads_fill_of_up_eq_nil hup] at h ⊢
    simp only [heads_cons, heads_nil, List.mem_append, List.mem_cons, List.not_mem_nil,
      or_false] at h ⊢
    tauto
  · rw [heads_mapAll _ (lowerAt_slot _), Ctx.heads_fill_of_up_ne_nil (by simp [hup]) [] [T]]
    exact h

/-- Adopting makes no new root but the subtree's, which the forest without it lacks. -/
theorem Adopted.heads_subset (ha : Adopted c T rest T') {s : Nat} (h : s ∈ heads rest) :
    s ∈ heads (c.fill [T]) := by
  rcases ha with ⟨hup, rfl, -⟩ | ⟨f, fs, hup, rfl, -⟩
  · rw [Ctx.heads_fill_of_up_eq_nil hup] at h ⊢
    simp only [heads_cons, heads_nil, List.mem_append, List.mem_cons, List.not_mem_nil,
      or_false] at h ⊢
    tauto
  · rw [heads_mapAll _ (lowerAt_slot _), Ctx.heads_fill_of_up_ne_nil (by simp [hup]) [] [T]] at h
    exact h

end Adopting

end Pool

namespace Tree

/-! ### Attaching -/

section Attaching

variable {d : Ctx} {h : Node} {ks : List Tree} {T' : Tree} {m n : Nat}

/-- The new parent lists the attached subtree at the index it was given. -/
theorem lookup_attached_parent
    (hnd : ((layout (d.fill [node { h with children := n } (ks.take m ++ T' :: ks.drop m)])).map
      Node.slot).Nodup) :
    lookup h.slot (d.fill [node { h with children := n } (ks.take m ++ T' :: ks.drop m)]) =
      some ({ h with children := n }, heads (ks.take m) ++ T'.head.slot :: heads (ks.drop m)) := by
  have := lookup_fill_head hnd
  simpa using this

/-- Attaching changes no entry but the new parent's and those of the attached subtree. -/
theorem lookup_attached_of_ne {s : Nat} (hs : s ≠ h.slot) (hT : s ∉ T'.records.map Node.slot) :
    lookup s (d.fill [node { h with children := n } (ks.take m ++ T' :: ks.drop m)]) =
      lookup s (d.fill [node h ks]) := by
  have hT' : lookup s [T'] = none := lookup_eq_none (by rwa [layout_singleton])
  have hh : heads [node { h with children := n } (ks.take m ++ T' :: ks.drop m)] =
      heads [node h ks] := rfl
  refine d.lookup_fill_congr hh ?_
  rw [lookup_node, lookup_node]
  simp only [Ne.symm hs, if_false]
  rw [lookup_append, lookup_cons, hT', Option.none_or, ← lookup_append, List.take_append_drop]

/-- The attached subtree keeps its own entries. -/
theorem lookup_attached_moved
    (hnd : ((layout (d.fill [node { h with children := n } (ks.take m ++ T' :: ks.drop m)])).map
      Node.slot).Nodup) {s : Nat} (hT : s ∈ T'.records.map Node.slot) :
    lookup s (d.fill [node { h with children := n } (ks.take m ++ T' :: ks.drop m)]) =
      lookup s [T'] := by
  obtain ⟨e, he⟩ := Option.isSome_iff_exists.mp
    (lookup_isSome_iff.mpr (by rwa [layout_singleton]))
  rw [he]
  refine lookup_of_linksAll_subset hnd (fun e he => d.linksAll_subset_fill _ ?_) he
  rw [linksAll_singleton] at he
  simp [he]

theorem heads_attached :
    heads (d.fill [node { h with children := n } (ks.take m ++ T' :: ks.drop m)]) =
      heads (d.fill [node h ks]) :=
  d.heads_fill_congr rfl

end Attaching

/-! ### Rewriting a record, cutting out a root -/

/-- Rewriting a record in place changes no other entry, and no root. -/
theorem lookup_fill_node_congr (c : Ctx) {h h' : Node} (hslot : h'.slot = h.slot) (ks : List Tree)
    {s : Nat} (hs : s ≠ h.slot) : lookup s (c.fill [node h' ks]) = lookup s (c.fill [node h ks]) := by
  have hh : heads [node h' ks] = heads [node h ks] := by simp [hslot]
  refine c.lookup_fill_congr hh ?_
  rw [lookup_node, lookup_node, if_neg fun e => hs (hslot ▸ e).symm, if_neg fun e => hs e.symm]

/-- Replacing one run of roots by another, and adding roots after, keeps the entries of the
roots' subtrees on both sides. -/
theorem lookup_beside {A X Y B S : List Tree} {s : Nat}
    (hs : s ∈ (layout (A ++ B)).map Node.slot) (hX : s ∉ (layout X).map Node.slot)
    (hY : s ∉ (layout Y).map Node.slot) :
    lookup s (A ++ Y ++ B ++ S) = lookup s (A ++ X ++ B) := by
  rw [lookup_append, lookup_append, lookup_append, lookup_append, lookup_append,
    lookup_eq_none hX, lookup_eq_none hY]
  cases hA : lookup s A with
  | some e => rfl
  | none =>
    have hB : (lookup s B).isSome := by
      rw [← lookup_isSome_iff.mpr hs, lookup_append, hA]
      rfl
    obtain ⟨e, he⟩ := Option.isSome_iff_exists.mp hB
    simp [he]

end Tree

end TreeArena
