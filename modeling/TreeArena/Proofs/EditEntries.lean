import TreeArena.Proofs.Entries
import TreeArena.Proofs.HandleOps

/-!
# Pool edits on the abstract forest

The pool operations a constructor runs, each read through the entries of the forest the pool
lays out: attaching a subtree as the last child of a root (`Kept.attach_last`), giving back a
unit of a child (`Kept.release_child`) or of any live record (`Kept.release_roots`), and
degrading a root (`Kept.degrade_root`). Each names the entries that change and keeps the rest.
-/

namespace TreeArena

namespace Pool

open TreeArena.Tree

variable {p : Pool} {w : Nat → Nat}

theorem Sound.isFree_of_mem {ts : List Tree} (hS : p.Sound w ts) {s : Nat}
    (hs : s ∈ (layout ts).map Node.slot) : p.slots.isFree s = false :=
  (hS.isFree_eq_false_iff s).mpr hs

/-! ### Attaching at the end -/

/-- Attaching a subtree outside a root as that root's last child: the root lists it last, every
other record but the subtree's root keeps its record apart from children counts, and the roots
are those of the forest but the subtree's. Only a full count of a root being adopted would stop
it. -/
theorem Kept.attach_last {c : Ctx} {T : Tree} (hK : p.Kept w (c.fill [T])) {r : Nat}
    {nr : Node} {kids : List Nat} (hroot : r ∈ heads (c.fill [T]))
    (hr : lookup r (c.fill [T]) = some (nr, kids)) (hkr : nr.kind ≠ failureKind)
    (hkT : T.head.kind ≠ failureKind) (hTr : T.head.slot ≠ r) (hkid : T.head.slot ∉ kids)
    (hroom : c.up = [] → T.head.pinned = false → T.head.retain < maxCount) :
    ∃ p' ts', (Pool.attach r T.head.slot kids.length).run p = .ok () p' ∧ p'.Kept w ts' ∧
      p.Steps (fun _ => False) p' ∧
      lookup r ts' = some ({ nr with children := kids.length + 1 }, kids ++ [T.head.slot]) ∧
      (∀ s, s ≠ T.head.slot → (s ∈ heads ts' ↔ s ∈ heads (c.fill [T]))) ∧
      ∀ s, s ≠ r → s ≠ T.head.slot → recordAt s ts' = recordAt s (c.fill [T]) := by
  have hS := hK.sound
  have hnd := hS.laid.nodup
  have hrT : r ∉ T.records.map Node.slot := fun h =>
    hTr (slot_eq_head_of_mem_heads hnd hroot h).symm
  have hr' : r ∈ (layout (c.fill [])).map Node.slot := by
    have hmem : r ∈ (layout (c.fill [T])).map Node.slot := lookup_isSome_iff.mp (by simp [hr])
    rw [Ctx.layout_fill, layout_singleton] at hmem
    rw [Ctx.layout_fill, layout_nil, List.append_nil]
    simp only [List.map_append, List.mem_append] at hmem ⊢
    tauto
  -- the new parent is the only record in its slot, and no failure
  have hkr' : ∀ x ∈ layout (c.fill []), x.slot = r → x.kind ≠ failureKind := by
    intro x hx hxs
    have hx' : x ∈ layout (c.fill [T]) := by
      rw [Ctx.layout_fill] at hx ⊢
      simp only [layout_nil, List.append_nil, List.mem_append] at hx ⊢
      tauto
    obtain ⟨hm, hs⟩ := mem_of_lookup hr
    obtain rfl := hS.eq_of_slot_eq hx' (fst_mem_layout hm) (hxs.trans hs.symm)
    exact hkr
  rcases hK.attach hr' hkr' hkT kids.length with ⟨hup, hpin, hmax, -⟩ | ⟨p', ts', hrun, hK', hst⟩
  · exact absurd hmax (Nat.ne_of_lt (hroom hup hpin))
  obtain ⟨p'', d, h, ks, T', hrun', hh, hrec, had, hS', -⟩ := (attach_spec hS hr' kids.length).resolve_left
    fun hover => by rw [hrun] at hover; cases hover.2.2.2
  cases hrun.symm.trans hrun'
  obtain rfl := hK'.sound.forest_eq hS'
  -- the old parent is not `r`, which does not list the subtree
  have hP : ∀ f ∈ c.up.head?, f.head.slot ≠ r := by
    intro f hf heq
    obtain ⟨fs, hup⟩ : ∃ fs, c.up = f :: fs := by
      cases hc : c.up with
      | nil => simp [hc] at hf
      | cons g gs =>
        rw [hc, List.head?_cons, Option.mem_some_iff] at hf
        exact ⟨gs, by rw [hf]⟩
    have hpar := lookup_parent hup hnd
    rw [heq, hr] at hpar
    exact hkid ((Prod.mk.inj (Option.some.inj hpar)).2 ▸ by simp)
  -- before attaching, the new parent is `r` with the children it had
  have hhead := lookup_fill_head (had.nodup hnd)
  rw [hh, had.lookup_of_ne hrT hP, hr] at hhead
  obtain ⟨rfl, hkids⟩ := Prod.mk.inj (Option.some.inj hhead)
  have hlen : kids.length = ks.length := by rw [hkids, heads, List.length_map]
  have hm : min (kids.length : Int).toNat ks.length = ks.length := by simp [hlen]
  have hnd' := hS'.laid.nodup
  have hslots : T'.records.map Node.slot = T.records.map Node.slot := hrec
  refine ⟨p', _, hrun, hK', hst, ?_, fun s hs => ?_, fun s hsr hsT => ?_⟩
  · rw [hh.symm, lookup_attached_parent hnd', hm, List.take_length, List.drop_length, heads_nil,
      had.head_slot, ← hkids, hlen]
  · rw [heads_attached]
    exact ⟨had.heads_subset, had.mem_heads hs⟩
  · by_cases hin : s ∈ T.records.map Node.slot
    · -- a record below the subtree's root moved with it
      obtain ⟨e, he⟩ := Option.isSome_iff_exists.mp
        (lookup_isSome_iff.mpr (by rwa [layout_singleton]) : (lookup s [T]).isSome)
      refine recordAt_eq_of_lookup ?_
      rw [lookup_attached_moved hnd' (hslots ▸ hin), had.lookup_moved hsT, he,
        lookup_fill_of_lookup hnd he]
    · rw [recordAt_eq_of_lookup (lookup_attached_of_ne (hh ▸ hsr) (hslots ▸ hin))]
      exact had.recordAt hnd hin

/-! ### Giving back units -/

theorem slot_not_mem_middle {A X B : List Tree}
    (hnd : ((layout (A ++ X ++ B)).map Node.slot).Nodup) {x : Nat}
    (hx : x ∈ (layout (A ++ B)).map Node.slot) : x ∉ (layout X).map Node.slot := by
  simp only [layout_append, List.map_append, List.mem_append] at hnd hx
  rw [List.nodup_append, List.nodup_append] at hnd
  rcases hx with hx | hx
  · exact fun h => hnd.1.2.2 _ hx _ h rfl
  · exact fun h => hnd.2.2 _ (List.mem_append_right _ h) _ hx rfl

/-- A root beside one that is replaced, with roots added after, stays a root with its entry. -/
theorem root_beside {A B Y S : List Tree} {T : Tree}
    (hnd : ((layout (A ++ [T] ++ B)).map Node.slot).Nodup) {x : Nat}
    (hx : x ∈ heads (A ++ [T] ++ B)) (hxT : x ≠ T.head.slot) (hY : x ∉ (layout Y).map Node.slot) :
    x ∈ heads (A ++ Y ++ B ++ S) ∧ lookup x (A ++ Y ++ B ++ S) = lookup x (A ++ [T] ++ B) := by
  have hx' : x ∈ heads A ∨ x ∈ heads B := by
    simp only [heads_append, heads_cons, heads_nil, List.mem_append, List.mem_cons,
      List.not_mem_nil, or_false] at hx
    rcases hx with (hA | hT) | hB
    · exact .inl hA
    · exact absurd hT hxT
    · exact .inr hB
  have hxs : x ∈ (layout (A ++ B)).map Node.slot :=
    mem_slots_of_mem_heads (by rw [heads_append]; exact List.mem_append.mpr hx')
  refine ⟨?_, lookup_beside hxs (slot_not_mem_middle hnd hxs) hY⟩
  simp only [heads_append, List.mem_append]
  rcases hx' with hA | hB
  · exact .inl (.inl (.inl hA))
  · exact .inl (.inr hB)

theorem RemainsAll.mem_slots {ks S : List Tree} (hS : RemainsAll ks S) {x : Nat}
    (hx : x ∈ (layout S).map Node.slot) : x ∈ (layout ks).map Node.slot := by
  obtain ⟨nd, hnd, rfl⟩ := List.mem_map.mp hx
  obtain ⟨u, hu, hnu⟩ := exists_mem_of_mem_layout hnd
  obtain ⟨k, hk, v, hv, hr⟩ := hS u hu
  obtain ⟨y, hy, hys⟩ := List.mem_map.mp (hr.slots ▸ List.mem_map_of_mem hnu :
    nd.slot ∈ v.records.map Node.slot)
  exact List.mem_map.mpr ⟨y, mem_layout_of_mem hk (hv.records_subset y hy), hys⟩

/-- Giving back a unit of a record that has a parent only lowers its count: the roots and every
other entry stay. -/
theorem Kept.release_child {ts : List Tree} {s : Nat} (hK : p.Kept (addUnit w s) ts)
    (hf : 0 < w p.failure.slot) (hs : s ∈ (layout ts).map Node.slot) (hroot : s ∉ heads ts) :
    ∃ p' ts', (Pool.release s).run p = .ok () p' ∧ p'.Kept w ts' ∧ p.Steps (fun x => w x = 0) p' ∧
      heads ts' = heads ts ∧ (∀ x, x ≠ s → lookup x ts' = lookup x ts) ∧
      recordAt s ts' = (recordAt s ts).map fun nd => { nd with retain := nd.retain - 1 } := by
  obtain ⟨c, h, ks, rfl, rfl⟩ := hK.sound.exists_hole (hK.sound.isFree_of_mem hs)
  have hup : c.up ≠ [] := fun hup => hroot (by rw [Ctx.heads_fill_of_up_eq_nil hup]; simp)
  have hpin : h.pinned = false := hK.pinned_eq_false_of_up hup
  obtain ⟨p', ts', hrun, hrel, hK', hst⟩ := hK.release hf
  rcases hrel with ⟨hp, -⟩ | ⟨-, -, hS₁⟩ | ⟨-, -, hup', -⟩
  · simp [hpin] at hp
  · obtain rfl := hK'.sound.forest_eq hS₁
    have hslot : ({ h with retain := h.retain - 1 } : Node).slot = h.slot := rfl
    refine ⟨p', _, hrun, hK', hst, c.heads_fill_congr (by simp),
      fun x hx => lookup_fill_node_congr c hslot ks hx, ?_⟩
    simp [recordAt, lookup_fill_head hS₁.laid.nodup, lookup_fill_head hK.sound.laid.nodup]
  · exact absurd hup' hup

/-- Giving back a unit of a live record keeps every other root with its entry; a root that held
only that unit, and is not pinned, is reclaimed and its slot freed. -/
theorem Kept.release_roots {ts : List Tree} {s : Nat} (hK : p.Kept (addUnit w s) ts)
    (hf : 0 < w p.failure.slot) (hs : s ∈ (layout ts).map Node.slot) :
    ∃ p' ts', (Pool.release s).run p = .ok () p' ∧ p'.Kept w ts' ∧ p.Steps (fun x => w x = 0) p' ∧
      (∀ x ∈ heads ts, x ≠ s → x ∈ heads ts' ∧ lookup x ts' = lookup x ts) ∧
      (s ∈ heads ts → (recordAt s ts).map (fun nd => (nd.pinned, nd.retain)) = some (false, 1) →
        s ∉ (layout ts').map Node.slot) := by
  obtain ⟨c, h, ks, rfl, rfl⟩ := hK.sound.exists_hole (hK.sound.isFree_of_mem hs)
  have hnd := hK.sound.laid.nodup
  have hrec : recordAt h.slot (c.fill [node h ks]) = some { h with children := 0 } := by
    simp [recordAt, lookup_fill_head hnd]
  obtain ⟨p', ts', hrun, hrel, hK', hst⟩ := hK.release hf
  refine ⟨p', ts', hrun, hK', hst, ?_⟩
  rcases hrel with ⟨hp, rfl⟩ | ⟨hp, hone, hS₁⟩ | ⟨hp, hone, hup, S, hS₁, -, hrem⟩
  · -- a pinned record stays as it was
    obtain rfl := hK.sound.forest_eq hK'.sound
    refine ⟨fun x hx _ => ⟨hx, rfl⟩, fun _ hr => ?_⟩
    rw [hrec] at hr
    simp [hp] at hr
  · -- the record keeps a unit
    obtain rfl := hK'.sound.forest_eq hS₁
    have hslot : ({ h with retain := h.retain - 1 } : Node).slot = h.slot := rfl
    have hh : heads [node { h with retain := h.retain - 1 } ks] = heads [node h ks] := rfl
    refine ⟨fun x hx hxs => ⟨?_, lookup_fill_node_congr c hslot ks hxs⟩, fun _ hr => ?_⟩
    · rwa [c.heads_fill_congr hh]
    · rw [hrec] at hr
      simp only [Option.map_some, Option.some.injEq, Prod.mk.injEq] at hr
      exact absurd hr.2 hone
  · -- the root is reclaimed: the roots beside it stay, and its slot is no record's
    obtain rfl := hK'.sound.forest_eq hS₁
    have hfill : c.fill [node h ks] = c.left ++ [node h ks] ++ c.right := by
      simp [Ctx.fill, hup, Frame.closeAll]
    rw [hfill] at hnd ⊢
    have hside : ∀ x, x ∈ (layout (c.left ++ c.right)).map Node.slot →
        x ∉ (layout [node h ks]).map Node.slot := fun x hx => slot_not_mem_middle hnd hx
    refine ⟨fun x hx hxs => ?_, fun _ _ hmem => ?_⟩
    · have := root_beside (Y := []) (S := S) hnd hx hxs (by simp)
      simpa using this
    · simp only [layout_append, List.map_append, List.mem_append] at hmem
      rcases hmem with (hm | hm) | hm
      · exact hside h.slot (by simp [hm]) (by simp)
      · exact hside h.slot (by simp [hm]) (by simp)
      · -- what remains of the children holds their slots, which are not the root's
        have := (hrem ▸ remainsAll_dropUnitAll ks).mem_slots hm
        rw [layout_append, layout_append, layout_singleton, records_node] at hnd
        simp only [List.map_append, List.map_cons] at hnd
        have hnd' := (List.nodup_append.mp (List.nodup_append.mp hnd).1).2.1
        exact (List.nodup_cons.mp hnd').1 this

/-! ### Degrading a root -/

/-- Degrading a root that is no failure turns it into a childless failure root in place, keeps
every other root with its entry, and reclaims each of its children that was owed nothing but its
edge. -/
theorem Kept.degrade_root {ts : List Tree} (hK : p.Kept w ts) {r : Nat} (hroot : r ∈ heads ts)
    {nr : Node} {kids : List Nat} (hr : lookup r ts = some (nr, kids))
    (hk : nr.kind ≠ failureKind) :
    ∃ p' ts', (Pool.degrade r).run p = .ok () p' ∧ p'.Kept w ts' ∧
      p.Steps (fun s => w s = 0) { p' with journal := p.journal } ∧
      p'.journal.toList = p.journal.toList ++ degradedLines p [nr] ∧
      lookup r ts' = some (failed nr, []) ∧ r ∈ heads ts' ∧
      (∀ x ∈ heads ts, x ≠ r → x ∈ heads ts' ∧ lookup x ts' = lookup x ts) ∧
      ∀ z ∈ kids, z ≠ p.failure.slot → w z = 0 → z ∉ (layout ts').map Node.slot := by
  obtain ⟨hm, rfl⟩ := mem_of_lookup hr
  obtain ⟨c, nr, ks, rfl, hs⟩ := hK.sound.exists_hole (hK.sound.isFree_of_mem
    (List.mem_map_of_mem (fst_mem_layout hm)))
  have hnd := hK.sound.laid.nodup
  rw [← hs, lookup_fill_head hnd] at hr
  obtain ⟨h₁, h₂⟩ := Prod.mk.inj (Option.some.inj hr)
  subst h₁ h₂
  have hup : c.up = [] := up_eq_nil_of_mem_heads (t := node nr ks) hnd hroot
  have hchain : c.chain nr = [nr] := by simp [Ctx.chain, hup]
  obtain ⟨p', S, hrun, hS', -, hdeg, hj, hst⟩ := degrade_spec hK.sound
    (fun a ha => by rw [hchain, List.mem_singleton] at ha; rw [ha]; exact hk)
  obtain ⟨p'', ts', hrun', hK', -⟩ := hK.degrade hk
  cases hrun.symm.trans hrun'
  rw [show c.outermost nr = nr by simp [Ctx.outermost, hup]] at hS'
  obtain rfl := hK'.sound.forest_eq hS'
  have hfill : c.fill [node nr ks] = c.left ++ [node nr ks] ++ c.right := by
    simp [Ctx.fill, hup, Frame.closeAll]
  have hnew : c.left ++ node (failed nr) [] :: (c.right ++ S) =
      c.left ++ [node (failed nr) []] ++ c.right ++ S := by simp
  have hnd' := hS'.laid.nodup
  rw [hfill] at hnd hroot ⊢
  rw [hchain] at hj
  refine ⟨p', _, hrun, hK', hst, hj, ?_, by simp, fun x hx hxs => ?_, fun z hz hzf hw hmem => ?_⟩
  · have hX : ((layout ((Ctx.top c.left (c.right ++ S)).fill [node (failed nr) []])).map
        Node.slot).Nodup := by
      rw [Ctx.top_fill]; simpa using hnd'
    have := lookup_fill_head hX
    rw [Ctx.top_fill] at this
    simpa using this
  · rw [hnew]
    refine root_beside hnd hx (fun h => hxs (h.trans hs)) ?_
    simp only [layout_singleton, records_node, layout_nil, List.map_cons, List.map_nil,
      List.mem_singleton, failed_slot]
    exact fun h => hxs (h.trans hs)
  · -- a child owed nothing is not the root of what survives, nor inside it
    have hzks : z ∈ (layout ks).map Node.slot := mem_slots_of_mem_heads hz
    have hndT : ((node nr ks).records.map Node.slot).Nodup := by
      rw [← layout_singleton]
      exact hnd.sublist (List.Sublist.map _ (by simp))
    have hzT : z ∈ (layout [node nr ks]).map Node.slot := by
      rw [layout_singleton, records_node, List.map_cons]
      exact List.mem_cons_of_mem _ hzks
    rw [hnew] at hmem
    simp only [layout_append, List.map_append, List.mem_append] at hmem
    rcases hmem with ((hm | hm) | hm) | hm
    · exact slot_not_mem_middle hnd
        (by rw [layout_append, List.map_append]; exact List.mem_append_left _ hm) hzT
    · simp only [layout_singleton, records_node, layout_nil, List.map_cons, List.map_nil,
        List.mem_singleton, failed_slot] at hm
      rw [records_node, List.map_cons, List.nodup_cons] at hndT
      exact hndT.1 (hm ▸ hzks)
    · exact slot_not_mem_middle hnd
        (by rw [layout_append, List.map_append]; exact List.mem_append_right _ hm) hzT
    · obtain ⟨nd, hnd₁, rfl⟩ := List.mem_map.mp hm
      obtain ⟨u, hu, hnu⟩ := exists_mem_of_mem_layout hnd₁
      have hdu := hdeg u hu
      rw [hchain, Ctx.hanging, hup] at hdu
      rcases hdu with ⟨k, hk, v, hv, hrc⟩ | ⟨a, ha, -⟩
      · simp only [List.flatMap_nil, List.append_nil] at hk
        obtain ⟨k', hk', hk's⟩ := List.mem_map.mp hz
        have hndks : ((layout ks).map Node.slot).Nodup := by
          rw [records_node, List.map_cons, List.nodup_cons] at hndT
          exact hndT.2
        have hzv : nd.slot ∈ v.records.map Node.slot := hrc.slots ▸ List.mem_map_of_mem hnu
        obtain ⟨y, hy, hys⟩ := List.mem_map.mp hzv
        have hzk : nd.slot ∈ k.records.map Node.slot :=
          List.mem_map.mpr ⟨y, hv.records_subset y hy, hys⟩
        have hkk : k' = k := eq_of_mem_slots hndks hk' hk
          (by rw [records_eq]; simp [hk's]) hzk
        subst hkk
        have hndk : (k'.records.map Node.slot).Nodup :=
          hndks.sublist (List.Sublist.map _ (by
            obtain ⟨l₁, l₂, rfl⟩ := List.append_of_mem hk'
            simp))
        obtain rfl := hv.eq_of_head hndk (hk's ▸ hzv)
        -- it would be a root owed a unit, yet nothing is owed on its slot
        have hpin : v.head.pinned = false := by
          obtain ⟨b, hb⟩ := proper_of_mem_layout hK.proper
            (by rw [hfill]; simp [head_mem_layout hk'] : v.head ∈ layout (c.fill [node nr ks]))
          cases hpk : v.head.pinned
          · rfl
          · exact absurd (hk's ▸ hb.pinned_iff.mp hpk) hzf
        have hown := hrc.owed hK'.owed (by simp [hu]) hpin
        rw [hk's, hw] at hown
        exact absurd hown (Nat.lt_irrefl 0)
      · simp at ha

end Pool

end TreeArena
