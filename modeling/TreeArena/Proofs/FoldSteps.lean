import TreeArena.Proofs.Constructors
import TreeArena.Proofs.Transfer

/-!
# Steps of a fold

Folding a child into its parent, as flattening does it, is a splice of the child's children into
the parent's in the child's place, then a cut of the emptied child, then the release of the
handle that held it. The edit lemmas describe each step up to the hole the record lands at; in a
forest whose records have distinct slots a record sits at one hole only (`Ctx.eq_of_fill_eq`), so
here each step is given with the forest it leaves, written out.
-/

namespace TreeArena

namespace Tree

/-- Of two trees of a forest whose records have distinct slots, at most one holds a given slot. -/
theorem split_eq_of_mem_slots {L₁ R₁ L₂ R₂ : List Tree} {X Y : Tree} (h : L₁ ++ X :: R₁ = L₂ ++ Y :: R₂)
    (hnd : ((layout (L₁ ++ X :: R₁)).map Node.slot).Nodup) {s : Nat}
    (hX : s ∈ X.records.map Node.slot) (hY : s ∈ Y.records.map Node.slot) :
    L₁ = L₂ ∧ X = Y ∧ R₁ = R₂ := by
  -- two different trees of the forest never share a slot
  have apart : ∀ {A M B : List Tree} {P Q : Tree}, ((layout (A ++ P :: M ++ Q :: B)).map Node.slot).Nodup →
      s ∈ P.records.map Node.slot → s ∈ Q.records.map Node.slot → False := by
    intro A M B P Q hn hP hQ
    simp only [layout_append, layout_cons, List.map_append, List.append_assoc] at hn
    have hn' := (List.nodup_append.mp hn).2.1
    exact (List.nodup_append.mp hn').2.2 s hP s (by simp [hQ]) rfl
  rcases append_eq_cons_cases (A := L₁) (X := [X]) (B := R₁) (by simpa using h) with
    ⟨M, rfl, rfl⟩ | ⟨X₁, X₂, hXs, rfl, rfl⟩ | ⟨M, rfl, rfl⟩
  · exact (apart (by simpa using hnd) hY hX).elim
  · rcases X₁ with _ | ⟨x, X₁⟩
    · simp only [List.nil_append, List.cons.injEq] at hXs
      obtain ⟨rfl, rfl⟩ := hXs
      simp
    · simp at hXs
  · exact (apart (by simpa using hnd) hX hY).elim

theorem records_sublist_layout {t : Tree} : ∀ {ts : List Tree}, t ∈ ts → t.records.Sublist (layout ts)
  | t' :: ts, ht => by
    rw [layout_cons]
    rcases List.mem_cons.mp ht with rfl | ht
    · exact List.sublist_append_left _ _
    · exact (records_sublist_layout ht).trans (List.sublist_append_right _ _)

theorem nodup_records_of_mem {t : Tree} {ts : List Tree} (hnd : ((layout ts).map Node.slot).Nodup)
    (ht : t ∈ ts) : (t.records.map Node.slot).Nodup :=
  hnd.sublist ((records_sublist_layout ht).map _)

namespace Ctx

theorem fill_of_up_nil {c : Ctx} (hup : c.up = []) (t : Tree) : c.fill [t] = c.left ++ t :: c.right := by
  simp [fill, hup, Frame.closeAll]

theorem slot_mem_fill {c : Ctx} (t : Tree) :
    t.head.slot ∈ (layout (c.fill [t])).map Node.slot := by
  rw [layout_fill, layout_singleton, records_eq]
  simp

/-- A root record is not also a record below an outermost level. -/
theorem fill_ne_of_up {c d : Ctx} {t u : Tree} {gs : List Frame} {g : Frame} (hc : c.up = [])
    (hd : d.up = gs ++ [g]) (h : c.fill [t] = d.fill [u]) (hs : t.head.slot = u.head.slot)
    (hnd : ((layout (c.fill [t])).map Node.slot).Nodup) : False := by
  let d' : Ctx := ⟨gs, g.left, g.right⟩
  rw [fill_of_up_nil hc, fill_of_up_eq hd] at h
  rw [fill_of_up_nil hc] at hnd
  have hu : u.head.slot ∈ (layout (d'.fill [u])).map Node.slot := slot_mem_fill u
  obtain ⟨-, rfl, -⟩ := split_eq_of_mem_slots h hnd (s := t.head.slot) (by simp [records_eq])
    (by rw [hs, records_node, List.map_cons]; exact List.mem_cons_of_mem _ hu)
  -- the root's slot would stand twice in its own subtree's records
  have hn := nodup_records_of_mem hnd (t := node g.head (d'.fill [u])) (by simp [d'])
  rw [records_node, List.map_cons] at hn
  exact (List.nodup_cons.mp hn).1 (by rw [show g.head.slot = u.head.slot from hs]; exact hu)

/-- In a forest whose records have distinct slots, a record sits at one hole only. -/
theorem eq_of_fill_eq : ∀ (n : Nat) {c d : Ctx} {t u : Tree}, c.up.length = n →
    c.fill [t] = d.fill [u] → t.head.slot = u.head.slot →
    ((layout (c.fill [t])).map Node.slot).Nodup → c = d ∧ t = u := by
  intro n
  induction n with
  | zero =>
    intro c d t u hn h hs hnd
    have hc : c.up = [] := List.eq_nil_of_length_eq_zero hn
    rcases List.eq_nil_or_concat d.up with hd | ⟨gs, g, hd⟩
    · have h' := h
      rw [fill_of_up_nil hc, fill_of_up_nil hd] at h'
      have hnd' := hnd
      rw [fill_of_up_nil hc] at hnd'
      obtain ⟨hl, rfl, hr⟩ := split_eq_of_mem_slots h' hnd' (s := t.head.slot) (by simp [records_eq])
        (by rw [hs, records_eq]; simp)
      refine ⟨?_, rfl⟩
      cases c; cases d
      simp_all
    · rw [List.concat_eq_append] at hd
      exact (fill_ne_of_up hc hd h hs hnd).elim
  | succ n ih =>
    intro c d t u hn h hs hnd
    obtain ⟨fs, f, hc⟩ := (List.eq_nil_or_concat c.up).resolve_left (by intro h0; simp [h0] at hn)
    rw [List.concat_eq_append] at hc
    rcases List.eq_nil_or_concat d.up with hd | ⟨gs, g, hd⟩
    · exact (fill_ne_of_up hd hc h.symm hs.symm (h ▸ hnd)).elim
    rw [List.concat_eq_append] at hd
    -- both holes have an outermost level: the same root, and the same hole below it
    let c' : Ctx := ⟨fs, f.left, f.right⟩
    let d' : Ctx := ⟨gs, g.left, g.right⟩
    have h' := h
    rw [fill_of_up_eq hc, fill_of_up_eq hd] at h'
    have hnd' := hnd
    rw [fill_of_up_eq hc] at hnd'
    have hmem : ∀ (e : Ctx) (v : Tree) (nd : Node),
        v.head.slot ∈ (node nd (e.fill [v])).records.map Node.slot := fun e v nd => by
      simp [slot_mem_fill v]
    obtain ⟨hl, hroot, hr⟩ := split_eq_of_mem_slots h' hnd' (hmem c' t f.head) (hs ▸ hmem d' u g.head)
    obtain ⟨hhead, hkids⟩ := node.inj hroot
    have hnd'' : ((layout (c'.fill [t])).map Node.slot).Nodup := by
      have hn := nodup_records_of_mem hnd' (t := node f.head (c'.fill [t])) (by simp [c'])
      rw [records_node, List.map_cons] at hn
      exact (List.nodup_cons.mp hn).2
    have hlen : c'.up.length = n := by
      simp only [hc, List.length_append, List.length_singleton] at hn
      simpa [c'] using hn
    obtain ⟨hc', rfl⟩ := ih hlen hkids hs hnd''
    simp only [c', mk.injEq] at hc'
    obtain ⟨rfl, hfl, hfr⟩ := hc'
    have hfg : f = g := by
      cases f; cases g
      simp_all
    refine ⟨?_, rfl⟩
    cases c; cases d
    simp_all

/-- Taking records out of the run at a hole keeps the slots of a forest distinct. -/
theorem nodup_fill_of_sublist {c : Ctx} {us vs : List Tree}
    (hnd : ((layout (c.fill us)).map Node.slot).Nodup)
    (hsub : ((layout vs).map Node.slot).Sublist ((layout us).map Node.slot)) :
    ((layout (c.fill vs)).map Node.slot).Nodup := by
  rw [layout_fill, List.map_append, List.map_append] at hnd ⊢
  exact hnd.sublist (((List.Sublist.refl _).append hsub).append (List.Sublist.refl _))

theorem nodup_records_of_fill {c : Ctx} {t : Tree} (hnd : ((layout (c.fill [t])).map Node.slot).Nodup) :
    (t.records.map Node.slot).Nodup := by
  rw [layout_fill, layout_singleton] at hnd
  exact hnd.sublist (((List.sublist_append_right _ _).trans (List.sublist_append_left _ _)).map _)

end Ctx

end Tree

namespace Pool

open TreeArena.Tree

variable {p : Pool} {w : Nat → Nat}

/-- Giving back a unit of a record that keeps another leaves it in place with one unit fewer. -/
theorem Kept.release_held {c : Ctx} {h : Node} {ks : List Tree}
    (hK : p.Kept (addUnit w h.slot) (c.fill [node h ks])) (hf : 0 < w p.failure.slot)
    (hp : h.pinned = false) (hone : h.retain ≠ 1) :
    ∃ p', (Pool.release h.slot).run p = .ok () p' ∧
      p'.Kept w (c.fill [node { h with retain := h.retain - 1 } ks]) ∧
      p.Steps (fun x => w x = 0) p' := by
  obtain ⟨p', ts', hrun, hrel, hK', hst⟩ := hK.release hf
  rcases hrel with ⟨hp', -⟩ | ⟨-, -, hS₁⟩ | ⟨-, hone', -⟩
  · simp [hp] at hp'
  · obtain rfl := hK'.sound.forest_eq hS₁
    exact ⟨_, hrun, hK', hst⟩
  · exact absurd hone' hone

/-- Giving back a unit of a childless last root leaves it with one unit fewer, or reclaims it
with its last unit. -/
theorem Kept.release_last {ts : List Tree} {h : Node}
    (hK : p.Kept (addUnit w h.slot) (ts ++ [node h []])) (hf : 0 < w p.failure.slot)
    (hp : h.pinned = false) :
    ∃ p', (Pool.release h.slot).run p = .ok () p' ∧
      p'.Kept w (ts ++ if h.retain = 1 then [] else [node { h with retain := h.retain - 1 } []]) ∧
      p.Steps (fun x => w x = 0) p' := by
  have hK₁ : p.Kept (addUnit w h.slot) ((Ctx.top ts []).fill [node h []]) := by
    rwa [Ctx.top_fill, List.append_nil]
  obtain ⟨p', ts', hrun, hrel, hK', hst⟩ := hK₁.release hf
  refine ⟨_, hrun, ?_, hst⟩
  rcases hrel with ⟨hp', -⟩ | ⟨-, hone, hS₁⟩ | ⟨-, hone, -, S, hS₁, -, hrem⟩
  · simp [hp] at hp'
  · rw [if_neg hone]
    rw [Ctx.top_fill, List.append_nil] at hS₁
    rwa [hK'.sound.forest_eq hS₁] at hK'
  · -- the root had no children, so nothing remains of it
    have hS : S = [] := by rw [hrem, dropUnitAll_nil]
    rw [if_pos hone, List.append_nil]
    simp only [Ctx.top, hS, List.append_nil] at hS₁
    rwa [hK'.sound.forest_eq hS₁] at hK'

/-- Folding a child into its parent: the child's children are spliced into the parent's in its
place, and the emptied child, cut off, gives back its edge's unit and ends the forest as a
childless root. -/
theorem Kept.fold_child {c : Ctx} {hd ht : Node} {D R kt : List Tree}
    (hK : p.Kept w ((c.child hd D R).fill [node ht kt])) (hkd : hd.kind ≠ failureKind)
    (hone : ht.retain ≠ 1) :
    ∃ p₁ p₂, (Pool.splice c.pos (c.child hd D R).pos hd.slot ht.slot D.length
        (D ++ [node ht kt] ++ R).length).run p = .ok () p₁ ∧
      p.Steps (fun _ => False) p₁ ∧
      p₁.Sound w ((c.child { hd with children := (D ++ [node ht kt] ++ R).length + kt.length }
        (D ++ kt) R).fill [node { ht with children := 0 } []]) ∧
      (Pool.cut hd.slot ht.slot).run p₁ = .ok () p₂ ∧
      p₂.Kept w ((c.appendRight [node { ht with children := 0, retain := ht.retain - 1 } []]).fill
        [node { hd with children := D.length + kt.length + R.length } (D ++ kt ++ R)]) ∧
      p.Steps (fun s => w s = 0) p₂ := by
  have heq : c.fill [node hd (D ++ [node ht kt] ++ R)] = (c.child hd D R).fill [node ht kt] :=
    (Ctx.child_fill c hd D R [node ht kt]).symm
  have hnd := hK.sound.laid.nodup
  have hpin : ht.pinned = false := hK.pinned_eq_false_of_up (by simp [Ctx.child])
  -- the parent is not in the child's subtree: its slot would stand twice in its own records
  have hout : hd ∉ (node ht kt).records := by
    intro hmem
    have hnd' : ((layout (c.fill [node hd (D ++ [node ht kt] ++ R)])).map Node.slot).Nodup := by
      rw [heq]
      exact hnd
    have hn := Ctx.nodup_records_of_fill hnd'
    rw [records_node, List.map_cons] at hn
    refine (List.nodup_cons.mp hn).1 (List.mem_map_of_mem ?_)
    exact (records_sublist_layout (t := node ht kt) (by simp)).subset hmem
  obtain ⟨p₁, d, K, hrun₁, hdK, -, hS₁, -, hst₁⟩ :=
    splice_spec hK.sound heq hout (i := D.length) (by simp)
  -- the splice left the emptied child at the same hole of the same parent
  let T₀ := node { ht with children := 0 } []
  have hdK' : d.fill [node hd K] = c.fill [node hd (D ++ [T₀] ++ R)] := by
    rw [hdK, Ctx.child_fill]
  have hnd₀ : ((layout (d.fill [node hd K])).map Node.slot).Nodup := by
    rw [hdK]
    exact Ctx.nodup_fill_of_sublist hnd (by simp)
  obtain ⟨hdc, hK₀⟩ := Ctx.eq_of_fill_eq _ rfl hdK' rfl hnd₀
  have hcd := hdc.symm
  subst hcd
  obtain ⟨-, rfl⟩ := node.inj hK₀
  have htake : (D ++ [T₀] ++ R).take D.length = D := by simp
  have hdrop : (D ++ [T₀] ++ R).drop D.length = T₀ :: R := by simp
  rw [htake, hdrop] at hS₁
  obtain ⟨p₁', ts₁, hrun₁', hK₁, -⟩ := hK.splice heq hout (i := D.length) (by simp) hkd
  have hx := hrun₁.symm.trans hrun₁'
  simp only [EStateM.Result.ok.injEq] at hx
  obtain ⟨-, rfl⟩ := hx
  obtain rfl := hK₁.sound.forest_eq hS₁
  -- the cut: the emptied child is detached, then gives back the edge's unit it still holds
  let hd₁ : Node := { hd with children := (D ++ [node ht kt] ++ R).length + kt.length }
  have hfill : c.fill [node hd₁ (D ++ kt ++ T₀ :: R)] = (c.child hd₁ (D ++ kt) R).fill [T₀] := by
    rw [Ctx.child_fill]
    simp
  rw [hfill] at hK₁
  obtain ⟨p₂, ts₂, hrun₂, hK₂, hst₂⟩ := hK₁.cut
  obtain ⟨p₃, hrun₃, hS₃, -⟩ := detach_spec hK₁.sound
  rw [Ctx.appendRight_fill] at hS₃
  have hS₃' : p₃.Sound (addUnit w ht.slot)
      ((Ctx.top (c.fill [node { hd₁ with children := hd₁.children - 1 } (D ++ kt ++ R)]) []).fill
        [node { ht with children := 0 } []]) := by
    rw [Ctx.top_fill, List.append_nil]
    exact hS₃
  obtain ⟨p₄, hrun₄, hrel, -⟩ := release_spec (h := { ht with children := 0 }) hS₃'
  have hcut : (Pool.cut hd₁.slot T₀.head.slot).run p₁ = .ok () p₄ := by
    rw [Pool.cut, run_bind_ok hrun₃]
    exact hrun₄
  have hx := hrun₂.symm.trans hcut
  simp only [EStateM.Result.ok.injEq] at hx
  obtain ⟨-, rfl⟩ := hx
  refine ⟨p₁, p₂, hrun₁, hst₁, hK₁.sound, hrun₂, ?_, (hst₁.mono fun _ h => h.elim).trans hst₂⟩
  rcases hrel with ⟨hp', -⟩ | ⟨-, -, hS₄⟩ | ⟨-, hone', -⟩
  · simp [hpin] at hp'
  · have hnode : ({ hd₁ with children := hd₁.children - 1 } : Node) =
        { hd with children := D.length + kt.length + R.length } := by
      simp only [hd₁, List.length_append, List.length_singleton]
      congr 1
      omega
    rw [Ctx.top_fill, List.append_nil, hnode] at hS₄
    rw [Ctx.appendRight_fill, hK₂.sound.forest_eq hS₄] at *
    exact hK₂
  · exact absurd hone' hone

theorem Sound.scanChildren_child {c : Ctx} {nd : Node} {L R : List Tree} {T : Tree}
    (hS : p.Sound w ((c.child nd L R).fill [T])) :
    Heap.scanChildren p.nodes (c.child nd L R).pos (p.nodes.next c.pos) 0
      (p.nodes.childrenAt c.pos) = some L.length := by
  rw [Ctx.child_fill] at hS
  have hl : p.nodes.toList = c.before ++ nd :: (layout (L ++ [T] ++ R) ++ c.after) := hS.toList_eq
  have hl' : p.nodes.toList = (c.before ++ [nd]) ++ layout (L ++ [T] ++ R) ++ c.after := by
    rw [hl]
    simp
  have hnext : p.nodes.next c.pos = (c.before ++ [nd]).length := by
    rw [Ctx.pos, Arena.next_of_toList hl]
    simp
  rw [hnext, show c.pos = c.before.length from rfl, Arena.childrenAt_of_toList hl, hS.children_eq]
  have hw : ∀ k ∈ L ++ [T] ++ R, k.Wf := (wf_node_iff.mp hS.wf_fill).2
  refine (scanChildren_layout hw _ 0 L.length hl').mpr ⟨L.length, by simp, by simp, ?_⟩
  rw [Ctx.child_pos]
  simp [Ctx.pos]

end Pool

namespace Heap

open Pool TreeArena.Tree

variable {h : Heap} {k : Nat} {p : Pool} {w : Nat → Nat}

theorem run_inspect {α : Type} {r : Handle} {i : Nat} (hf : h.Finds r k p i)
    (f : Pool → Nat → α) : (inspect r f).run h = .ok (f p i) h := by
  obtain ⟨_, _, hrun, rfl, rfl⟩ := returns_inspect hf f
  exact hrun

theorem Finds.of_sound {r : Handle} {c : Ctx} {t : Tree} (hp : h.pools[k]? = some p)
    (hS : p.Sound w (c.fill [t])) (hr : r.home = some k) (hid : r.id = p.slots.idOf t.head.slot) :
    h.Finds r k p c.pos :=
  ⟨hr, hp, hid ▸ hS.resolve_idOf⟩

theorem Finds.slot_eq {r : Handle} {c : Ctx} {t : Tree} (hS : p.Sound w (c.fill [t]))
    (hf : h.Finds r k p c.pos) : r.slot = t.head.slot :=
  (hS.slot_of_position (SlotTable.position_of_resolve hf.resolve)).symm

/-- Taking the child at index `D.length` retains it and hands back a handle on it. -/
theorem run_childAt {r : Handle} {c : Ctx} {hd ht : Node} {D R kt : List Tree}
    (hS : p.Sound w ((c.child hd D R).fill [node ht kt])) (hf : h.Finds r k p c.pos) {p' : Pool}
    (hret : (Pool.retain ht.slot).run p = .ok () p') :
    (childAt r D.length).run h =
      .ok ⟨some k, p'.slots.idOf ht.slot⟩ ⟨h.pools.setIfInBounds k p'⟩ := by
  have hS' : p.Sound w (c.fill [node hd (D ++ [node ht kt] ++ R)]) := by
    rwa [← Ctx.child_fill]
  have hn : p.nodes.childrenAt c.pos = (D ++ [node ht kt] ++ R).length := by
    rw [hS'.childrenAt_pos, hS'.children_eq]
  have hstart : p.nodes.childStart c.pos D.length = (c.child hd D R).pos := by
    rw [hS'.child_of_start (m := D.length) (by simp)]
    simp
  unfold childAt
  rw [run_bind_of_returns (returns_locate hf), run_bind_of_returns (returns_homeOf hf.home),
    run_bind_of_returns (returns_readPool hf.pool id)]
  dsimp only
  rw [if_neg (by rw [id, hn]; simp), Int.toNat_natCast, id, hstart, hS.slotAt_pos]
  unfold own
  rw [run_bind_ok (run_onPool_ok hf.pool hret)]
  obtain ⟨_, _, hrun, rfl, rfl⟩ := returns_readPool (h := ⟨h.pools.setIfInBounds k p'⟩) (k := k)
    (p := p') (by simp [getElem?_setIfInBounds_pools hf.pool]) fun q => (⟨some k, q.slots.idOf ht.slot⟩ : Handle)
  exact hrun

theorem returns_hasChild_child {r t : Handle} {c : Ctx} {hd : Node} {L R : List Tree} {T : Tree}
    (hS : p.Sound w ((c.child hd L R).fill [T])) (hf : h.Finds r k p c.pos)
    (ht : h.Finds t k p (c.child hd L R).pos) :
    Returns (hasChild r t) h fun b h' => b = true ∧ h' = h :=
  (returns_hasChild hf ht).mono fun _ _ ⟨hh, hb⟩ => ⟨hb.mpr (by rw [hS.scanChildren_child]; rfl), hh⟩

/-- Merging a child that is no failure into a receiver that is none, at the child's own index,
runs the pool's splice and then its cut. -/
theorem run_merge_child {r t : Handle} {c : Ctx} {hd ht : Node} {D R kt : List Tree}
    (hS : p.Sound w ((c.child hd D R).fill [node ht kt])) (hf : h.Finds r k p c.pos)
    (hft : h.Finds t k p (c.child hd D R).pos) (hkd : hd.kind ≠ failureKind)
    (hkt : ht.kind ≠ failureKind) {p₁ p₂ : Pool} {w₁ : Nat → Nat}
    (hsplice : (Pool.splice c.pos (c.child hd D R).pos hd.slot ht.slot D.length
      (D ++ [node ht kt] ++ R).length).run p = .ok () p₁)
    (hst : p.Steps (fun _ => False) p₁)
    (hS₁ : p₁.Sound w₁ ((c.child { hd with children := (D ++ [node ht kt] ++ R).length + kt.length }
      (D ++ kt) R).fill [node { ht with children := 0 } []]))
    (hcut : (Pool.cut hd.slot ht.slot).run p₁ = .ok () p₂) :
    (merge r t D.length).run h = .ok () ⟨h.pools.setIfInBounds k p₂⟩ := by
  have hS' : p.Sound w (c.fill [node hd (D ++ [node ht kt] ++ R)]) := by
    rwa [← Ctx.child_fill]
  have hrs : r.slot = hd.slot := Finds.slot_eq hS' hf
  have hts : t.slot = ht.slot := Finds.slot_eq hS hft
  have hn : p.nodes.childrenAt c.pos = (D ++ [node ht kt] ++ R).length := by
    rw [hS'.childrenAt_pos, hS'.children_eq]
  have hpos : c.pos < (c.child hd D R).pos := by
    rw [Ctx.child_pos]
    omega
  -- after the splice both records are found again, the child still under the receiver
  let h₁ : Heap := ⟨h.pools.setIfInBounds k p₁⟩
  have hp₁ : h₁.pools[k]? = some p₁ := by simp [h₁, getElem?_setIfInBounds_pools hf.pool]
  have hS₁' : p₁.Sound w₁ (c.fill [node { hd with children := (D ++ [node ht kt] ++ R).length +
      kt.length } (D ++ kt ++ [node { ht with children := 0 } []] ++ R)]) := by
    rwa [← Ctx.child_fill]
  have hid : ∀ {x : Handle} {i : Nat}, h.Finds x k p i → x.id = p₁.slots.idOf x.slot := by
    intro x i hx
    rw [hx.live.1, hst.follows.idOf_eq hx.live.2 id]
  have hf₁ : h₁.Finds r k p₁ c.pos := Finds.of_sound hp₁ hS₁' hf.home (by rw [hid hf, hrs]; rfl)
  have hft₁ : h₁.Finds t k p₁ (c.child { hd with children := (D ++ [node ht kt] ++ R).length +
      kt.length } (D ++ kt) R).pos := Finds.of_sound hp₁ hS₁ hft.home (by rw [hid hft, hts]; rfl)
  unfold merge
  rw [run_bind_of_returns (returns_locate hf), run_bind_of_returns (returns_homeOf hf.home),
    run_bind_of_returns (returns_failureAt hf.pool _), if_neg (by simpa [hS'.kindAt_pos] using hkd),
    run_bind_of_returns (returns_sibling hf.home hft), run_get_bind,
    if_neg (by simp [isFailure_of_finds hft, hS.kindAt_pos, hkt]),
    run_bind_of_returns (returns_readPool hf.pool id)]
  dsimp only
  rw [if_neg (by rw [id, hn]; simp only [List.length_append, List.length_singleton]; omega),
    run_bind_of_returns (returns_checkAcyclic hf hft
    (by omega) (by omega)), id, hn, hrs, hts, run_bind_ok (run_onPool_ok hf.pool hsplice),
    run_bind_of_returns (returns_hasChild_child hS₁ hf₁ hft₁), if_pos rfl, ← hrs, ← hts]
  rw [run_onPool_ok hp₁ (by rw [hrs, hts]; exact hcut), Array.setIfInBounds_setIfInBounds]

end Heap

end TreeArena
