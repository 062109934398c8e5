import TreeArena.Proofs.Attach

/-!
# Cutting, replacing, reordering and splicing subtrees

The pool edits behind the handle operations, each on a sound pool:

* `cut_spec`: a child is detached and its edge's unit given back;
* `moveRoot_spec`: a root's block moves in front of another root, which only reorders the roots;
* `substitute_spec`: a subtree takes the place of a child, which is detached and released;
* `splice_spec`: the children of one record move in among the children of another.

Each keeps the pool sound with the same units owed and the unpinned roots owned, frees only slots
owed nothing, and says where the records went.
-/

namespace TreeArena

namespace Tree

variable {w : Nat → Nat}

/-- Below the outermost level, the roots do not depend on what the hole holds. -/
theorem RootsOwed.fill_of_up_ne {c : Ctx} (hc : c.up ≠ []) {t : Tree}
    (h : RootsOwed w (c.fill [t])) (t' : Tree) : RootsOwed w (c.fill [t']) := by
  obtain ⟨f, fs, hf⟩ : ∃ f fs, c.up = f :: fs := by
    cases hu : c.up with
    | nil => exact absurd hu hc
    | cons f fs => exact ⟨f, fs, rfl⟩
  simp only [Ctx.fill, rootsOwed_append, hf, Frame.closeAll] at h ⊢
  exact ⟨⟨h.1.1, (rootsOwed_closeAll_congr fs (f.close [t]) (f.close [t']) rfl).mp h.1.2⟩, h.2⟩

end Tree

namespace Pool

open TreeArena.Tree SlotTable

variable {p : Pool} {w : Nat → Nat}

/-! ### Cutting a child -/

/-- Cutting a child detaches its subtree and gives back the edge's unit: the parent has one child
fewer, and what survives of the subtree becomes roots that are owed units. -/
theorem cut_spec {d : Ctx} {h : Node} {L R : List Tree} {T : Tree}
    (hS : p.Sound w ((d.child h L R).fill [T])) :
    ∃ p' S, (cut h.slot T.head.slot).run p = .ok () p' ∧
      p'.Sound w ((d.appendRight S).fill [node { h with children := h.children - 1 } (L ++ R)]) ∧
      RootsOwed w S ∧ S = T.dropUnit ∧
      (RootsOwed w ((d.child h L R).fill [T]) →
        RootsOwed w (d.fill [node { h with children := h.children - 1 } (L ++ R)])) ∧
      p.Steps (fun s => w s = 0) p' := by
  obtain ⟨p₁, hrun₁, hS₁, hst₁⟩ := detach_spec hS
  rw [Ctx.appendRight_fill] at hS₁
  obtain ⟨p', S, hrun, hS', hown, hrem, hst⟩ :=
    releasesLast_release T.size p₁ w _ T (Nat.le_refl _) hS₁
  refine ⟨p', S, ?_, by rw [Ctx.appendRight_fill]; exact hS', hown, hrem, fun h' => ?_,
    (hst₁.mono fun _ h => h.elim).trans hst⟩
  · rw [cut, run_bind_ok hrun₁]
    exact hrun
  · rw [Ctx.child_fill] at h'
    exact h'.fill_congr rfl rfl

/-! ### Reordering roots -/

/-- Moving a root's block in front of another root only reorders the roots. -/
theorem moveRoot_spec {L R A B : List Tree} {T U : Tree} (hS : p.Sound w (L ++ T :: R))
    (hsplit : (Ctx.top A B).fill [U] = L ++ R) :
    ∃ (n : Nat) (p' : Pool), (move (p.position U.head.slot) (p.position T.head.slot)
        (p.nodes.subtreeEnd (p.position T.head.slot) - p.position T.head.slot)).run p = .ok n p' ∧
      p'.Sound w (A ++ T :: U :: B) ∧
      (RootsOwed w (L ++ T :: R) → RootsOwed w (A ++ T :: U :: B)) ∧
      p.Steps (fun _ => False) p' := by
  have hS₁ : p.Sound w ((Ctx.top L R).fill [T]) := by rw [Ctx.top_fill]; simpa using hS
  have hT : T.Wf := hS₁.wf_fill
  have hpt : p.position T.head.slot = (layout L).length := by
    rw [hS₁.laid.position_fill, Ctx.top_pos]
  have hlt : p.nodes.toList = layout L ++ T.records ++ layout R := by
    rw [← hS.laid.layout_eq]; simp
  have hend : p.nodes.subtreeEnd (layout L).length = (layout L).length + T.size :=
    Arena.subtreeEnd_records hlt hT
  -- where the other root sits once `T` is back among the roots
  obtain ⟨c', hup, hc', hcase⟩ := Ctx.exists_insert_root hsplit T
  have hpu : p.position U.head.slot = c'.pos := by
    have : p.Sound w (c'.fill [U]) := by rw [hc']; exact hS
    exact this.laid.position_fill
  have hsize : p.nodes.size = (layout L).length + T.size + (layout R).length := by
    rw [← Array.length_toList, hlt]; simp [Tree.size]; omega
  have hlen : (layout [T]).length = T.size := by rw [layout_singleton]; rfl
  have hLR : (layout L).length + (layout R).length = (layout A).length + U.size + (layout B).length := by
    have := congrArg (fun ts => (layout ts).length) hsplit
    simp only [Ctx.top_fill, layout_append, List.length_append, layout_singleton] at this
    unfold Tree.size
    omega
  have hc₂ : (Ctx.top A (U :: B)).fill [] = (Ctx.top L R).fill [] := by
    simp only [Ctx.top_fill, List.append_nil]
    rw [← hsplit, Ctx.top_fill]
    simp
  have hpos' : c'.pos = (layout A).length ∨ c'.pos = (layout A).length + T.size := by
    rcases hcase with ⟨h1, -⟩ | ⟨h1, -⟩ <;> simp [h1, Ctx.top_pos]
  have hland : landing c'.pos (Ctx.top L R).pos (layout [T]).length = (Ctx.top A (U :: B)).pos := by
    rw [Ctx.top_pos, Ctx.top_pos, hlen, landing]
    have := T.size_pos
    rcases hcase with ⟨h1, h2⟩ | ⟨h1, h2⟩ <;> rw [Ctx.top_pos] at h1 h2
    · rw [if_pos (by omega)]
      exact h1
    · rw [if_neg (by omega)]
      omega
  have hdst : c'.pos ≤ (Ctx.top L R).pos ∨
      (Ctx.top L R).pos + (layout [T]).length ≤ c'.pos ∧ c'.pos ≤ p.nodes.size := by
    rw [Ctx.top_pos, hlen]
    have := U.size_pos
    rcases hcase with ⟨h1, h2⟩ | ⟨h1, h2⟩ <;> rw [Ctx.top_pos] at h1 h2
    · left; omega
    · right; omega
  obtain ⟨a, t, hmove, hlaid, hfree⟩ :=
    hS₁.laid.move_fill_frees (by simp [records_eq]) hc₂ hland hdst
  -- the roots are the same trees in another order
  have hroots : (A ++ T :: U :: B).Perm (L ++ T :: R) := by
    have h1 : A ++ U :: B = L ++ R := by rw [← hsplit, Ctx.top_fill]; simp
    refine List.perm_middle.trans ?_
    rw [h1]
    exact List.perm_middle.symm
  have hmem : ∀ x, x ∈ A ++ T :: U :: B ↔ x ∈ L ++ T :: R := fun x => hroots.mem_iff
  refine ⟨(Ctx.top A (U :: B)).pos, _, ?_, hS.of_frees (by simpa [Ctx.top_fill] using hlaid)
      (fun x hx => hS.wf x ((hmem x).mp hx)) (fun x hx => hS.held x ((hmem x).mp hx)) hfree,
    fun h x hx => h x ((hmem x).mp hx), ⟨a, t, rfl, hfree⟩⟩
  rw [hpu, hpt, hend, Nat.add_sub_cancel_left, ← hlen, ← Ctx.top_pos L R]
  exact hmove

/-! ### Substituting a subtree -/

theorem mem_insert_root {L R : List Tree} {T x : Tree} (hx : x ∈ L ++ R) : x ∈ L ++ T :: R := by
  rcases List.mem_append.mp hx with h | h
  · exact List.mem_append_left _ h
  · exact List.mem_append_right _ (List.mem_cons_of_mem _ h)

theorem nodup_erase_root {L R : List Tree} {T : Tree}
    (h : ((layout (L ++ T :: R)).map Node.slot).Nodup) : ((layout (L ++ R)).map Node.slot).Nodup := by
  refine h.sublist (List.Sublist.map _ ?_)
  simp only [layout_append, layout_cons]
  exact (List.sublist_append_right _ _).append_left _

/-- Trading places: the root `T` goes into the hole `Q` leaves once its child `O` is taken out,
and `O` becomes a root. `T` gives the unit it held as a root to its new edge, and `O` keeps its old
edge's unit in transit, so the units held are those with one more at `O`. -/
theorem held_trade {L R : List Tree} {Q : Ctx} {O T : Tree} (hQ : Q.fill [O] = L ++ R)
    (hQup : Q.up ≠ []) (hnd : ((layout (L ++ T :: R)).map Node.slot).Nodup)
    (hheld : ∀ x ∈ L ++ T :: R, Tree.Held (addUnit w T.head.slot) true x) :
    ∀ x ∈ Q.fill [T] ++ [O], Tree.Held (addUnit w O.head.slot) true x := by
  have hndQ : ((layout (Q.fill [O])).map Node.slot).Nodup := by
    rw [hQ]
    exact nodup_erase_root hnd
  have hndT : ((layout ((Ctx.top L R).fill [T])).map Node.slot).Nodup := by
    rw [Ctx.top_fill]
    simpa using hnd
  have hmemQ : ∀ y ∈ layout (Q.fill []), y ∈ layout (Q.fill [O]) := fun y hy => by
    rw [Ctx.layout_fill] at hy ⊢
    simp only [layout_nil, List.append_nil, List.mem_append] at hy ⊢
    exact hy.imp_left .inl
  have hmemO : ∀ x ∈ O.records, x ∈ layout (Q.fill [O]) := fun x hx => by
    rw [Ctx.layout_fill, layout_singleton]
    simp [hx]
  -- the two subtrees share no slot with each other or with the rest of the forest
  have hTs : ∀ x ∈ T.records, ∀ y ∈ layout (Q.fill [O]), x.slot ≠ y.slot := fun x hx y hy =>
    slot_ne_of_fill_records hndT hx (by rw [Ctx.top_fill]; simpa [← hQ] using hy)
  have hOQ : ∀ x ∈ O.records, ∀ y ∈ layout (Q.fill []), x.slot ≠ y.slot :=
    fun x hx y hy => slot_ne_of_fill_records hndQ hx hy
  have hOhead : O.head ∈ O.records := by rw [records_eq]; exact List.mem_cons_self ..
  have hThead : T.head ∈ T.records := by rw [records_eq]; exact List.mem_cons_self ..
  have hQheld : Q.Held (addUnit w T.head.slot) ∧ Tree.Held (addUnit w T.head.slot) false O := by
    have := Ctx.held_fill_iff.mp fun x (hx : x ∈ Q.fill [O]) =>
      hheld x (mem_insert_root (hQ ▸ hx))
    refine ⟨this.1, ?_⟩
    have h1 := this.2 O (List.mem_singleton_self _)
    rwa [List.isEmpty_eq_false_iff.mpr hQup] at h1
  -- `T` is now a child: the unit it held as a root is its new edge's
  have hTheld : Tree.Held (addUnit w O.head.slot) false T := by
    have hT₀ : Tree.Held w false T := by
      cases T with
      | node h ks => exact Held.unroot (hheld _ (by simp)) (slot_ne_of_fill hndT).1
    exact hT₀.congr fun x hx => addUnit_of_ne w (hTs x hx O.head (hmemO _ hOhead))
  -- `O` is now a root: the unit of its old edge is the one in transit
  have hOheld : Tree.Held (addUnit w O.head.slot) true O := by
    have hO₀ : Tree.Held w false O := hQheld.2.congr fun x hx =>
      (addUnit_of_ne w fun h => hTs T.head hThead x (hmemO x hx) h.symm).symm
    cases O with
    | node h ks => exact Held.reroot hO₀ (slot_ne_of_fill hndQ).1
  intro x hx
  rcases List.mem_append.mp hx with hx | hx
  · refine Ctx.held_fill_iff.mpr ⟨hQheld.1.congr fun y hy _ => ?_, fun u hu => ?_⟩ x hx
    · rw [addUnit_of_ne w fun h => hOQ O.head hOhead y hy h.symm,
        addUnit_of_ne w fun h => hTs T.head hThead y (hmemQ y hy) h.symm]
    · rw [List.mem_singleton] at hu
      subst hu
      rw [List.isEmpty_eq_false_iff.mpr hQup]
      exact hTheld
  · rw [List.mem_singleton] at hx
    subst hx
    exact hOheld

/-- Putting the subtree `T` in the place of the child `O`, which lies outside it: `T` is adopted,
its block moves in front of `O`'s, `O`'s block moves to the end of the arena and its edge's unit is
given back. The forest keeps a hole where `O` was, now holding what became of `T`, and what
survives of `O` follows the forest. Only a full count of a root `T` stops it, with nothing
changed. -/
theorem substitute_spec {cO cT : Ctx} {O T : Tree} (hS : p.Sound w (cT.fill [T]))
    (hO : cO.fill [O] = cT.fill [T]) (hup : cO.up ≠ []) (hout : O.head ∉ T.records) :
    (cT.up = [] ∧ T.head.pinned = false ∧ T.head.retain = maxCount ∧
      (substitute O.head.slot T.head.slot).run p =
        .error (.retainOverflow (p.slots.idOf T.head.slot)) p) ∨
    ∃ (p' : Pool) (c : Ctx) (T' : Tree) (S : List Tree),
      (substitute O.head.slot T.head.slot).run p = .ok () p' ∧
      p'.Sound w (c.fill [T'] ++ S) ∧ RootsOwed w S ∧ c.up ≠ [] ∧ T'.head.slot = T.head.slot ∧
      (∃ O₁, Adopted cT T (c.fill [O₁]) T' ∧ O₁.head.slot = O.head.slot ∧ S = O₁.dropUnit) ∧
      (RootsOwed w (cT.fill [T]) → RootsOwed w (c.fill [T'])) ∧
      p.Steps (fun s => w s = 0) p' := by
  rcases adopt_spec hS with ⟨hupT, hp, hmax, hrun⟩ |
    ⟨p₁, L, R, T', φ, hrun₁, hS₁, hs₁, -, hφ, hLR, hadopt, hown₁, hst₁⟩
  · exact .inl ⟨hupT, hp, hmax, by rw [substitute, run_bind_error hrun]⟩
  right
  -- the old child's hole in the forest without `T`, whose records adopting may have rewritten
  obtain ⟨c₀, O₀, hc₀, hlen₀, hhead₀⟩ := Ctx.exists_hole_without hO hout
  obtain ⟨Q, O₁, hQ, hQlen, hOs⟩ : ∃ (Q : Ctx) (O₁ : Tree), Q.fill [O₁] = L ++ R ∧
      Q.up.length = cO.up.length ∧ O₁.head.slot = O.head.slot :=
    ⟨c₀.map φ, map φ O₀, by rw [show [map φ O₀] = mapAll φ [O₀] by simp, Ctx.map_fill, hc₀, hLR], by rw [Ctx.map_up_length, hlen₀],
      by rw [head_map, hφ, hhead₀]⟩
  have hQup : Q.up ≠ [] := fun h0 => hup (List.eq_nil_of_length_eq_zero (by rw [← hQlen, h0]; rfl))
  -- where the two blocks are
  have hS₁t : p₁.Sound (addUnit w T.head.slot) ((Ctx.top L R).fill [T']) := by
    rw [Ctx.top_fill]; simpa using hS₁
  obtain ⟨c', -, hc', hcase⟩ := Ctx.exists_insert_root hQ T'
  have hpt : p₁.position T.head.slot = (layout L).length := by
    rw [← hs₁, hS₁t.laid.position_fill, Ctx.top_pos]
  have hpo : p₁.position O.head.slot = c'.pos := by
    have : p₁.Laid (c'.fill [O₁]) := by rw [hc']; exact hS₁.laid
    rw [← hOs]
    exact this.position_fill
  have hwT : T'.Wf := hS₁t.wf_fill
  have hlt : p₁.nodes.toList = layout L ++ T'.records ++ layout R := by
    rw [← hS₁.laid.layout_eq]; simp
  have hend : p₁.nodes.subtreeEnd (layout L).length = (layout L).length + T'.size :=
    Arena.subtreeEnd_records hlt hwT
  have hsz : (layout [T']).length = T'.size := by rw [layout_singleton]; rfl
  have hsize : p₁.nodes.size = (layout L).length + T'.size + (layout R).length := by
    rw [← Array.length_toList, hlt]; simp [Tree.size]; omega
  have hin : Q.pos + O₁.size ≤ (layout L).length + (layout R).length := by
    have := congrArg (fun ts => (layout ts).length) hQ
    simp only [Ctx.layout_fill, layout_append, List.length_append, layout_singleton] at this
    unfold Ctx.pos Tree.size
    omega
  -- `T`'s block lands in front of the old child's
  have hc₂ : (Q.pushRight O₁).fill [] = (Ctx.top L R).fill [] := by
    rw [Ctx.pushRight_fill, List.nil_append, hQ, Ctx.top_fill, List.append_nil]
  have hland : landing c'.pos (Ctx.top L R).pos (layout [T']).length = (Q.pushRight O₁).pos := by
    rw [Ctx.top_pos, hsz, Ctx.pushRight_pos, landing]
    have := T'.size_pos
    rcases hcase with ⟨h1, h2⟩ | ⟨h1, h2⟩
    · rw [if_pos (by omega)]; exact h1
    · rw [if_neg (by omega)]; omega
  have hdst : c'.pos ≤ (Ctx.top L R).pos ∨
      (Ctx.top L R).pos + (layout [T']).length ≤ c'.pos ∧ c'.pos ≤ p₁.nodes.size := by
    rw [Ctx.top_pos, hsz]
    rcases hcase with ⟨h1, h2⟩ | ⟨h1, h2⟩
    · left; omega
    · right; omega
  obtain ⟨a, t, hmove, hlaid, hfree₂⟩ :=
    hS₁t.laid.move_fill_frees (by simp [records_eq]) hc₂ hland hdst
  rw [Ctx.top_pos, hsz] at hmove
  -- the old child's block goes to the end of the arena
  have hlaid₂ : ({ p₁ with nodes := a, slots := t } : Pool).Laid ((Q.pushLeft T').fill [O₁]) := by
    rw [Ctx.pushLeft_fill]
    rw [Ctx.pushRight_fill] at hlaid
    exact hlaid
  have hpo₂ : ({ p₁ with nodes := a, slots := t } : Pool).position O.head.slot =
      (Q.pushLeft T').pos := by
    rw [← hOs]
    exact hlaid₂.position_fill
  have hwQ : Q.Wf 1 ∧ O₁.Wf := by
    have := Ctx.wf_fill_iff.mp fun x (hx : x ∈ Q.fill [O₁]) => hS₁.wf x (mem_insert_root (hQ ▸ hx))
    exact ⟨this.1, this.2 O₁ (List.mem_singleton_self _)⟩
  obtain ⟨n, a', t', hmove', hlaid', hfree₃⟩ := Laid.move_to_end hlaid₂ hwQ.2
  rw [Ctx.pushLeft_fill] at hlaid'
  have hwf : ∀ x ∈ Q.fill [T'] ++ [O₁], x.Wf := by
    intro x hx
    rcases List.mem_append.mp hx with hx | hx
    · exact Ctx.wf_fill_iff.mpr ⟨hwQ.1, by simpa using hwT⟩ x hx
    · rw [List.mem_singleton] at hx
      exact hx ▸ hwQ.2
  -- the records keep their units, `T` now holding its new edge's and the old child one in transit
  have hheld := held_trade hQ hQup hS₁.laid.nodup (by rw [hs₁]; exact hS₁.held)
  have hS₃ := hS₁.of_frees hlaid' hwf hheld (hfree₂.trans hfree₃)
  -- the old child's unit in transit is given back
  obtain ⟨p', S, hrun₄, hS', hownS, hremS, hst₄⟩ :=
    releasesLast_release O₁.size _ w (Q.fill [T']) O₁ (Nat.le_refl _) hS₃
  refine ⟨p', Q, T', S, ?_, hS', hownS, hQup, hs₁, ⟨O₁, hQ ▸ hadopt, hOs, hremS⟩, fun hown => ?_,
    (hst₁.trans ⟨a', t', rfl, hfree₂.trans hfree₃⟩).mono (fun _ h => h.elim) |>.trans
      hst₄⟩
  · rw [substitute, run_bind_ok hrun₁, run_get_bind]
    dsimp only
    rw [hpt, hpo, hend, Nat.add_sub_cancel_left, run_bind_ok hmove, run_get_bind, hpo₂,
      run_bind_ok hmove', ← hOs]
    exact hrun₄
  · have := hown₁ hown
    rw [← hQ] at this
    exact this.fill_of_up_ne hQup T'

/-! ### Splicing children -/

theorem layout_take_le (ts : List Tree) (i : Nat) :
    (layout (ts.take i)).length ≤ (layout ts).length := by
  have := congrArg (fun l => (layout l).length) (List.take_append_drop i ts)
  simp only [layout_append, List.length_append] at this
  omega

/-- Prefixes of two runs that differ in one tree: the same up to that tree, and apart by the
difference of the two trees' sizes past it. -/
theorem layout_take_swap (A B : List Tree) (x y : Tree) (i : Nat) :
    (i ≤ A.length ∧ (A ++ x :: B).take i = (A ++ y :: B).take i ∧
      (layout ((A ++ x :: B).take i)).length ≤ (layout A).length) ∨
    (A.length < i ∧ (layout ((A ++ x :: B).take i)).length + y.size =
        (layout ((A ++ y :: B).take i)).length + x.size ∧
      (layout A).length + x.size ≤ (layout ((A ++ x :: B).take i)).length) := by
  rcases Nat.lt_or_ge A.length i with hi | hi
  · right
    obtain ⟨k, rfl⟩ : ∃ k, i = A.length + (k + 1) := ⟨i - A.length - 1, by omega⟩
    have htk : ∀ z : Tree, (A ++ z :: B).take (A.length + (k + 1)) = A ++ z :: B.take k :=
      fun z => by
        rw [List.take_append, List.take_of_length_le (by omega), Nat.add_sub_cancel_left,
          List.take_succ_cons]
    simp only [htk, layout_append, layout_cons, List.length_append, Tree.size]
    omega
  · left
    have htake : ∀ z : Tree, (A ++ z :: B).take i = A.take i := fun z =>
      List.take_append_of_le_length hi
    refine ⟨hi, by rw [htake, htake], ?_⟩
    rw [htake]
    exact layout_take_le A i

/-- Emptying the subtree of `t` keeps a hole for the subtree of a record `r` outside it, with as
many children. The children of `t`, moved in front of child `i` of `r`, land in front of child
`i` of that hole, and the move never puts them inside their own block. -/
theorem exists_hole_of_empty {ct cr : Ctx} {ht hr : Node} {kt kr : List Tree}
    (heq : cr.fill [node hr kr] = ct.fill [node ht kt]) (hout : hr ∉ (node ht kt).records)
    (i : Nat) :
    ∃ (d : Ctx) (kr₀ : List Tree), d.fill [node hr kr₀] = ct.fill [node ht []] ∧
      kr₀.length = kr.length ∧
      landing (cr.pos + 1 + (layout (kr.take i)).length) (ct.pos + 1) (layout kt).length =
        d.pos + 1 + (layout (kr₀.take i)).length ∧
      (cr.pos + 1 + (layout (kr.take i)).length ≤ ct.pos + 1 ∨
        ct.pos + 1 + (layout kt).length ≤ cr.pos + 1 + (layout (kr.take i)).length) := by
  have htake := layout_take_le kr i
  rcases Ctx.fill_cases heq.symm (by rw [layout_singleton]; exact hout) with
    ⟨e, he, heu, hev, hep, -⟩ | hdis
  · -- `t` lies below `r`, in the subtree of one of its children
    obtain ⟨g, hg, hgpos⟩ := Ctx.exists_kids_hole he heu
    obtain ⟨X, hX⟩ := Frame.closeAll_singleton g.up (node ht kt)
    obtain ⟨X₀, hX₀⟩ := Frame.closeAll_singleton g.up (node ht [])
    have hgfill : ∀ z Z, Frame.closeAll g.up [z] = [Z] → g.fill [z] = g.left ++ Z :: g.right :=
      fun z Z hz => by simp [Ctx.fill, hz]
    have hkr : kr = g.left ++ X :: g.right := by
      have := (hg [node ht kt]).symm.trans heu
      simp only [head_node, List.cons.injEq, node.injEq, and_true, true_and] at this
      rw [← this, hgfill _ _ hX]
    have hsizes : X.size = (Frame.before g.up).length + 1 + (layout kt).length +
          (Frame.after g.up).length ∧
        X₀.size = (Frame.before g.up).length + 1 + (Frame.after g.up).length := by
      have h1 := congrArg List.length (Frame.layout_closeAll g.up [node ht kt])
      have h2 := congrArg List.length (Frame.layout_closeAll g.up [node ht []])
      simp only [hX, hX₀, layout_singleton, records_node, layout_nil, List.length_append,
        List.length_cons, List.length_nil] at h1 h2
      unfold Tree.size
      omega
    have hgp : g.pos = (layout g.left).length + (Frame.before g.up).length := by
      simp [Ctx.pos, Ctx.before]
    refine ⟨cr, g.left ++ X₀ :: g.right, ?_, by simp [hkr], ?_⟩
    · rw [← hev, hg, hgfill _ _ hX₀, head_node]
    rw [hkr]
    rcases layout_take_swap g.left g.right X X₀ i with ⟨-, heqt, hle⟩ | ⟨-, hsw, hge⟩
    · rw [← heqt]
      unfold landing
      rw [if_pos (by omega)]
      exact ⟨rfl, .inl (by omega)⟩
    · unfold landing
      refine ⟨?_, .inr (by omega)⟩
      split <;> omega
  · -- `t` and `r` are apart
    obtain ⟨c', hc', -, hpos⟩ := hdis [node ht []]
    refine ⟨c', kr, hc', rfl, ?_⟩
    have hsz : (node hr kr).size = 1 + (layout kr).length := by simp [Tree.size]; omega
    simp only [layout_singleton, records_node, layout_nil, List.length_cons,
      List.length_nil] at hpos
    unfold landing
    rcases hpos with ⟨h1, h2⟩ | ⟨h1, h2⟩
    · rw [if_pos (by omega)]
      exact ⟨by omega, .inl (by omega)⟩
    · rw [if_neg (by omega)]
      exact ⟨by omega, .inr (by omega)⟩

section Splice

variable {ct d : Ctx} {ht hr : Node} {kt K : List Tree}

/-- Emptying `t` and putting its children among those of `r`, whose count grows by theirs, keeps
every tree well formed. -/
theorem wf_splice (hwf : ∀ x ∈ ct.fill [node ht kt], x.Wf)
    (hd : d.fill [node hr K] = ct.fill [node { ht with children := 0 } []]) (i : Nat) :
    ∀ x ∈ d.fill [node { hr with children := K.length + kt.length } (K.take i ++ kt ++ K.drop i)],
      x.Wf := by
  obtain ⟨hcw, hw⟩ := Ctx.wf_fill_iff.mp hwf
  obtain ⟨-, hkt⟩ := wf_node_iff.mp (hw _ (List.mem_singleton_self _))
  -- the forest with `t` emptied
  have hG : ∀ x ∈ d.fill [node hr K], x.Wf := by
    rw [hd]
    exact Ctx.wf_fill_iff.mpr ⟨hcw, by simp [wf_node_iff]⟩
  obtain ⟨hdw, hrw⟩ := Ctx.wf_fill_iff.mp hG
  obtain ⟨-, hK⟩ := wf_node_iff.mp (hrw _ (List.mem_singleton_self _))
  refine Ctx.wf_fill_iff.mpr ⟨hdw, fun x hx => ?_⟩
  rw [List.mem_singleton] at hx
  subst hx
  refine wf_node_iff.mpr ⟨by simp; omega, fun k hk => ?_⟩
  simp only [List.mem_append] at hk
  rcases hk with (hk | hk) | hk
  · exact hK k (List.mem_of_mem_take hk)
  · exact hkt k hk
  · exact hK k (List.mem_of_mem_drop hk)

/-- The children of `t` keep their edges' units under `r`. -/
theorem held_splice (hheld : ∀ x ∈ ct.fill [node ht kt], Tree.Held w true x)
    (hd : d.fill [node hr K] = ct.fill [node { ht with children := 0 } []]) (n i : Nat) :
    ∀ x ∈ d.fill [node { hr with children := n } (K.take i ++ kt ++ K.drop i)],
      Tree.Held w true x := by
  obtain ⟨hch, hh⟩ := Ctx.held_fill_iff.mp hheld
  obtain ⟨hholds, hkt⟩ := held_node_iff.mp (hh _ (List.mem_singleton_self _))
  have hG : ∀ x ∈ d.fill [node hr K], Tree.Held w true x := by
    rw [hd]
    refine Ctx.held_fill_iff.mpr ⟨hch, fun u hu => ?_⟩
    rw [List.mem_singleton] at hu
    subst hu
    exact held_node_iff.mpr ⟨hholds, by simp⟩
  obtain ⟨hdh, hrh⟩ := Ctx.held_fill_iff.mp hG
  obtain ⟨hrholds, hK⟩ := held_node_iff.mp (hrh _ (List.mem_singleton_self _))
  refine Ctx.held_fill_iff.mpr ⟨hdh, fun x hx => ?_⟩
  rw [List.mem_singleton] at hx
  subst hx
  refine held_node_iff.mpr ⟨hrholds, fun k hk => ?_⟩
  simp only [List.mem_append] at hk
  rcases hk with (hk | hk) | hk
  · exact hK k (List.mem_of_mem_take hk)
  · exact hkt k hk
  · exact hK k (List.mem_of_mem_drop hk)

/-- The roots keep their slots and pins. -/
theorem rootsOwed_splice (hown : RootsOwed w (ct.fill [node ht kt]))
    (hd : d.fill [node hr K] = ct.fill [node { ht with children := 0 } []]) (n : Nat)
    (X : List Tree) : RootsOwed w (d.fill [node { hr with children := n } X]) := by
  have : RootsOwed w (d.fill [node hr K]) := by
    rw [hd]
    exact hown.fill_congr rfl rfl
  exact this.fill_congr rfl rfl

end Splice

/-- Splicing the children of `t` in front of child `i` of `r`, which lies outside `t`'s subtree:
their block moves there, `t` is left with none and `r` counts them too. The forest is the one with
`t` emptied, at a hole of which `r` has gained the children. Nothing is freed. -/
theorem splice_spec {ct cr : Ctx} {ht hr : Node} {kt kr : List Tree}
    (hS : p.Sound w (ct.fill [node ht kt])) (heq : cr.fill [node hr kr] = ct.fill [node ht kt])
    (hout : hr ∉ (node ht kt).records) {i : Nat} (hi : i ≤ kr.length) :
    ∃ (p' : Pool) (d : Ctx) (K : List Tree),
      (splice cr.pos ct.pos hr.slot ht.slot i kr.length).run p = .ok () p' ∧
      d.fill [node hr K] = ct.fill [node { ht with children := 0 } []] ∧ K.length = kr.length ∧
      p'.Sound w (d.fill [node { hr with children := kr.length + kt.length }
        (K.take i ++ kt ++ K.drop i)]) ∧
      (RootsOwed w (ct.fill [node ht kt]) → RootsOwed w (d.fill [node
        { hr with children := kr.length + kt.length } (K.take i ++ kt ++ K.drop i)])) ∧
      p.Steps (fun _ => False) p' := by
  have hpt : p.nodes.toList = ct.before ++ ht :: (layout kt ++ ct.after) := hS.toList_eq
  have hm : p.nodes.childrenAt ct.pos = kt.length :=
    (Arena.childrenAt_of_toList hpt).trans hS.children_eq
  have hSr : p.Sound w (cr.fill [node hr kr]) := heq ▸ hS
  rw [splice, run_get_bind]
  dsimp only
  rw [hm]
  by_cases hkt : kt = []
  · -- no children to move: both counts are set to what they are
    subst hkt
    have ht0 : ht.children = 0 := hS.children_eq
    have hht : ({ ht with children := 0 } : Node) = ht := Node.with_children_self ht0
    have hhr : ({ hr with children := kr.length + 0 } : Node) = hr :=
      Node.with_children_self hSr.children_eq
    have hpos_t : p.position ht.slot = ct.pos := hS.laid.position_fill
    simp only [List.length_nil]
    rw [if_neg (by simp), run_get_bind, hpos_t,
      run_bind_ok (run_setChildren (i := ct.pos) (n := 0) (by decide) (by decide) p), run_get_bind]
    have hS₁ := hS.modify_fill_same (fun nd => { nd with children := (0 : Int).toNat })
      (fun _ => rfl) (by simp [ht0]) rfl rfl
    have hS₁' : ({ p with nodes := p.nodes.modify ct.pos fun nd =>
        { nd with children := (0 : Int).toNat } } : Pool).Sound w (cr.fill [node hr kr]) := by
      rw [heq]
      exact hht ▸ hS₁
    have hlt := hS₁'.laid.length_kids_lt hS₁'.cap
    have hpos_r : ({ p with nodes := p.nodes.modify ct.pos fun nd =>
        { nd with children := (0 : Int).toNat } } : Pool).position hr.slot = cr.pos :=
      hS₁'.laid.position_fill
    rw [hpos_r, run_setChildren (by omega) (by unfold maxCount at hlt ⊢; omega)]
    have hS₂ := hS₁'.modify_fill_same
      (fun nd => { nd with children := ((kr.length : Int) + ((0 : Nat) : Int)).toNat })
      (fun _ => rfl) (by simp [hSr.children_eq]) rfl rfl
    have hfix : ({ hr with children := ((kr.length : Int) + ((0 : Nat) : Int)).toNat } : Node) = hr :=
      Node.with_children_self (by simp [hSr.children_eq])
    rw [hfix] at hS₂
    refine ⟨_, cr, kr, rfl, by rw [hht, heq], rfl, ?_, fun h => ?_, Steps.nodes _ _ _ |>.trans
      (Steps.nodes _ _ _)⟩
    · rw [List.append_nil, List.take_append_drop, hhr]
      exact hS₂
    · rw [List.append_nil, List.take_append_drop, hhr, heq]
      exact h
  -- the children's block moves in front of child `i` of `r`
  have hwt : (node ht kt).Wf := hS.wf_fill
  have hwr : (node hr kr).Wf := hSr.wf_fill
  have hlr : p.nodes.toList = cr.before ++ (node hr kr).records ++ cr.after := by
    rw [← hSr.laid.layout_eq, Ctx.layout_fill, layout_singleton]
  have hlt : p.nodes.toList = ct.before ++ (node ht kt).records ++ ct.after := by
    rw [← hS.laid.layout_eq, Ctx.layout_fill, layout_singleton]
  have hnext : p.nodes.next ct.pos = ct.pos + 1 := Arena.next_of_toList hpt
  have hend : p.nodes.subtreeEnd ct.pos = ct.pos + (node ht kt).size :=
    Arena.subtreeEnd_records hlt hwt
  have hsz : (node ht kt).size = (layout kt).length + 1 := by simp [Tree.size]
  have hcs : p.nodes.childStart cr.pos i = cr.pos + 1 + (layout (kr.take i)).length :=
    Arena.childStart_records hlr hwr hi
  have hsize : cr.pos + 1 + (layout (kr.take i)).length ≤ p.nodes.size := by
    have := layout_take_le kr i
    have h2 := congrArg List.length hlr
    simp only [Array.length_toList, List.length_append, records_node, List.length_cons] at h2
    unfold Ctx.pos
    omega
  obtain ⟨d, kr₀, hd, hlen, hland, hdst⟩ := exists_hole_of_empty heq hout i
  have h₁ : p.Laid ((ct.child ht [] []).fill kt) := by
    rw [Ctx.child_fill]
    simpa using hS.laid
  have hc : (d.child hr (kr₀.take i) (kr₀.drop i)).fill [] = (ct.child ht [] []).fill [] := by
    rw [Ctx.child_fill, Ctx.child_fill]
    simp [hd]
  have hkl : layout kt ≠ [] := by
    obtain ⟨k, ks, rfl⟩ := List.exists_cons_of_ne_nil hkt
    simp [records_eq]
  obtain ⟨a, t, hmove, hlaid, hfree⟩ := @Laid.move_fill_frees _ _ _ _ h₁ hkl hc
    (cr.pos + 1 + (layout (kr.take i)).length)
    (by rw [Ctx.child_pos, Ctx.child_pos]; simpa using hland)
    (by rw [Ctx.child_pos]; simp only [layout_nil, List.length_nil, Nat.add_zero]; omega)
  rw [Ctx.child_fill] at hlaid
  -- `t` is left with no children: its record is rewritten wherever it now is
  have hnd := slot_ne_of_fill hS.laid.nodup
  have hrin : hr ∈ layout (ct.fill []) := by
    have h1 : hr ∈ layout (cr.fill [node hr kr]) := by
      rw [Ctx.layout_fill, layout_singleton, records_node]
      simp
    rw [heq, Ctx.layout_fill, layout_singleton] at h1
    rw [Ctx.layout_fill, layout_nil, List.append_nil]
    simp only [List.mem_append] at h1 ⊢
    exact h1.imp_left fun h => h.resolve_right hout
  have hmemt : ht ∈ layout (d.fill [node hr (kr₀.take i ++ kt ++ kr₀.drop i)]) := by
    have h1 : ht ∈ layout ((d.child hr (kr₀.take i) (kr₀.drop i)).fill []) := by
      rw [hc, Ctx.child_fill, Ctx.layout_fill]
      simp
    rw [← Ctx.child_fill, Ctx.layout_fill]
    rw [Ctx.layout_fill] at h1
    simp only [layout_nil, List.append_nil, List.mem_append] at h1 ⊢
    exact h1.imp_left .inl
  obtain ⟨φ, hφ⟩ : ∃ φ, φ = atSlot ht.slot fun nd => { nd with children := (0 : Int).toNat } :=
    ⟨_, rfl⟩
  have hlaid₃ := hlaid.modify_slot hmemt (fun nd => { nd with children := (0 : Int).toNat })
    (fun _ => rfl)
  rw [← hφ] at hlaid₃
  have hφhr : φ hr = hr := by rw [hφ, atSlot, if_neg (hnd.2 hr hrin)]
  have hφfill : ∀ X, mapAll φ (d.fill [node hr X]) = (d.map φ).fill [node hr (mapAll φ X)] :=
    fun X => by rw [← Ctx.map_fill, mapAll_cons, mapAll_nil, map_node, hφhr]
  have hD : (d.map φ).fill [node hr (mapAll φ kr₀)] = ct.fill [node { ht with children := 0 } []] := by
    rw [← hφfill, hd, ← Ctx.map_fill,
      Ctx.map_eq_self fun nd h => by rw [hφ, atSlot, if_neg (hnd.2 nd h)]]
    simp only [mapAll_cons, mapAll_nil, map_node, hφ, atSlot, if_pos]
    rfl
  have hφkt : mapAll φ kt = kt := mapAll_eq_self kt fun nd h => by rw [hφ, atSlot, if_neg (hnd.1 nd h)]
  rw [hφfill, mapAll_append, mapAll_append, hφkt, mapAll_take, mapAll_drop] at hlaid₃
  -- `r` counts its new children
  have hK : (mapAll φ kr₀).length = kr.length := by rw [length_mapAll, hlen]
  have hcap : t.size ≤ maxSlots := hfree.size_eq ▸ hS.cap
  have hbound := hlaid₃.length_kids_lt hcap
  simp only [List.length_append, List.length_take, List.length_drop, hK] at hbound
  have hcnt : ((kr.length : Int) + (kt.length : Int)).toNat = kr.length + kt.length := by omega
  have hlaid₄ := hlaid₃.modify_fill
    (fun nd => { nd with children := ((kr.length : Int) + (kt.length : Int)).toNat }) fun _ => rfl
  simp only [hcnt] at hlaid₄
  refine ⟨_, d.map φ, mapAll φ kr₀, ?_, hD, hK,
    hS.of_frees hlaid₄ (hK ▸ wf_splice hS.wf hD i) (held_splice hS.held hD _ i) hfree,
    fun h => rootsOwed_splice h hD _ _, ⟨_, t, rfl, hfree⟩⟩
  rw [Ctx.child_pos, Ctx.child_pos] at hmove
  simp only [layout_nil, List.length_nil, Nat.add_zero] at hmove
  have hpos₃ := hlaid₃.position_fill
  rw [head_node] at hpos₃
  rw [if_pos (List.length_pos_of_ne_nil hkt), Int.toNat_natCast, hcs, hnext, hend, hsz,
    show ct.pos + ((layout kt).length + 1) - (ct.pos + 1) = (layout kt).length by omega,
    run_bind_ok hmove, run_get_bind,
    run_bind_ok (run_setChildren (n := 0) (by decide) (by decide) _), run_get_bind, hpos₃,
    run_setChildren (by omega) (by unfold maxCount at hbound ⊢; omega), hcnt]

end Pool

end TreeArena
