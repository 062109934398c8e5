import TreeArena.Proofs.Zipper

/-!
# Walking a well-formed arena

The walks of the layout module find subtrees from the children counts alone. On an arena that lays
out a forest they find what the forest says: a block of subtrees ends after their records
(`blockEnd_layout`), child `k` starts after the records of the children before it
(`childStart_records`), and the parent search returns the record of the level just above the hole
(`parentOf_fill`). The first two read only the counts of the subtrees they pass over, so they hold
in the middle of an edit too, when the counts outside those subtrees are off.
-/

namespace TreeArena

namespace Arena

open TreeArena.Tree

/-! ### Reading a record -/

theorem getElem?_of_toList {a : Arena} {pre post : List Node} {nd : Node}
    (h : a.toList = pre ++ nd :: post) : a[pre.length]? = some nd := by
  rw [← Array.getElem?_toList, h]
  simp

theorem lt_size_of_toList {a : Arena} {pre post : List Node} {nd : Node}
    (h : a.toList = pre ++ nd :: post) : pre.length < a.size := by
  have := congrArg List.length h
  simp at this
  omega

theorem childrenAt_of_toList {a : Arena} {pre post : List Node} {nd : Node}
    (h : a.toList = pre ++ nd :: post) : a.childrenAt pre.length = nd.children := by
  simp [childrenAt, getElem?_of_toList h]

theorem slotAt_of_toList {a : Arena} {pre post : List Node} {nd : Node}
    (h : a.toList = pre ++ nd :: post) : a.slotAt pre.length = nd.slot := by
  simp [slotAt, getElem?_of_toList h]

theorem offset_of_toList {a : Arena} {pre post : List Node} (h : a.toList = pre ++ post) :
    a.offset pre.length = used pre.toArray := by
  have hx : a.extract 0 pre.length = pre.toArray := by
    apply Array.toList_inj.mp
    simp [h]
  rw [offset, hx]

theorem kindAt_of_toList {a : Arena} {pre post : List Node} {nd : Node}
    (h : a.toList = pre ++ nd :: post) : a.kindAt pre.length = nd.kind := by
  simp [kindAt, getElem?_of_toList h]

theorem retainAt_of_toList {a : Arena} {pre post : List Node} {nd : Node}
    (h : a.toList = pre ++ nd :: post) : a.retainAt pre.length = nd.retain := by
  simp [retainAt, getElem?_of_toList h]

theorem pinnedAt_of_toList {a : Arena} {pre post : List Node} {nd : Node}
    (h : a.toList = pre ++ nd :: post) : a.pinnedAt pre.length = nd.pinned := by
  simp [pinnedAt, getElem?_of_toList h]

theorem payloadAt_of_toList {a : Arena} {pre post : List Node} {nd : Node}
    (h : a.toList = pre ++ nd :: post) : a.payloadAt pre.length = nd.payload := by
  simp [payloadAt, getElem?_of_toList h]

theorem next_of_toList {a : Arena} {pre post : List Node} {nd : Node}
    (h : a.toList = pre ++ nd :: post) : a.next pre.length = pre.length + 1 := by
  simp [next, lt_size_of_toList h]

theorem toList_records {a : Arena} {pre post : List Node} {t : Tree}
    (h : a.toList = pre ++ t.records ++ post) :
    a.toList = pre ++ t.head :: (layout t.kids ++ post) := by
  rw [h, records_eq]
  simp

/-! ### Blocks of subtrees -/

/-- Passing over a well-formed subtree completes one pending subtree and reads its records. -/
theorem span_records_append {t : Tree} (ht : t.Wf) (rest : List Node) (p : Nat) :
    span (t.records ++ rest) (p + 1) = t.size + span rest p := by
  induction ht generalizing rest p with
  | @node h ks hc _ ih =>
    -- the children are passed over one after the other, each completing one pending subtree
    have hks : ∀ us, (∀ u ∈ us, u ∈ ks) → ∀ rest q,
        span (layout us ++ rest) (q + us.length) = (layout us).length + span rest q := by
      intro us
      induction us with
      | nil => intro _ rest q; simp
      | cons u us ihu =>
        intro hsub rest q
        have h1 := ih u (hsub u (.head _)) (layout us ++ rest) (q + us.length)
        have h2 := ihu (fun v hv => hsub v (.tail _ hv)) rest q
        simp only [layout_cons, List.append_assoc, List.length_cons, List.length_append] at h1 ⊢
        rw [show q + (us.length + 1) = q + us.length + 1 by omega, h1, h2, size]
        omega
    simp only [records_node, List.cons_append, span, size, List.length_cons]
    rw [hc, hks ks (fun _ h => h)]
    omega

theorem span_layout_append {ts : List Tree} (hw : ∀ t ∈ ts, t.Wf) (rest : List Node) (p : Nat) :
    span (layout ts ++ rest) (p + ts.length) = (layout ts).length + span rest p := by
  induction ts generalizing p with
  | nil => simp
  | cons t ts ih =>
    simp only [layout_cons, List.append_assoc, List.length_cons, List.length_append]
    rw [show p + (ts.length + 1) = p + ts.length + 1 by omega,
      span_records_append (hw t (.head _)), ih (fun u hu => hw u (.tail _ hu)), size]
    omega

theorem blockEnd_layout {a : Arena} {pre post : List Node} {ts : List Tree}
    (h : a.toList = pre ++ layout ts ++ post) (hw : ∀ t ∈ ts, t.Wf) :
    a.blockEnd pre.length ts.length = pre.length + (layout ts).length := by
  rw [blockEnd_eq, h, List.append_assoc, List.drop_left]
  have := span_layout_append hw post 0
  rw [Nat.zero_add] at this
  rw [this]
  cases post <;> simp [span]

theorem subtreeEnd_records {a : Arena} {pre post : List Node} {t : Tree}
    (h : a.toList = pre ++ t.records ++ post) (ht : t.Wf) :
    a.subtreeEnd pre.length = pre.length + t.size := by
  have := @blockEnd_layout a pre post [t] (by simpa using h) (by simpa using ht)
  simpa [subtreeEnd, size] using this

theorem countAt_records {a : Arena} {pre post : List Node} {t : Tree}
    (h : a.toList = pre ++ t.records ++ post) (ht : t.Wf) : a.countAt pre.length = t.size := by
  rw [countAt, subtreeEnd_records h ht]
  omega

theorem childStart_records {a : Arena} {pre post : List Node} {t : Tree}
    (h : a.toList = pre ++ t.records ++ post) (ht : t.Wf) {k : Nat} (hk : k ≤ t.kids.length) :
    a.childStart pre.length k = pre.length + 1 + (layout (t.kids.take k)).length := by
  have h' := toList_records h
  rw [childStart, next_of_toList h']
  have hk' : (t.kids.take k).length = k := by simp; omega
  have hsplit : layout t.kids = layout (t.kids.take k) ++ layout (t.kids.drop k) := by
    rw [← layout_append, List.take_append_drop]
  have hl : a.toList = (pre ++ [t.head]) ++ layout (t.kids.take k) ++
      (layout (t.kids.drop k) ++ post) := by
    rw [h', hsplit]
    simp
  have := blockEnd_layout hl (fun u hu => ht.kids u (List.mem_of_mem_take hu))
  rw [hk'] at this
  simpa using this

/-! ### Finding the parent -/

/-- The walk over roots stops at the root whose block holds the position. -/
theorem rootOf_fill {a : Arena} {c : Ctx} {t : Tree} (hF : a.toList = layout (c.fill [t]))
    (hw : ∀ u ∈ c.fill [t], u.Wf) :
    ∀ (L M : List Tree) (fuel : Nat), c.left = L ++ M → M.length < fuel →
      a.rootOf c.pos fuel (layout L).length = (layout c.left).length := by
  obtain ⟨T, hT⟩ := Frame.closeAll_singleton c.up t
  have hfill : c.fill [t] = c.left ++ T :: c.right := by simp [Ctx.fill, hT]
  have hTlay : T.records = Frame.before c.up ++ t.records ++ Frame.after c.up := by
    have := Frame.layout_closeAll c.up [t]
    rw [hT] at this
    simpa using this
  have hpos : c.pos < (layout c.left).length + T.size := by
    have := t.size_pos
    simp only [Ctx.pos, Ctx.before, size, hTlay, List.length_append] at this ⊢
    omega
  intro L M
  induction M generalizing L with
  | nil =>
    intro fuel hL hfuel
    obtain ⟨fuel, rfl⟩ : ∃ f, fuel = f + 1 := ⟨fuel - 1, by omega⟩
    rw [List.append_nil] at hL
    rw [← hL]
    have hlay : a.toList = layout c.left ++ T.records ++ layout c.right := by
      rw [hF, hfill]; simp
    have hwT : T.Wf := hw T (by rw [hfill]; simp)
    have hlt : (layout c.left).length < a.size := lt_size_of_toList (toList_records hlay)
    rw [rootOf, if_pos hlt, subtreeEnd_records hlay hwT, if_pos hpos]
  | cons T' M ih =>
    intro fuel hL hfuel
    obtain ⟨fuel, rfl⟩ : ∃ f, fuel = f + 1 := ⟨fuel - 1, by simp at hfuel; omega⟩
    have hlay : a.toList = layout L ++ T'.records ++ layout (M ++ T :: c.right) := by
      rw [hF, hfill, hL]; simp
    have hwT : T'.Wf := hw T' (by rw [hfill, hL]; simp)
    have hlt : (layout L).length < a.size := lt_size_of_toList (toList_records hlay)
    rw [rootOf, if_pos hlt, subtreeEnd_records hlay hwT]
    have hge : (layout L).length + T'.size ≤ c.pos := by
      simp [Ctx.pos, Ctx.before, hL, size]
    rw [if_neg (by omega), show (layout L).length + T'.size = (layout (L ++ [T'])).length by
      simp [size]]
    exact ih (L ++ [T']) fuel (by rw [hL]; simp) (by simp at hfuel; omega)

/-- Among consecutive well-formed subtrees, the walk stops at the one whose block holds the
position. -/
theorem childHolding_layout {a : Arena} {i : Nat} {post : List Node} {K : Tree} {R : List Tree}
    (hwK : K.Wf) :
    ∀ (pre : List Node) (L : List Tree), a.toList = pre ++ layout (L ++ K :: R) ++ post →
      (∀ u ∈ L, u.Wf) → pre.length + (layout L).length ≤ i →
      i < pre.length + (layout L).length + K.size →
      a.childHolding i pre.length (L ++ K :: R).length = pre.length + (layout L).length := by
  intro pre L
  induction L generalizing pre with
  | nil =>
    intro h _ _ hi
    have hlay : a.toList = pre ++ K.records ++ (layout R ++ post) := by rw [h]; simp
    simp only [List.nil_append, List.length_cons, layout_nil, List.length_nil, Nat.add_zero] at hi ⊢
    rw [childHolding, subtreeEnd_records hlay hwK, if_pos hi]
  | cons T L ih =>
    intro h hwL hi hi'
    have hlay : a.toList = pre ++ T.records ++ (layout (L ++ K :: R) ++ post) := by rw [h]; simp
    have hwT : T.Wf := hwL T (.head _)
    simp only [List.cons_append, List.length_cons]
    rw [childHolding, subtreeEnd_records hlay hwT]
    simp only [layout_cons, List.length_append] at hi hi'
    rw [if_neg (by simp only [size]; omega)]
    have := ih (pre ++ T.records) (by rw [h]; simp) (fun u hu => hwL u (.tail _ hu))
      (by simp; omega) (by simp; omega)
    rw [show pre.length + T.size = (pre ++ T.records).length by simp [size], this]
    simp
    omega

theorem length_le_before (fs : List Frame) : fs.length ≤ (Frame.before fs).length := by
  induction fs with
  | nil => simp
  | cons f fs ih => simp [Frame.before]; omega

/-- At the record of a level above a hole, the walk over its children stops at the child that
holds the hole: the subtree the levels below close. -/
theorem childHolding_level {a : Arena} {c : Ctx} {t : Tree} (hF : a.toList = layout (c.fill [t]))
    (hw : ∀ u ∈ c.fill [t], u.Wf) {fs gs : List Frame} {g : Frame} (hsplit : c.up = fs ++ g :: gs) :
    a.childHolding c.pos (a.next ((layout c.left).length + (Frame.before gs).length))
        (a.childrenAt ((layout c.left).length + (Frame.before gs).length)) =
      (layout c.left).length + (Frame.before gs).length + 1 + (layout g.left).length := by
  obtain ⟨K, hK⟩ := Frame.closeAll_singleton fs t
  have hKlay : K.records = Frame.before fs ++ t.records ++ Frame.after fs := by
    have := Frame.layout_closeAll fs [t]
    rw [hK] at this
    simpa using this
  have hlay : a.toList = (layout c.left ++ Frame.before gs) ++ (g.close [K]).records ++
      (Frame.after gs ++ layout c.right) := by
    rw [hF, Ctx.layout_fill, Ctx.before, Ctx.after, hsplit, Frame.before_append,
      Frame.after_append]
    simp [Frame.close, Frame.before, Frame.after, hKlay]
  have hwg : (g.close [K]).Wf := by
    have hfill : c.fill [t] = c.left ++ Frame.closeAll gs [g.close [K]] ++ c.right := by
      rw [Ctx.fill, hsplit, Frame.closeAll_append, hK]
      rfl
    rw [hfill] at hw
    exact ((@Frame.wf_closeAll_iff gs [g.close [K]]).mp fun u hu => hw u (by simp [hu])).2 _
      (.head _)
  have hlay' := toList_records hlay
  rw [show (layout c.left).length + (Frame.before gs).length =
    (layout c.left ++ Frame.before gs).length by simp]
  rw [next_of_toList hlay', childrenAt_of_toList hlay', hwg.children_eq]
  have hpre : a.toList = (layout c.left ++ Frame.before gs ++ [g.head]) ++
      layout (g.left ++ K :: g.right) ++ (Frame.after gs ++ layout c.right) := by
    rw [hlay]
    simp [Frame.close]
  have hwk : ∀ u ∈ g.left ++ K :: g.right, u.Wf := fun u hu =>
    hwg.kids u (by simpa [Frame.close] using hu)
  have := @childHolding_layout a c.pos _ K g.right (hwk K (by simp))
    _ g.left hpre (fun u hu => hwk u (by simp [hu]))
    (by simp [Ctx.pos, Ctx.before, hsplit, Frame.before_append, Frame.before]; omega)
    (by
      have := t.size_pos
      simp [Ctx.pos, Ctx.before, hsplit, Frame.before_append, Frame.before, size, hKlay] at this ⊢
      omega)
  have hcount : (g.close [K]).kids.length = (g.left ++ K :: g.right).length := by
    simp [Frame.close]
  rw [hcount, show (layout c.left ++ Frame.before gs).length + 1 =
    (layout c.left ++ Frame.before gs ++ [g.head]).length by simp; omega, this]

/-- Descending from the record of a level above a hole reaches the record of the innermost level:
at each level the child holding the hole is the subtree closed by the levels below. -/
theorem descend_fill {a : Arena} {c : Ctx} {t : Tree} (hF : a.toList = layout (c.fill [t]))
    (hw : ∀ u ∈ c.fill [t], u.Wf) {f₀ : Frame} {fs₀ : List Frame} (hup : c.up = f₀ :: fs₀) :
    ∀ (n : Nat) (fs gs : List Frame) (g : Frame) (fuel : Nat), fs.length = n →
      c.up = fs ++ g :: gs → n < fuel →
      a.descend c.pos fuel ((layout c.left).length + (Frame.before gs).length) =
        some (Ctx.pos ⟨fs₀, c.left, c.right⟩) := by
  intro n
  induction n with
  | zero =>
    intro fs gs g fuel hn hsplit hfuel
    obtain ⟨fuel, rfl⟩ : ∃ f, fuel = f + 1 := ⟨fuel - 1, by omega⟩
    obtain rfl : fs = [] := List.eq_nil_of_length_eq_zero hn
    have hstep := childHolding_level hF hw hsplit
    rw [hup, List.nil_append] at hsplit
    cases hsplit
    rw [descend, hstep, if_pos (by simp [Ctx.pos, Ctx.before, hup, Frame.before]; omega)]
    simp [Ctx.pos, Ctx.before]
  | succ n ih =>
    intro fs gs g fuel hn hsplit hfuel
    obtain ⟨fuel, rfl⟩ : ∃ f, fuel = f + 1 := ⟨fuel - 1, by omega⟩
    -- the level just inside `g` is the last of `fs`
    obtain ⟨fs', f, rfl⟩ : ∃ fs' f, fs = fs' ++ [f] := by
      rcases List.eq_nil_or_concat fs with h | ⟨fs', f, h⟩
      · subst h; simp at hn
      · exact ⟨fs', f, by simpa using h⟩
    have hstep := childHolding_level hF hw hsplit
    rw [descend, hstep,
      if_neg (by simp [Ctx.pos, Ctx.before, hsplit, Frame.before_append, Frame.before]; omega)]
    have := ih fs' (g :: gs) f fuel (by simp at hn; omega) (by rw [hsplit]; simp) (by omega)
    simp only [Frame.before, List.length_append, List.length_cons] at this
    rw [← this]
    congr 1
    omega

/-- The parent search returns the record of the innermost level above the hole, and nothing for a
root. -/
theorem parentOf_fill {a : Arena} {c : Ctx} {t : Tree} (hF : a.toList = layout (c.fill [t]))
    (hw : ∀ u ∈ c.fill [t], u.Wf) : a.parentOf c.pos = c.parent.map Ctx.pos := by
  have hsize : (layout (c.fill [t])).length = a.size := by rw [← hF]; simp
  have hleft := length_le_layout c.left
  have hlen : (layout c.left).length + (Frame.before c.up).length + t.size ≤ a.size := by
    rw [← hsize, Ctx.layout_fill]
    simp [Ctx.before, size]
    omega
  have hroot := rootOf_fill hF hw [] c.left (a.size + 1) rfl (by have := t.size_pos; omega)
  simp only [layout_nil, List.length_nil] at hroot
  unfold parentOf
  simp only
  rw [hroot]
  rcases hup : c.up with _ | ⟨f, fs⟩
  · rw [if_pos (.inl (by simp [Ctx.pos, Ctx.before, hup, Frame.before]))]
    simp [Ctx.parent, hup]
  · have hpos : (layout c.left).length < c.pos := by
      simp only [Ctx.pos, Ctx.before, hup, Frame.before, List.length_append, List.length_cons]
      omega
    rw [if_neg (by have := t.size_pos; omega)]
    obtain ⟨fs', g, hsplit⟩ : ∃ fs' g, f :: fs = fs' ++ [g] := by
      rcases List.eq_nil_or_concat (f :: fs) with h | ⟨fs', g, h⟩
      · simp at h
      · exact ⟨fs', g, by simpa using h⟩
    have hd := descend_fill hF hw hup fs'.length fs' [] g (a.size + 1) rfl
      (by rw [hup, hsplit]) (by
        have := length_le_before c.up
        rw [hup, hsplit] at this
        simp at this
        have := t.size_pos
        simp [hup, hsplit] at hlen
        omega)
    simp only [Frame.before, List.length_nil, Nat.add_zero] at hd
    rw [hd]
    simp [Ctx.parent, hup]

end Arena

end TreeArena
