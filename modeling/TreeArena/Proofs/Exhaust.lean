import TreeArena.Command.Run
import TreeArena.Proofs.Audit
import TreeArena.Proofs.Building
import TreeArena.Proofs.Constructors
import TreeArena.Proofs.FoldSteps

/-!
# Growing a sum until the pool runs out

The exhaust loop appends integer terms to a sum until it becomes a failure. Each term that fits
takes a header and the varint of its value; the first one that does not fit degrades the sum,
which reclaims every term. The loop counts the largest number of terms that fit in the bytes and
the slots left after the sum.
-/

namespace TreeArena

attribute [simp] total_append

namespace Command

/-- Bytes the integer term of value `j` takes: a header and the zig-zag varint of `j`. -/
def termBytes (j : Nat) : Nat := headerSize + (Varint.varint (j : Int)).length

/-- Bytes the terms of values `j, j + 1, …, j + k - 1` take. -/
def termsBytes (j : Nat) : Nat → Nat
  | 0 => 0
  | k + 1 => termBytes j + termsBytes (j + 1) k

/-- How many terms, from the one of value `j` on, fit one after another in `room` bytes and
`slots` free slots. -/
def termsFitting (j room : Nat) : Nat → Nat
  | 0 => 0
  | slots + 1 =>
    if termBytes j ≤ room then termsFitting (j + 1) (room - termBytes j) slots + 1 else 0

/-- The terms that fit are the most that fit: a count fits exactly when it is at most the one
the loop reaches. -/
theorem le_termsFitting_iff : ∀ {k j room slots : Nat},
    k ≤ termsFitting j room slots ↔ k ≤ slots ∧ termsBytes j k ≤ room
  | 0, _, _, _ => by simp [termsBytes]
  | _ + 1, _, _, 0 => by simp [termsFitting]
  | k + 1, j, room, slots + 1 => by
    unfold termsFitting termsBytes
    split
    · -- the term fits: the rest of the count is the count in what is left
      rw [Nat.add_le_add_iff_right, le_termsFitting_iff]
      omega
    · omega

/-- Each term after the first takes its own bytes after those of the ones before it. -/
theorem termsBytes_concat : ∀ (j k : Nat), termsBytes j (k + 1) = termsBytes j k + termBytes (j + k)
  | j, 0 => by simp [termsBytes]
  | j, k + 1 => by
    rw [termsBytes, termsBytes_concat (j + 1) k, termsBytes, Nat.add_right_comm j 1 k,
      Nat.add_assoc j k 1]
    omega

theorem termBytes_ge (j : Nat) : headerSize + 1 ≤ termBytes j := by
  have := Varint.uvarint_length_pos (Varint.zigzag (j : Int))
  unfold termBytes Varint.varint
  omega

theorem termBytes_of_lt {j : Nat} (h : j < 64) : termBytes j = headerSize + 1 := by
  have hz : Varint.zigzag (j : Int) = 2 * j := by simp [Varint.zigzag]
  unfold termBytes Varint.varint
  rw [hz, Varint.uvarint, dif_pos (by omega)]
  rfl

theorem termsBytes_ge : ∀ (j k : Nat), (headerSize + 1) * k ≤ termsBytes j k
  | _, 0 => Nat.zero_le _
  | j, k + 1 => by
    have h₁ := termBytes_ge j
    have h₂ := termsBytes_ge (j + 1) k
    rw [termsBytes, Nat.mul_succ]
    omega

open Pool TreeArena.Tree

/-- The integer term of value `i` in slot `s`: a childless record held by one unit. -/
def termLeaf (s i : Nat) : Tree := node (made s Expr.integerKind (Varint.varint (i : Int))) []

/-- The terms in the slots `ss`, the one at index `i` of value `i`. -/
def termLeaves (ss : List Nat) : List Tree := ss.zipIdx.map fun e => termLeaf e.1 e.2

/-- The sum in slot `r` listing the terms in the slots `ss` as its children. -/
def grownSum (r : Nat) (ss : List Nat) : Tree :=
  node { made r Expr.additionKind [] with children := ss.length } (termLeaves ss)

theorem termLeaves_concat (ss : List Nat) (s : Nat) :
    termLeaves (ss ++ [s]) = termLeaves ss ++ [termLeaf s ss.length] := by
  simp [termLeaves, List.zipIdx_append]

@[simp] theorem length_termLeaves (ss : List Nat) : (termLeaves ss).length = ss.length := by
  simp [termLeaves]

@[simp] theorem heads_termLeaves (ss : List Nat) : heads (termLeaves ss) = ss := by
  simp only [termLeaves, heads, List.map_map]
  exact List.zipIdx_map_fst 0 ss

/-- Terms numbered from `j` on take the bytes of their values' varints, a header each, one
record each. -/
theorem layout_zipIdx_termLeaf : ∀ (ss : List Nat) (j : Nat),
    total ((layout ((ss.zipIdx j).map fun e => termLeaf e.1 e.2)).map Node.size) =
      termsBytes j ss.length ∧
    (layout ((ss.zipIdx j).map fun e => termLeaf e.1 e.2)).length = ss.length
  | [], _ => ⟨rfl, rfl⟩
  | s :: ss, j => by
    obtain ⟨ih₁, ih₂⟩ := layout_zipIdx_termLeaf ss (j + 1)
    simp only [List.zipIdx_cons, List.map_cons, layout_cons, List.map_append, total_append, ih₁,
      List.length_append, ih₂, List.length_cons, termsBytes]
    simp [termLeaf, made, Node.size, termBytes, total, Nat.add_comm]

theorem total_termLeaves (ss : List Nat) :
    total ((layout (termLeaves ss)).map Node.size) = termsBytes 0 ss.length :=
  (layout_zipIdx_termLeaf ss 0).1

theorem length_layout_termLeaves (ss : List Nat) : (layout (termLeaves ss)).length = ss.length :=
  (layout_zipIdx_termLeaf ss 0).2

theorem mem_termLeaves {ss : List Nat} {k : Tree} (hk : k ∈ termLeaves ss) :
    k.kids = [] ∧ k.head.pinned = false ∧ k.head.retain = 1 ∧ k.head.kind = Expr.integerKind := by
  obtain ⟨e, -, rfl⟩ := List.mem_map.mp hk
  exact ⟨rfl, rfl, rfl, rfl⟩

/-- The sum and its terms take a header and the terms' bytes. -/
theorem total_grownSum (r : Nat) (ss : List Nat) :
    total ((grownSum r ss).records.map Node.size) = headerSize + termsBytes 0 ss.length := by
  simp [grownSum, total, total_termLeaves, Node.size, made]

theorem length_grownSum (r : Nat) (ss : List Nat) :
    (grownSum r ss).records.length = ss.length + 1 := by
  simp [grownSum, length_layout_termLeaves]

/-- A term's varint has a byte per seven bits of twice its value. -/
theorem uvarint_length_le (n : Nat) : (Varint.uvarint n).length ≤ n / 128 + 1 := by
  induction n using Nat.strong_induction_on with
  | _ n ih =>
    rw [Varint.uvarint]
    split
    · simp
    · have := ih (n / 128) (by omega)
      simp only [List.length_cons]
      omega

theorem varint_length_le (j : Nat) : (Varint.varint (j : Int)).length ≤ j / 64 + 1 := by
  have h := uvarint_length_le (Varint.zigzag (j : Int))
  have hz : Varint.zigzag (j : Int) = 2 * j := by simp [Varint.zigzag]
  rw [hz] at h
  unfold Varint.varint
  rw [hz]
  omega

/-- No term fits once a slot or the bytes for the next one are missing. -/
theorem termsFitting_eq_zero {j room slots : Nat} (h : room < termBytes j ∨ slots = 0) :
    termsFitting j room slots = 0 := by
  cases slots with
  | zero => rfl
  | succ slots =>
    unfold termsFitting
    rw [if_neg (by omega)]

theorem termsFitting_succ {j room slots : Nat} (h : termBytes j ≤ room) :
    termsFitting j room (slots + 1) = termsFitting (j + 1) (room - termBytes j) slots + 1 := by
  rw [termsFitting, if_pos h]

/-- The terms that fit take no more bytes than there is room for. -/
theorem termsFitting_le (j room slots : Nat) : (headerSize + 1) * termsFitting j room slots ≤ room :=
  Nat.le_trans (termsBytes_ge j _) (le_termsFitting_iff.mp (Nat.le_refl _)).2

end Command

namespace Pool

open TreeArena.Tree

variable {p : Pool} {w : Nat → Nat} {ts : List Tree}

/-! ### The pool steps of a round -/

theorem Kept.used_eq (hK : p.Kept w ts) : p.used = total ((layout ts).map Node.size) := by
  rw [used, Arena.used_eq_total, hK.sound.laid.layout_eq]

theorem Kept.live_eq (hK : p.Kept w ts) : p.slots.live = (layout ts).length := by
  rw [hK.sound.laid.locates.live_eq, hK.sound.laid.layout_eq]

/-- Attaching the last root, a childless record, as the last child of the root before it: the
forest keeps its shape but for that root, which lists the record last, and the record, which
gains the edge's unit. -/
theorem Kept.attach_leaf {R L : Node} {ks : List Tree}
    (hK : p.Kept w (ts ++ [node R ks, node L []])) (hkR : R.kind ≠ failureKind)
    (hkL : L.kind ≠ failureKind) (hpL : L.pinned = false) (hroom : L.retain < maxCount) :
    ∃ p', (Pool.attach R.slot L.slot ks.length).run p = .ok () p' ∧
      p'.Kept w (ts ++ [node { R with children := ks.length + 1 }
        (ks ++ [node { L with retain := L.retain + 1 } []])]) ∧
      p.Steps (fun _ => False) p' := by
  have hfill : ∀ us, (Ctx.top (ts ++ [node R ks]) []).fill us = ts ++ [node R ks] ++ us :=
    fun us => by rw [Ctx.top_fill, List.append_nil]
  have hK₁ : p.Kept w ((Ctx.top (ts ++ [node R ks]) []).fill [node L []]) := by
    rw [hfill]
    simpa using hK
  have hRmem : R ∈ layout ((Ctx.top (ts ++ [node R ks]) []).fill []) := by
    rw [hfill]
    simp
  have hkR' : ∀ nd ∈ layout ((Ctx.top (ts ++ [node R ks]) []).fill []), nd.slot = R.slot →
      nd.kind ≠ failureKind := fun nd hnd hs => by
    have hsub : ∀ x ∈ layout ((Ctx.top (ts ++ [node R ks]) []).fill []),
        x ∈ layout ((Ctx.top (ts ++ [node R ks]) []).fill [node L []]) := fun x hx => by
      rw [hfill] at hx ⊢
      simp only [layout_append, List.mem_append] at hx ⊢
      tauto
    rw [hK₁.sound.eq_of_slot_eq (hsub nd hnd) (hsub R hRmem) hs]
    exact hkR
  have hR := List.mem_map_of_mem (f := Node.slot) hRmem
  rcases hK₁.attach hR hkR' hkL ks.length with ⟨-, -, hmax, -⟩ | ⟨p', ts', hrun, hK', hst⟩
  · exact absurd hmax (Nat.ne_of_lt hroom)
  obtain ⟨p'', d, h, ks', T', hrun', hh, -, had, hS', -, -⟩ :=
    (attach_spec hK₁.sound hR ks.length).resolve_left fun hover => by
      rw [hrun] at hover
      cases hover.2.2.2
  cases hrun.symm.trans hrun'
  -- a root is adopted in place: the rest of the forest is the forest without it
  rcases had with ⟨-, hrest, rfl⟩ | ⟨f, fs, hup, -, -⟩
  swap
  · cases hup
  -- and the new parent's subtree is the one before it
  have hnd : ((layout ((Ctx.top ts []).fill [node R ks])).map Node.slot).Nodup := by
    have := hK.sound.laid.nodup
    rw [show ts ++ [node R ks, node L []] = ts ++ [node R ks] ++ [node L []] by simp,
      layout_append, List.map_append] at this
    rw [Ctx.top_fill, List.append_nil]
    exact (List.nodup_append.mp this).1
  obtain ⟨rfl, hnode⟩ := Ctx.eq_of_fill_eq 0 (t := node R ks) (u := node h ks') rfl
    (by rw [hrest, hfill, Ctx.top_fill]) hh.symm hnd
  obtain ⟨rfl, rfl⟩ := node.inj hnode
  simp only [head_node, kids_node, Int.toNat_natCast, min_self, List.take_length,
    List.drop_length, Ctx.top_fill, List.append_nil] at hS'
  obtain rfl := hK'.sound.forest_eq hS'
  exact ⟨p', hrun, by simpa [hpL] using hK', hst⟩

/-- Giving back a unit of the last child of the last root, a childless record that keeps another
unit: it stays in place with one unit fewer. -/
theorem Kept.release_leaf {R L : Node} {ks : List Tree}
    (hK : p.Kept (addUnit w L.slot) (ts ++ [node R (ks ++ [node L []])]))
    (hf : 0 < w p.failure.slot) (hp : L.pinned = false) (hone : L.retain ≠ 1) :
    ∃ p', (Pool.release L.slot).run p = .ok () p' ∧
      p'.Kept w (ts ++ [node R (ks ++ [node { L with retain := L.retain - 1 } []])]) ∧
      p.Steps (fun x => w x = 0) p' := by
  have hfill : ∀ x, ((Ctx.top ts []).child R ks []).fill [x] = ts ++ [node R (ks ++ [x])] :=
    fun x => by rw [Ctx.child_fill, Ctx.top_fill, List.append_nil, List.append_nil]
  rw [← hfill] at hK ⊢
  exact hK.release_held hf hp hone

/-- Degrading the last root, whose children are childless records held by their edges only:
it becomes a childless failure record in place, and its children are reclaimed. -/
theorem Kept.degrade_last {R : Node} {ks : List Tree} (hK : p.Kept w (ts ++ [node R ks]))
    (hk : R.kind ≠ failureKind)
    (hks : ∀ k ∈ ks, k.kids = [] ∧ k.head.pinned = false ∧ k.head.retain = 1) :
    ∃ p', (Pool.degrade R.slot).run p = .ok () p' ∧ p'.Kept w (ts ++ [node (failed R) []]) ∧
      p.Steps (fun s => w s = 0) { p' with journal := p.journal } := by
  have hK₁ : p.Kept w ((Ctx.top ts []).fill [node R ks]) := by
    rwa [Ctx.top_fill, List.append_nil]
  obtain ⟨p', ts', hrun, hK', hst⟩ := hK₁.degrade hk
  obtain ⟨p'', S, hrun', hS', ho, hdeg, -, -⟩ := degrade_spec hK₁.sound fun a ha => by
    simp only [Ctx.chain, Ctx.top, List.map_nil, List.mem_singleton] at ha
    rw [ha]
    exact hk
  cases hrun.symm.trans hrun'
  -- each child held by its edge alone is owed nothing
  have hheld := (held_node_iff.mp hK₁.sound.held_fill).2
  have hzero : ∀ k ∈ ks, w k.head.slot = 0 := fun k hk' => by
    obtain ⟨-, hp, hone⟩ := hks k hk'
    have hk₁ := hheld k hk'
    rw [← eta k, held_node_iff] at hk₁
    have := hk₁.1
    simp only [Node.Holds, hp, Bool.false_eq_true, false_or, if_false] at this
    omega
  -- so nothing of the children survives as a root
  have hS : S = [] := List.eq_nil_iff_forall_not_mem.mpr fun u hu => by
    rcases hdeg u hu with ⟨k, hk', v, hv, hu'⟩ | ⟨a, ha, -⟩
    · simp only [Ctx.hanging, Ctx.top, List.flatMap_nil, List.append_nil] at hk'
      obtain ⟨hkids, hp, -⟩ := hks k hk'
      have hvk : v = node k.head [] := by
        rw [← eta k, hkids] at hv
        cases hv with
        | refl => rfl
        | kid hm _ => cases hm
      subst hvk
      -- what remains of a child is in its slot, owed nothing
      have hown := hu'.owed (ho hK₁.owed) (by simp [Ctx.top, hu]) hp
      exact absurd hown (by show ¬ 0 < w k.head.slot; rw [hzero _ hk']; decide)
    · simp [Ctx.chain, Ctx.top] at ha
  simp only [Ctx.top, Ctx.outermost, List.map_nil, List.getLastD_nil, hS, List.append_nil] at hS'
  obtain rfl := hK'.sound.forest_eq hS'
  exact ⟨p', hrun, hK', hst⟩

/-! ### Bounds and the failure node across a round -/

/-- `p'` keeps the capacity, the limit, the table size and the failure node of `p`. -/
structure SameBounds (p p' : Pool) : Prop where
  capacity_eq : p'.capacity = p.capacity
  limit_eq : p'.limit = p.limit
  size_eq : p'.slots.size = p.slots.size
  failure_eq : p'.failure = p.failure

theorem SameBounds.refl (p : Pool) : p.SameBounds p := ⟨rfl, rfl, rfl, rfl⟩

theorem SameBounds.trans {p₁ p₂ : Pool} (h₁ : p.SameBounds p₁) (h₂ : p₁.SameBounds p₂) :
    p.SameBounds p₂ :=
  ⟨h₂.capacity_eq.trans h₁.capacity_eq, h₂.limit_eq.trans h₁.limit_eq,
    h₂.size_eq.trans h₁.size_eq, h₂.failure_eq.trans h₁.failure_eq⟩

theorem Steps.sameBounds {P : Nat → Prop} {p' : Pool} (h : p.Steps P p') :
    p.SameBounds p' ∧ p'.failures = p.failures := by
  obtain ⟨a, t, rfl, hf⟩ := h
  exact ⟨⟨rfl, rfl, hf.size_eq, rfl⟩, rfl⟩

theorem sameBounds_refused (p : Pool) (n : Nat) : p.SameBounds (p.refused n) := ⟨rfl, rfl, rfl, rfl⟩

/-- A creation that hands out a record other than the failure node keeps the pool's bounds and
its count of refusals. -/
theorem create_bounds {l : List Node} (hl : p.slots.Locates l) {kind : Nat}
    {payload : List UInt8} {a : NodeId} {p' : Pool} (hrun : (create kind payload).run p = .ok a p')
    (ha : a ≠ p.failure) : p.SameBounds p' ∧ p'.failures = p.failures := by
  rcases create_cases hl hrun with ⟨rfl, -⟩ | ⟨s, nodes, j, -, -, rfl⟩
  · exact absurd rfl ha
  · exact ⟨⟨rfl, rfl, by simp, rfl⟩, rfl⟩

theorem Kept.resolve_failure (hK : p.Kept w ts) :
    p.slots.resolve p.failure = p.slots.position p.failure.slot := by
  obtain ⟨hnone, hlt, hgen, -⟩ := (SlotTable.resolve_isSome_iff _ _).mp hK.failure_live
  unfold SlotTable.resolve
  rw [if_neg hnone, if_pos ⟨hlt, hgen⟩]

/-- The failure node is first exactly when its record heads the forest's layout. -/
theorem Kept.failure_first_iff (hK : p.Kept w ts) :
    p.slots.resolve p.failure = some 0 ↔ (layout ts).head?.map Node.slot = some p.failure.slot := by
  have hloc := hK.sound.laid.locates
  rw [hK.resolve_failure, hK.sound.laid.layout_eq]
  constructor
  · intro h0
    obtain ⟨hlt, hs⟩ := hloc.slot_position h0
    rw [List.head?_eq_getElem?, List.getElem?_eq_getElem hlt, Option.map_some, hs]
  · intro hh
    obtain ⟨nd, hnd, hs⟩ := Option.map_eq_some_iff.mp hh
    obtain ⟨hlt, rfl⟩ := List.getElem?_eq_some_iff.mp (List.head?_eq_getElem? ▸ hnd)
    rw [← hs]
    exact hloc.position_slot 0 hlt

/-- Appending trees to a kept pool's forest, with its failure node unchanged, leaves its audit
as it was. -/
theorem Kept.audit_append {p' : Pool} {w' : Nat → Nat} {us : List Tree} (hK : p.Kept w ts)
    (hK' : p'.Kept w' (ts ++ us)) (hfe : p'.failure = p.failure) : p'.audit = p.audit := by
  have hne : layout ts ≠ [] := List.ne_nil_of_mem (head_mem_layout hK.failure_mem)
  have hfirst : p'.slots.resolve p'.failure = some 0 ↔ p.slots.resolve p.failure = some 0 := by
    rw [hK'.failure_first_iff, hK.failure_first_iff, layout_append,
      List.head?_append_of_ne_nil _ hne, hfe]
  rw [hK'.audit_eq, hK.audit_eq, if_congr hfirst rfl rfl]

theorem lookup_of_mem_roots {T : Tree} (hnd : ((layout ts).map Node.slot).Nodup) (hT : T ∈ ts) :
    lookup T.head.slot ts = some (T.head, heads T.kids) := by
  obtain ⟨A, B, rfl⟩ := List.append_of_mem hT
  cases T with
  | node nd ks => exact lookup_of_mem (e := (nd, heads ks)) hnd (by simp [linksAll_append, links_node])

theorem Kept.lookup_failure (hK : p.Kept w ts) :
    lookup p.failure.slot ts = some (failureRecord p.failure.slot, []) := by
  exact lookup_of_mem_roots hK.sound.laid.nodup hK.failure_mem

/-- The failure node is seen as a childless failure record without payload, held once. -/
theorem Kept.view_failure (hK : p.Kept w ts) :
    p.view p.failure = some ⟨failureKind, [], [], 1⟩ := by
  rw [← SlotTable.idOf_of_resolve hK.failure_live, hK.sound.view_idOf, hK.lookup_failure]
  rfl

end Pool

namespace Command

open Heap Pool TreeArena.Tree

/-! ### The loop's runs -/

/-- A round that adds a term runs the sum's count, the term's creation, the adding and the
release, then goes on counting the term unless the sum is now a failure. -/
theorem run_grow_round {sum t c : Handle} {j n fuel : Nat} {h h₁ h₂ h₃ : Heap}
    (hf : h.isFailure sum = false) (hn : (childCount sum).run h = .ok n h)
    (ht : (Expr.integer 0 (j : Int)).run h = .ok t h₁)
    (ha : (addChild sum t n n).run h₁ = .ok () h₂)
    (hr : (Heap.release t).run h₂ = .ok c h₃) :
    (grow sum j (fuel + 1)).run h =
      (grow sum (if h₃.isFailure sum then j else j + 1) fuel).run h₃ := by
  rw [grow, run_get_bind]
  simp only [hf, Bool.false_eq_true, if_false]
  have hq : (quietly (addChild sum t n n)).run h₁ = .ok () h₂ := run_tryCatch_ok ha
  rw [run_bind_ok hn, run_bind_ok ht, run_bind_ok hq, run_bind_ok hr, run_get_bind]

/-- Once the sum is a failure the loop stops and answers the terms it counted. -/
theorem run_grow_of_failure {sum : Handle} {j : Nat} {h : Heap} (hf : h.isFailure sum = true) :
    ∀ fuel, (grow sum j fuel).run h = .ok j h
  | 0 => rfl
  | fuel + 1 => by
    rw [grow, run_get_bind]
    simp only [hf, if_true]
    rfl

theorem run_addition_nil {h h' : Heap} {r : Handle}
    (hc : (Heap.create 0 Expr.additionKind []).run h = .ok r h') :
    (Expr.addition 0 []).run h = .ok r h' := by
  unfold Expr.addition Expr.operator
  rw [run_bind_ok hc]
  rfl

/-! ### A round of the loop -/

/-- Adopting a created term: attached as the sum's last child, then given back by its owner, it
is held by its edge alone, and the sum lists it last. -/
theorem adopt_term {ts : List Tree} {q₁ : Pool} {W : Nat → Nat} {r s : Nat} {ss : List Nat}
    (hK : q₁.Kept (addUnit W s) (ts ++ [grownSum r ss] ++ [termLeaf s ss.length]))
    (hf : 0 < W q₁.failure.slot) :
    ∃ q₂ q₃, (Pool.attach r s ss.length).run q₁ = .ok () q₂ ∧
      (Pool.release s).run q₂ = .ok () q₃ ∧ q₃.Kept W (ts ++ [grownSum r (ss ++ [s])]) ∧
      q₁.Steps (fun x => W x = 0) q₃ := by
  have hK' : q₁.Kept (addUnit W s) (ts ++ [node { made r Expr.additionKind [] with
      children := ss.length } (termLeaves ss),
      node (made s Expr.integerKind (Varint.varint (ss.length : Int))) []]) := by
    rw [List.append_assoc] at hK
    exact hK
  obtain ⟨q₂, hrun₂, hK₂, hst₂⟩ := hK'.attach_leaf (show Expr.additionKind ≠ failureKind by decide)
    (show Expr.integerKind ≠ failureKind by decide) rfl (show 1 < maxCount by decide)
  rw [length_termLeaves] at hrun₂ hK₂
  have hf₂ : 0 < W q₂.failure.slot := by
    rw [hst₂.sameBounds.1.failure_eq]
    exact hf
  obtain ⟨q₃, hrun₃, hK₃, hst₃⟩ := Kept.release_leaf
    (L := { made s Expr.integerKind (Varint.varint (ss.length : Int)) with retain := 1 + 1 })
    hK₂ hf₂ rfl (show 1 + 1 ≠ 1 by decide)
  refine ⟨q₂, q₃, hrun₂, hrun₃, ?_, (hst₂.mono fun _ h => h.elim).trans hst₃⟩
  simpa [grownSum, termLeaves_concat, termLeaf, made] using hK₃

section Loop

variable {r : Handle} {base : List Handle} {p₀ : Pool} {ts : List Tree} {ss : List Nat}
  {h : Heap} {q : Pool}

/-- The loop after the terms in the slots `ss` fit: the handles of the sum `r` and of `base` are
exact, and pool 0 lays out the forest `ts` the loop started from followed by the sum, listing
the terms as its children. The pool keeps the bounds and the count of refusals of the pool `p₀`
the sum was made in, and its bytes are within its limit. -/
structure Growing (r : Handle) (base : List Handle) (p₀ : Pool) (ts : List Tree)
    (ss : List Nat) (h : Heap) (q : Pool) : Prop where
  exact : h.Exact ([r] ++ base)
  pool : h.pools[0]? = some q
  kept : q.Kept (addUnit (units ([r] ++ base) 0) q.failure.slot) (ts ++ [grownSum r.slot ss])
  home : r.home = some 0
  bounds : p₀.SameBounds q
  failures_eq : q.failures = p₀.failures
  within : q.used ≤ q.limit

/-- The loop once it ended: pool 0 lays out the forest `ts` followed by the sum, now a childless
failure record without payload; the pool keeps the bounds of `p₀` and counts one refusal more. -/
structure Ended (r : Handle) (base : List Handle) (p₀ : Pool) (ts : List Tree) (h : Heap)
    (q : Pool) : Prop where
  exact : h.Exact ([r] ++ base)
  pool : h.pools[0]? = some q
  kept : q.Kept (addUnit (units ([r] ++ base) 0) q.failure.slot)
    (ts ++ [node (Pool.failed (made r.slot Expr.additionKind [])) []])
  home : r.home = some 0
  bounds : p₀.SameBounds q
  failures_eq : q.failures = p₀.failures + 1

theorem Growing.entry (hG : Growing r base p₀ ts ss h q) :
    lookup r.slot (ts ++ [grownSum r.slot ss]) =
      some ({ made r.slot Expr.additionKind [] with children := ss.length }, ss) := by
  have := lookup_of_mem_roots hG.kept.sound.laid.nodup
    (List.mem_append_right ts (List.mem_singleton_self (grownSum r.slot ss)))
  simpa [grownSum, made] using this

/-- The sum is found in pool 0 as a sum counting the terms. -/
theorem Growing.finds (hG : Growing r base p₀ ts ss h q) :
    ∃ i, h.Finds r 0 q i ∧ q.nodes.kindAt i = Expr.additionKind ∧
      q.nodes.childrenAt i = ss.length := by
  obtain ⟨j, hf₀⟩ := hG.exact.finds (by simp) hG.pool hG.home
  obtain ⟨c, ks, hfill, -, hf⟩ :=
    finds_of_lookup hG.kept.sound hG.pool hG.home hf₀.live.1 hG.entry
  have hS := hG.kept.sound
  rw [hfill] at hS
  exact ⟨c.pos, hf, hS.kindAt_pos, hS.childrenAt_pos⟩

theorem Growing.isFailure (hG : Growing r base p₀ ts ss h q) : h.isFailure r = false := by
  obtain ⟨i, hf, hk, -⟩ := hG.finds
  rw [isFailure_of_finds hf, hk]
  decide

theorem Growing.run_childCount (hG : Growing r base p₀ ts ss h q) :
    (childCount r).run h = .ok ss.length h := by
  obtain ⟨i, hf, -, hcount⟩ := hG.finds
  rw [← hcount]
  exact run_inspect hf _

/-- A term that fits is created, added as the sum's last child and given back: the loop goes
on with one term more. -/
theorem Growing.add_term (hG : Growing r base p₀ ts ss h q)
    (hfit : ¬ q.CreateRefused (Varint.varint (ss.length : Int))) :
    ∃ s h' q', (∀ fuel, (grow r ss.length (fuel + 1)).run h =
        (grow r (ss.length + 1) fuel).run h') ∧ Growing r base p₀ ts (ss ++ [s]) h' q' := by
  obtain ⟨i, hf, -, -⟩ := hG.finds
  have hK := hG.kept
  -- the term is allocated in a free slot
  obtain ⟨a, q', hrun', hiff, -⟩ :=
    hK.create_refuses (by decide : Expr.integerKind ≠ failureKind) (Varint.varint (ss.length : Int))
  rcases hK.create (hG.exact.free_owes hG.pool hK) (by decide : Expr.integerKind < 256)
      (Varint.varint (ss.length : Int)) with ⟨q₁, hrunc, -, -⟩ | ⟨s, q₁, hrunc, hs, hK₁, hfo, hid⟩
  · cases hrun'.symm.trans hrunc
    exact absurd (hiff.mp rfl) hfit
  have hne : q.slots.idOf s ≠ q.failure := hK.idOf_ne_failure q.slots hs
  obtain ⟨hb₁, hfl₁⟩ := create_bounds hK.sound.laid.locates hrunc hne
  have hp₁ : (⟨h.pools.setIfInBounds 0 q₁⟩ : Heap).pools[0]? = some q₁ :=
    getElem?_setIfInBounds_pools_self hG.pool _
  -- the heap holds the term's handle beside the others
  have hres : (q₁.slots.resolve (q.slots.idOf s)).isSome := by
    have hK₁' : q₁.Kept (addUnit (addUnit (units ([r] ++ base) 0) q.failure.slot) s)
        ((Ctx.top (ts ++ [grownSum r.slot ss]) []).fill [termLeaf s ss.length]) := by
      rwa [Ctx.top_fill, List.append_nil]
    rw [← hid]
    exact Option.isSome_iff_exists.mpr ⟨_, hK₁'.sound.resolve_idOf⟩
  have hE₁ : Exact ⟨h.pools.setIfInBounds 0 q₁⟩
      ([r] ++ ⟨some 0, q.slots.idOf s⟩ :: [] ++ base) :=
    (hG.exact.follows_gain (r := ⟨some 0, q.slots.idOf s⟩) hG.pool rfl hfo hK₁ hres hne).perm (by simpa using List.Perm.swap _ r base)
  -- the pool attaches the term and gives its owner's unit back
  have hf₁ : 0 < addUnit (units ([r] ++ base) 0) q.failure.slot q₁.failure.slot := by
    rw [hfo.failure_eq]
    exact hK.failure_owed
  obtain ⟨q₂, q₃, hrun₂, hrun₃, hK₃, hst⟩ := adopt_term hK₁ hf₁
  have hrs : s ≠ r.slot := fun he => by
    rw [he, hf.live.2] at hs
    cases hs
  have hnd₁ := hK₁.sound.laid.nodup
  have hadd : (addChild r ⟨some 0, q.slots.idOf s⟩ ss.length ss.length).run
      ⟨h.pools.setIfInBounds 0 q₁⟩ = .ok () ⟨(h.pools.setIfInBounds 0 q₁).setIfInBounds 0 q₂⟩ := by
    have hr₁ : lookup r.slot (ts ++ [grownSum r.slot ss] ++
        [node (made s Expr.integerKind (Varint.varint (ss.length : Int))) []]) =
        some ({ made r.slot Expr.additionKind [] with children := ss.length }, ss) := by
      have := lookup_of_mem_roots hnd₁ (T := grownSum r.slot ss) (by simp)
      rw [show heads (grownSum r.slot ss).kids = ss from heads_termLeaves ss] at this
      exact this
    have hc₁ := lookup_of_mem_roots hnd₁
      (T := node (made s Expr.integerKind (Varint.varint (ss.length : Int))) []) (by simp)
    have := run_addChild_last (c := ⟨some 0, q.slots.idOf s⟩) hK₁.sound hp₁ hG.home
      (by rw [hfo.idOf_eq hf.live.2 id, hf.live.1]) hr₁
      (show Expr.additionKind ≠ failureKind by decide) rfl hid.symm hc₁ (by simp [grownSum, made])
      (show Expr.integerKind ≠ failureKind by decide) hrs
    rw [this]
    exact run_onPool_ok hp₁ hrun₂
  obtain ⟨h₃, hrel, hE₃, hp₃⟩ := release_operand hE₁ hp₁ rfl hrs hadd hrun₃
  -- the new pool keeps the loop's invariant with one term more
  obtain ⟨hb₃, hfl₃⟩ := hst.sameBounds
  have hfe₃ : q₃.failure = q.failure := hb₃.failure_eq.trans hfo.failure_eq
  have hG₃ : Growing r base p₀ ts (ss ++ [s]) h₃ q₃ := by
    refine ⟨by simpa using hE₃, hp₃, by rw [hfe₃]; exact hK₃, hG.home,
      hG.bounds.trans (hb₁.trans hb₃), hfl₃.trans (hfl₁.trans hG.failures_eq), ?_⟩
    have hu : q₃.used = q.used + termBytes ss.length := by
      rw [hK₃.used_eq, hK.used_eq]
      simp only [layout_append, layout_singleton, List.map_append, total_append, total_grownSum,
        List.length_append, List.length_singleton, termsBytes_concat, Nat.zero_add]
      omega
    unfold CreateRefused at hfit
    rw [hu, hb₃.limit_eq, hb₁.limit_eq]
    unfold termBytes
    omega
  refine ⟨s, h₃, q₃, fun fuel => ?_, hG₃⟩
  rw [run_grow_round hG.isFailure hG.run_childCount (run_create_ok hG.pool hrunc) hadd hrel,
    hG₃.isFailure]
  rfl

/-- A term that does not fit is refused, and the failure node added in its place degrades the
sum, reclaiming its terms; giving the failure node's handle back changes nothing, and the loop
stops with the count it had. -/
theorem Growing.last_term (hG : Growing r base p₀ ts ss h q)
    (href : q.CreateRefused (Varint.varint (ss.length : Int))) :
    ∃ h' q', (∀ fuel, (grow r ss.length (fuel + 1)).run h = .ok ss.length h') ∧
      Ended r base p₀ ts h' q' := by
  obtain ⟨i, hf, -, -⟩ := hG.finds
  have hK := hG.kept
  -- the term is refused: the handle it gets names the failure node
  obtain ⟨a, q₁, hrunc, hiff, hq₁⟩ :=
    hK.create_refuses (by decide : Expr.integerKind ≠ failureKind) (Varint.varint (ss.length : Int))
  obtain rfl := hiff.mpr href
  obtain rfl := hq₁ href
  have hK₁ := hK.refused (headerSize + (Varint.varint (ss.length : Int)).length)
  have hp₁ : (⟨h.pools.setIfInBounds 0 (q.refused (headerSize +
      (Varint.varint (ss.length : Int)).length))⟩ : Heap).pools[0]? =
      some (q.refused (headerSize + (Varint.varint (ss.length : Int)).length)) :=
    getElem?_setIfInBounds_pools_self hG.pool _
  have hE₁ := hG.exact.follows hG.pool
    (show q.Follows (fun _ => False) (q.refused _) from follows_of_slots rfl rfl)
    (fun _ h => h.elim) hK₁
  -- adding the failure node degrades the sum
  have hfid : q.failure = q.slots.idOf q.failure.slot :=
    (SlotTable.idOf_of_resolve hK.failure_live).symm
  obtain ⟨q₂, hrun₂, hK₂, hst₂⟩ :=
    Kept.degrade_last (R := { made r.slot Expr.additionKind [] with children := ss.length })
      hK₁ (show Expr.additionKind ≠ failureKind by decide)
      fun k hk => (mem_termLeaves hk).elim fun h₁ h₂ => ⟨h₁, h₂.1, h₂.2.1⟩
  have hadd : (addChild r ⟨some 0, q.failure⟩ ss.length ss.length).run
      ⟨h.pools.setIfInBounds 0 (q.refused (headerSize + (Varint.varint (ss.length : Int)).length))⟩ =
      .ok () ⟨(h.pools.setIfInBounds 0 (q.refused (headerSize +
        (Varint.varint (ss.length : Int)).length))).setIfInBounds 0 q₂⟩ := by
    have := run_addChild_degrade (c := ⟨some 0, q.failure⟩) hK₁.sound hp₁ hG.home hf.live.1
      hG.entry (show Expr.additionKind ≠ failureKind by decide) rfl hfid hK₁.lookup_failure rfl
    rw [this]
    exact run_onPool_ok hp₁ hrun₂
  have hE₂ := ((hE₁.addChild r ⟨some 0, q.failure⟩ _ _).ok hadd).exact
  have hp₂ : (⟨(h.pools.setIfInBounds 0 (q.refused (headerSize +
      (Varint.varint (ss.length : Int)).length))).setIfInBounds 0 q₂⟩ : Heap).pools[0]? =
      some q₂ :=
    getElem?_setIfInBounds_pools_self hp₁ _
  obtain ⟨hb₂, hfl₂⟩ := hst₂.sameBounds
  have hfe₂ : q₂.failure = q.failure := hb₂.failure_eq
  -- the failure node's handle is given back, which leaves the pinned record as it was
  obtain ⟨c, ks, hfill, -, hff⟩ := finds_of_lookup (x := ⟨some 0, q.failure⟩) hK₂.sound hp₂ rfl
    (by rw [← hfe₂]; exact (SlotTable.idOf_of_resolve hK₂.failure_live).symm)
    (by rw [← hfe₂]; exact hK₂.lookup_failure)
  have hrel₀ : (Pool.release q.failure.slot).run q₂ = .ok () q₂ := by
    have hS := hK₂.sound
    rw [hfill] at hS
    rw [← hfe₂]
    have hx := release_pinned hS rfl
    exact hx
  obtain ⟨a', h₃, hrel, -, hh₃⟩ := returns_release_of_finds hff hrel₀
  have hE₃ : h₃.Exact ([r] ++ base) := by
    rw [hh₃]
    exact hE₂.follows hp₂ (Follows.refl (fun _ => False) q₂) (fun _ h => h.elim)
      (by rw [hfe₂]; exact hK₂)
  have hp₃ : h₃.pools[0]? = some q₂ := by
    rw [hh₃]
    exact getElem?_setIfInBounds_pools_self hp₂ _
  -- the sum is a failure now, so the loop stops
  have hisF : h₃.isFailure r = true := by
    obtain ⟨i₃, hf₃⟩ := hE₃.finds (by simp) hp₃ hG.home
    have hl := lookup_of_mem_roots hK₂.sound.laid.nodup (T := node (Pool.failed
      { made r.slot Expr.additionKind [] with children := ss.length }) []) (by simp)
    obtain ⟨c₃, ks₃, hfill₃, -, hfr⟩ := finds_of_lookup hK₂.sound hp₃ hG.home hf₃.live.1 hl
    have hS := hK₂.sound
    rw [hfill₃] at hS
    rw [isFailure_of_finds hfr, hS.kindAt_pos]
    rfl
  refine ⟨h₃, q₂, fun fuel => ?_, ⟨hE₃, hp₃, by rw [hfe₂]; exact hK₂, hG.home,
    hG.bounds.trans ((sameBounds_refused q _).trans
      ⟨hb₂.capacity_eq, hb₂.limit_eq, hb₂.size_eq, hb₂.failure_eq⟩),
    by rw [show q₂.failures = _ from hfl₂, refused, hG.failures_eq]⟩⟩
  rw [run_grow_round hG.isFailure hG.run_childCount (run_create_ok hG.pool hrunc) hadd hrel, hisF,
    if_pos rfl]
  exact run_grow_of_failure hisF fuel

/-- The pool's bytes: those of the forest it started from, the sum's header and the terms'. -/
theorem Growing.used_eq (hG : Growing r base p₀ ts ss h q) :
    q.used = total ((layout ts).map Node.size) + (headerSize + termsBytes 0 ss.length) := by
  rw [hG.kept.used_eq, layout_append, layout_singleton, List.map_append, total_append,
    total_grownSum]

theorem Growing.live_eq (hG : Growing r base p₀ ts ss h q) :
    q.slots.live = (layout ts).length + (ss.length + 1) := by
  rw [hG.kept.live_eq, layout_append, layout_singleton, List.length_append, length_grownSum]

/-- While the limit is within the largest capacity, a term's value is small enough for its
varint to fit a payload: each term before it took eleven bytes at least. -/
theorem Growing.payload_le (hG : Growing r base p₀ ts ss h q) (hcap : p₀.limit ≤ maxCapacity) :
    (Varint.varint (ss.length : Int)).length ≤ maxPayload := by
  have h₁ := hG.used_eq
  have h₂ := termsBytes_ge 0 ss.length
  have h₃ := varint_length_le ss.length
  have h₄ := hG.within
  rw [hG.bounds.limit_eq] at h₄
  have hH : headerSize = 10 := rfl
  rw [hH] at h₁ h₂
  rw [show maxCapacity = 16777216 from rfl] at hcap
  rw [show maxPayload = 65525 from rfl]
  omega

/-- From any round, the loop adds the terms that still fit one by one and stops at the first
that does not, when the fuel covers the rounds. -/
theorem Growing.run (hcap : p₀.limit ≤ maxCapacity) :
    ∀ (fuel : Nat) {ss : List Nat} {h : Heap} {q : Pool}, Growing r base p₀ ts ss h q →
      termsFitting ss.length (q.limit - q.used) q.slots.free < fuel →
      ∃ h' q', (grow r ss.length fuel).run h =
        .ok (ss.length + termsFitting ss.length (q.limit - q.used) q.slots.free) h' ∧
        Ended r base p₀ ts h' q'
  | 0, _, _, _, _, hlt => absurd hlt (Nat.not_lt_zero _)
  | fuel + 1, ss, h, q, hG, hlt => by
    have hpay := hG.payload_le hcap
    by_cases href : q.CreateRefused (Varint.varint (ss.length : Int))
    · -- the next term does not fit: the loop stops with the count it has
      have hzero : termsFitting ss.length (q.limit - q.used) q.slots.free = 0 := by
        refine termsFitting_eq_zero ?_
        have hw := hG.within
        have hH : headerSize = 10 := rfl
        unfold CreateRefused SlotTable.free at href
        unfold termBytes SlotTable.free
        omega
      obtain ⟨h', q', hrun, hE⟩ := hG.last_term href
      exact ⟨h', q', by rw [hrun fuel, hzero, Nat.add_zero], hE⟩
    · -- it fits: the loop goes on with the bytes and a slot fewer
      obtain ⟨s, h', q', hrun, hG'⟩ := hG.add_term href
      have hlen : (ss ++ [s]).length = ss.length + 1 := by simp
      have hu := hG'.used_eq
      rw [hlen, termsBytes_concat, Nat.zero_add] at hu
      have hu₀ := hG.used_eq
      have hl := hG'.live_eq
      rw [hlen] at hl
      have hl₀ := hG.live_eq
      have hsize := hG'.bounds.size_eq.trans hG.bounds.size_eq.symm
      have hlim := hG'.bounds.limit_eq.trans hG.bounds.limit_eq.symm
      unfold CreateRefused at href
      have hfree : q.slots.free = q'.slots.free + 1 := by
        unfold SlotTable.free at href ⊢
        omega
      have hfits : termBytes ss.length ≤ q.limit - q.used := by
        unfold termBytes
        omega
      have hk : termsFitting ss.length (q.limit - q.used) q.slots.free =
          termsFitting (ss.length + 1) (q'.limit - q'.used) q'.slots.free + 1 := by
        rw [hfree, termsFitting_succ hfits, show q'.limit - q'.used =
          q.limit - q.used - termBytes ss.length by omega]
      obtain ⟨h'', q'', hrun', hE⟩ := Growing.run hcap fuel hG' (by rw [hlen]; omega)
      rw [hlen] at hrun'
      refine ⟨h'', q'', ?_, hE⟩
      rw [hrun fuel, hrun', hk]
      congr 1
      omega

/-- The empty sum made in a free slot starts the loop with no term. -/
theorem growing_start {h : Heap} {base : List Handle} {p p' : Pool} {ts : List Tree}
    (hE : h.Exact base) (hp : h.pools[0]? = some p)
    (hK : p.Kept (addUnit (units base 0) p.failure.slot) ts) {s : Nat}
    (hrunc : (Pool.create Expr.additionKind []).run p = .ok (p.slots.idOf s) p')
    (hs : p.slots.isFree s = true) (hfo : p.Follows (fun _ => False) p')
    (hK' : p'.Kept (addUnit (addUnit (units base 0) p.failure.slot) s)
      (ts ++ [node (made s Expr.additionKind []) []]))
    (hid : p'.slots.idOf s = p.slots.idOf s) (hfit : ¬ p.CreateRefused []) :
    Growing ⟨some 0, p.slots.idOf s⟩ base p ts [] ⟨h.pools.setIfInBounds 0 p'⟩ p' := by
  have hE₀ : h.Exact ([] ++ base) := by simpa using hE
  have hI := Installing.start (t := Expr.additionKind) hE₀ hp
    (by simpa using hK) hs hfo (by simpa using hK') hid
  obtain ⟨hb, hfl⟩ := create_bounds hK.sound.laid.locates hrunc (hK.idOf_ne_failure p.slots hs)
  have hkept := hI.kept
  simp only [List.append_nil] at hkept
  refine ⟨by simpa using hI.exact, hI.pool, hkept, rfl, hb, hfl, ?_⟩
  -- the sum took one header within the limit
  have hu : p'.used = p.used + headerSize := by
    rw [hK'.used_eq, hK.used_eq]
    simp [total, made, Node.size]
  unfold CreateRefused at hfit
  rw [hu, hb.limit_eq]
  omega

/-- What the loop leaves: the sum is a childless failure record without payload, held once. -/
theorem Ended.view (hE : Ended r base p₀ ts h q) :
    q.view r.id = some ⟨failureKind, [], [], 1⟩ := by
  obtain ⟨i, hf⟩ := hE.exact.finds (by simp) hE.pool hE.home
  have hl : lookup r.slot (ts ++ [node (Pool.failed (made r.slot Expr.additionKind [])) []]) =
      some (Pool.failed (made r.slot Expr.additionKind []), []) :=
    lookup_of_mem_roots hE.kept.sound.laid.nodup
      (T := node (Pool.failed (made r.slot Expr.additionKind [])) []) (by simp)
  rw [hf.live.1, hE.kept.sound.view_idOf, hl]
  rfl

/-- Every term is reclaimed: the pool holds the forest it started from and the sum's header. -/
theorem Ended.used_eq (hE : Ended r base p₀ ts h q) :
    q.used = total ((layout ts).map Node.size) + headerSize := by
  rw [hE.kept.used_eq]
  simp [total, Pool.failed, Node.size]

theorem Ended.live_eq (hE : Ended r base p₀ ts h q) :
    q.slots.live = (layout ts).length + 1 := by
  rw [hE.kept.live_eq]
  simp

end Loop

/-! ### The exhaust loop -/

/-- Over every heap reached from pools just built, the exhaust loop on pool 0, whose limit is
at most its capacity and that at most the largest capacity, makes the empty sum and grows it
term by term, ending within the fuel it is given. When the sum cannot be allocated the loop stops
at once with no term; otherwise it counts the largest number `k` of terms `0, …, k - 1` that fit
in the slots left after the sum and in the bytes up to the limit. Either way the sum ends as a
childless failure node without payload, every term is reclaimed, the pool counts one refusal more,
keeps its capacity, limit and table, and its audit is what it was before. -/
theorem exhaust_counts_terms {b : Bool} {h h₁ : Heap} {own : List Handle} (hf : h.Fresh)
    (hrun : Ops b [] h own h₁) {p : Pool} (hp : h₁.pools[0]? = some p)
    (hlim : p.limit ≤ p.capacity) (hcap : p.capacity ≤ maxCapacity) :
    ∃ r h₂ n h₃ q, (Expr.addition 0 []).run h₁ = .ok r h₂ ∧
      (grow r 0 (p.capacity + 2)).run h₂ = .ok n h₃ ∧ h₃.pools[0]? = some q ∧
      q.view r.id = some ⟨failureKind, [], [], 1⟩ ∧
      q.capacity = p.capacity ∧ q.limit = p.limit ∧ q.slots.size = p.slots.size ∧
      q.failures = p.failures + 1 ∧ q.audit = p.audit ∧
      (p.CreateRefused [] → n = 0 ∧ q.used = p.used ∧ q.slots.live = p.slots.live) ∧
      (¬ p.CreateRefused [] →
        (∀ k, k ≤ n ↔ k ≤ p.slots.free - 1 ∧ p.used + headerSize + termsBytes 0 k ≤ p.limit) ∧
        q.used = p.used + headerSize ∧ q.slots.live = p.slots.live + 1) := by
  obtain ⟨L, hE, -⟩ := fresh_runs_exact hf hrun
  obtain ⟨ts, hK⟩ := hE.kept hp
  obtain ⟨a, p'', hrun', hiff, hq⟩ :=
    hK.create_refuses (by decide : Expr.additionKind ≠ failureKind) []
  rcases hK.create (hE.free_owes hp hK) (by decide : Expr.additionKind < 256) [] with
    ⟨p₁, hrunc, hK₁, -⟩ | ⟨s, p₁, hrunc, hs, hK₁, hfo, hid⟩
  · -- the sum is refused: it is the failure node, and the loop stops at once
    have hx := hrun'.symm.trans hrunc
    simp only [EStateM.Result.ok.injEq] at hx
    obtain ⟨rfl, hx⟩ := hx
    have href : p.CreateRefused [] := hiff.mp rfl
    have hp₁ : p₁ = p.refused (headerSize + ([] : List UInt8).length) := by
      rw [← hx]
      exact hq href
    have hp₂ : (⟨h₁.pools.setIfInBounds 0 p₁⟩ : Heap).pools[0]? = some p₁ :=
      getElem?_setIfInBounds_pools_self hp _
    have hfe₁ : p₁.failure = p.failure := by rw [hp₁]; rfl
    obtain ⟨c, ks, hfill, -, hff⟩ := finds_of_lookup (x := ⟨some 0, p.failure⟩) hK₁.sound hp₂ rfl
      (by rw [← hfe₁]; exact (SlotTable.idOf_of_resolve hK₁.failure_live).symm)
      (by rw [← hfe₁]; exact hK₁.lookup_failure)
    have hisF : Heap.isFailure ⟨h₁.pools.setIfInBounds 0 p₁⟩ ⟨some 0, p.failure⟩ = true := by
      have hS := hK₁.sound
      rw [hfill] at hS
      rw [isFailure_of_finds hff, hS.kindAt_pos]
      rfl
    refine ⟨_, _, 0, _, p₁, run_addition_nil (run_create_ok hp hrunc), run_grow_of_failure hisF _,
      hp₂, by rw [← hfe₁]; exact hK₁.view_failure, by rw [hp₁]; rfl, by rw [hp₁]; rfl,
      by rw [hp₁]; rfl, by rw [hp₁]; rfl, ?_, fun _ => ⟨rfl, by rw [hp₁]; rfl, by rw [hp₁]; rfl⟩,
      fun hn => absurd href hn⟩
    rw [hK₁.audit_eq, hK.audit_eq, hp₁]
    rfl
  · -- the sum is allocated: the loop runs from it with no term
    have hnref : ¬ p.CreateRefused [] := fun href => by
      cases hrun'.symm.trans hrunc
      exact hK.idOf_ne_failure p.slots hs (hiff.mpr href)
    have hG := growing_start hE hp hK hrunc hs hfo hK₁ hid hnref
    have hadd := run_addition_nil (run_create_ok hp hrunc)
    have hu₁ := hG.used_eq
    have hl₁ := hG.live_eq
    rw [← hK.used_eq, List.length_nil, termsBytes, Nat.add_zero] at hu₁
    rw [← hK.live_eq, List.length_nil] at hl₁
    have hlim₁ := hG.bounds.limit_eq
    have hsize₁ := hG.bounds.size_eq
    have hH : headerSize = 10 := rfl
    have hbound : 11 * termsFitting 0 (p₁.limit - p₁.used) p₁.slots.free ≤ p₁.limit - p₁.used :=
      termsFitting_le 0 (p₁.limit - p₁.used) p₁.slots.free
    obtain ⟨h₃, q, hrun₃, hEnd⟩ := hG.run (by omega) (p.capacity + 2) (by simp only [List.length_nil]; omega)
    have hu := hEnd.used_eq
    have hl := hEnd.live_eq
    rw [← hK.used_eq] at hu
    rw [← hK.live_eq] at hl
    refine ⟨_, _, _, h₃, q, hadd, hrun₃, hEnd.pool, hEnd.view, hEnd.bounds.capacity_eq,
      hEnd.bounds.limit_eq, hEnd.bounds.size_eq, hEnd.failures_eq,
      hK.audit_append hEnd.kept hEnd.bounds.failure_eq, fun href => absurd href hnref,
      fun _ => ⟨fun k => ?_, hu, hl⟩⟩
    -- the count is the largest that fits after the sum
    unfold CreateRefused at hnref
    unfold SlotTable.free at hnref ⊢
    simp only [List.length_nil, Nat.zero_add]
    rw [le_termsFitting_iff]
    omega

/-- A pool of sixty-four bytes and six slots takes four terms: the failure node and the sum use
twenty bytes and two slots, and four terms of eleven bytes fill the rest. The pool ends with the
failure node and the failed sum, and its audit finds nothing. -/
theorem exhaust_takes_four_terms :
    ∃ p, Pool.new 0 64 {} = .ok p ∧ ∃ r h₂ h₃ q, (Expr.addition 0 []).run ⟨#[p]⟩ = .ok r h₂ ∧
      (grow r 0 (p.capacity + 2)).run h₂ = .ok 4 h₃ ∧ h₃.pools[0]? = some q ∧
      q.used = 20 ∧ q.failures = 1 ∧ q.audit = none := by
  obtain ⟨p, hp, hcap, hlim, hfail, hsize⟩ : ∃ p, Pool.new 0 64 {} = .ok p ∧
      p.capacity = (64 : Int).toNat ∧ p.limit = (64 : Int).toNat ∧ p.failures = 0 ∧
      p.slots.size = (Pool.tableSizeFor {} 64).toNat :=
    Pool.new_ok 0 (by decide) (by decide) (by decide) (by decide)
  have hB := Pool.Built.of_new hp hcap hlim hfail hsize
  have hused : p.used = 10 := congrArg Stats.used hB.stats_eq
  have hlive : p.slots.live = 1 := congrArg Stats.live hB.stats_eq
  have hsize' : p.slots.size = 6 := by rw [hsize]; decide
  have hlim' : p.limit = 64 := by rw [hlim]; rfl
  have hcap' : p.capacity = 64 := by rw [hcap]; rfl
  refine ⟨p, hp, ?_⟩
  obtain ⟨r, h₂, n, h₃, q, hadd, hgrow, hq, -, -, -, -, hfl, haudit, -, hok⟩ :=
    exhaust_counts_terms (p := p) (fresh_of_new hp) .refl rfl (by omega)
      (by rw [hcap', show maxCapacity = 16777216 from rfl]; omega)
  have hH : headerSize = 10 := rfl
  have hnref : ¬ p.CreateRefused [] := by
    unfold Pool.CreateRefused SlotTable.free
    simp only [List.length_nil]
    omega
  obtain ⟨hk, hu, -⟩ := hok hnref
  have h44 : termsBytes 0 4 = 44 := by
    simp [termsBytes, termBytes_of_lt, hH]
  have h55 : termsBytes 0 5 = 55 := by
    simp [termsBytes, termBytes_of_lt, hH]
  unfold SlotTable.free at hk
  -- four terms fit, five do not
  have hn : n = 4 := by
    have h4 := (hk 4).mpr (by omega)
    have h5 := (hk 5).not.mpr (by omega)
    omega
  subst hn
  refine ⟨r, h₂, h₃, q, hadd, hgrow, hq, by omega, by omega, ?_⟩
  rw [haudit, hB.kept.audit_eq, if_pos hB.failure_first]

end Command

end TreeArena
