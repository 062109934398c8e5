import Mathlib.Data.List.Pairwise
import TreeArena.Proofs.Queries

/-!
# The abstract forest

A pool stands for a forest whose nodes are named by identifiers: each live identifier maps to its
node's type, payload, ordered list of child identifiers and retain count. `Pool.view` reads that
map off the arena through the identifier table. The forest a sound pool lays out gives the same
map by slot: `Tree.lookup s ts` is the record in slot `s` with its children's slots, and
`Pool.Sound.view_idOf` says the two agree.

Edits rewrite a few entries of the map. The lemmas here say how a lookup sees through the
zipper: what lies outside the hole and its parent's record does not depend on the hole's content
(`lookup_fill_congr`, `lookup_fill_parent`), and in a forest with distinct slots the root of the
subtree at a hole is the record its slot looks up (`lookup_fill_head`). Every record is a root or
the child of exactly one record (`perm_heads_kids`).
-/

namespace TreeArena

namespace Tree

/-- The slots of the roots of consecutive subtrees. -/
def heads (ts : List Tree) : List Nat := ts.map fun t => t.head.slot

mutual

/-- Every record of a subtree with its children's slots, in depth-first order. -/
def links : Tree → List (Node × List Nat)
  | node h ks => (h, heads ks) :: linksAll ks

/-- The records of consecutive subtrees with their children's slots. -/
def linksAll : List Tree → List (Node × List Nat)
  | [] => []
  | t :: ts => links t ++ linksAll ts

end

/-- The record in slot `s` of a forest, with its children's slots. -/
def lookup (s : Nat) (ts : List Tree) : Option (Node × List Nat) :=
  (linksAll ts).find? fun e => e.1.slot == s

@[simp] theorem heads_nil : heads [] = [] := rfl

@[simp] theorem heads_cons (t : Tree) (ts : List Tree) :
    heads (t :: ts) = t.head.slot :: heads ts := rfl

@[simp] theorem heads_append (ts us : List Tree) : heads (ts ++ us) = heads ts ++ heads us :=
  List.map_append ..

@[simp] theorem links_node (h : Node) (ks : List Tree) :
    links (node h ks) = (h, heads ks) :: linksAll ks := by
  rw [links]

@[simp] theorem linksAll_nil : linksAll [] = [] := by
  rw [linksAll]

@[simp] theorem linksAll_cons (t : Tree) (ts : List Tree) :
    linksAll (t :: ts) = links t ++ linksAll ts := by
  rw [linksAll]

@[simp] theorem linksAll_append (ts us : List Tree) :
    linksAll (ts ++ us) = linksAll ts ++ linksAll us := by
  induction ts with
  | nil => simp
  | cons t ts ih => simp [ih]

theorem linksAll_singleton (t : Tree) : linksAll [t] = links t := by simp

@[simp] theorem heads_mapAll (φ : Node → Node) (hφ : ∀ nd, (φ nd).slot = nd.slot) (ts : List Tree) :
    heads (mapAll φ ts) = heads ts := by
  induction ts with
  | nil => simp
  | cons t ts ih => simp [ih, hφ]

mutual

theorem map_fst_links : ∀ t : Tree, (links t).map Prod.fst = t.records
  | node h ks => by rw [links_node, records_node, List.map_cons, map_fst_linksAll ks]

theorem map_fst_linksAll : ∀ ts : List Tree, (linksAll ts).map Prod.fst = layout ts
  | [] => by simp
  | t :: ts => by rw [linksAll_cons, layout_cons, List.map_append, map_fst_links t, map_fst_linksAll ts]

end

theorem map_slot_linksAll (ts : List Tree) :
    (linksAll ts).map (fun e => e.1.slot) = (layout ts).map Node.slot := by
  rw [← map_fst_linksAll, List.map_map]
  rfl

theorem fst_mem_layout {ts : List Tree} {e : Node × List Nat} (he : e ∈ linksAll ts) :
    e.1 ∈ layout ts := by
  rw [← map_fst_linksAll]
  exact List.mem_map_of_mem he

theorem mem_slots_of_mem_heads {ts : List Tree} {s : Nat} (hs : s ∈ heads ts) :
    s ∈ (layout ts).map Node.slot := by
  obtain ⟨t, ht, rfl⟩ := List.mem_map.mp hs
  exact List.mem_map_of_mem (Pool.head_mem_layout ht)

/-! ### Lookups -/

@[simp] theorem lookup_nil (s : Nat) : lookup s [] = none := rfl

theorem lookup_append (s : Nat) (ts us : List Tree) :
    lookup s (ts ++ us) = (lookup s ts).or (lookup s us) := by
  simp [lookup, List.find?_append]

theorem lookup_cons (s : Nat) (t : Tree) (ts : List Tree) :
    lookup s (t :: ts) = (lookup s [t]).or (lookup s ts) := by
  rw [← List.singleton_append, lookup_append]

theorem lookup_node (s : Nat) (h : Node) (ks : List Tree) :
    lookup s [node h ks] = if h.slot = s then some (h, heads ks) else lookup s ks := by
  unfold lookup
  rw [linksAll_singleton, links_node]
  by_cases hs : h.slot = s <;> simp [hs]

theorem mem_of_lookup {s : Nat} {ts : List Tree} {e : Node × List Nat} (he : lookup s ts = some e) :
    e ∈ linksAll ts ∧ e.1.slot = s :=
  ⟨List.mem_of_find?_eq_some he, by simpa using List.find?_some he⟩

theorem lookup_eq_none {s : Nat} {ts : List Tree} (hs : s ∉ (layout ts).map Node.slot) :
    lookup s ts = none := by
  refine List.find?_eq_none.mpr fun e he hes => hs ?_
  rw [← map_slot_linksAll]
  exact List.mem_map.mpr ⟨e, he, by simpa using hes⟩

theorem lookup_isSome_iff {s : Nat} {ts : List Tree} :
    (lookup s ts).isSome ↔ s ∈ (layout ts).map Node.slot := by
  constructor
  · intro hs
    obtain ⟨e, he⟩ := Option.isSome_iff_exists.mp hs
    obtain ⟨hmem, rfl⟩ := mem_of_lookup he
    exact List.mem_map_of_mem (fst_mem_layout hmem)
  · intro hs
    by_contra hn
    rw [Option.not_isSome_iff_eq_none] at hn
    obtain ⟨e, he, rfl⟩ := List.mem_map.mp (map_slot_linksAll ts ▸ hs)
    have := List.find?_eq_none.mp hn e he
    simp at this

/-- In a forest with distinct slots, a record and its children's slots are what its slot looks
up. -/
theorem lookup_of_mem {ts : List Tree} (hnd : ((layout ts).map Node.slot).Nodup)
    {e : Node × List Nat} (he : e ∈ linksAll ts) : lookup e.1.slot ts = some e := by
  obtain ⟨e', he'⟩ : ∃ e', lookup e.1.slot ts = some e' := by
    refine Option.isSome_iff_exists.mp (lookup_isSome_iff.mpr ?_)
    exact List.mem_map_of_mem (fst_mem_layout he)
  obtain ⟨hmem, hslot⟩ := mem_of_lookup he'
  rw [he', List.inj_on_of_nodup_map (map_slot_linksAll ts ▸ hnd) hmem he hslot]

theorem lookup_mapAll {φ : Node → Node} (hφ : ∀ nd, (φ nd).slot = nd.slot) (s : Nat) :
    ∀ ts : List Tree, lookup s (mapAll φ ts) = (lookup s ts).map fun e => (φ e.1, e.2)
  | [] => rfl
  | node h ks :: ts => by
    rw [mapAll_cons, lookup_cons, map_node, lookup_node, lookup_mapAll hφ s ks, lookup_cons _ _ ts,
      lookup_node, lookup_mapAll hφ s ts, hφ, heads_mapAll φ hφ]
    by_cases hs : h.slot = s
    · simp [hs]
    · cases lookup s ks <;> simp [hs]

/-! ### Lookups through a hole -/

namespace Frame

/-- The links of the levels above a hole depend on what fills it through its roots' slots
only. -/
theorem linksAll_closeAll : ∀ (fs : List Frame) {us us' : List Tree}, heads us = heads us' →
    ∃ X Y, linksAll (closeAll fs us) = X ++ linksAll us ++ Y ∧
      linksAll (closeAll fs us') = X ++ linksAll us' ++ Y
  | [], _, _, _ => ⟨[], [], by simp [closeAll], by simp [closeAll]⟩
  | f :: fs, us, us', hh => by
    have hc : heads [f.close us] = heads [f.close us'] := rfl
    obtain ⟨X, Y, h₁, h₂⟩ := linksAll_closeAll fs hc
    refine ⟨X ++ [(f.head, heads (f.left ++ us ++ f.right))] ++ linksAll f.left,
      linksAll f.right ++ Y, ?_, ?_⟩
    · rw [closeAll, h₁]
      simp [close]
    · rw [closeAll, h₂]
      simp [close, hh]

/-- Closing a level around subtrees keeps the lookups of slots other than the parent's. -/
theorem lookup_close_congr {f : Frame} {s : Nat} (hs : f.head.slot ≠ s) {us us' : List Tree}
    (hl : lookup s us = lookup s us') : lookup s [f.close us] = lookup s [f.close us'] := by
  simp only [close, lookup_node, hs, if_false, lookup_append, hl]

end Frame

namespace Ctx

theorem linksAll_fill (c : Ctx) {us us' : List Tree} (hh : heads us = heads us') :
    ∃ X Y, linksAll (c.fill us) = X ++ linksAll us ++ Y ∧
      linksAll (c.fill us') = X ++ linksAll us' ++ Y := by
  obtain ⟨X, Y, h₁, h₂⟩ := Frame.linksAll_closeAll c.up hh
  exact ⟨linksAll c.left ++ X, Y ++ linksAll c.right, by simp [fill, h₁], by simp [fill, h₂]⟩

/-- Filling a hole with subtrees whose roots carry the same slots keeps every lookup the
subtrees agree on. -/
theorem lookup_fill_congr (c : Ctx) {us us' : List Tree} (hh : heads us = heads us') {s : Nat}
    (hl : lookup s us = lookup s us') : lookup s (c.fill us) = lookup s (c.fill us') := by
  obtain ⟨X, Y, h₁, h₂⟩ := c.linksAll_fill hh
  simp only [lookup] at hl ⊢
  rw [h₁, h₂, List.find?_append, List.find?_append, List.find?_append, List.find?_append, hl]

/-- Below a parent, the hole's content shows only in the parent's entry and its own. -/
theorem lookup_fill_parent {c : Ctx} {f : Frame} {fs : List Frame} (hc : c.up = f :: fs)
    {s : Nat} (hs : f.head.slot ≠ s) {us us' : List Tree} (hl : lookup s us = lookup s us') :
    lookup s (c.fill us) = lookup s (c.fill us') := by
  have hfill : ∀ vs, c.fill vs = (⟨fs, c.left, c.right⟩ : Ctx).fill [f.close vs] := fun vs => by
    simp [fill, hc, Frame.closeAll]
  have hh : heads [f.close us] = heads [f.close us'] := rfl
  rw [hfill, hfill]
  exact Ctx.lookup_fill_congr _ hh (Frame.lookup_close_congr hs hl)

/-- Every root of a forest with a hole is a root beside the hole, or the hole's content when
the hole is at the top. -/
theorem heads_fill_of_up_eq_nil {c : Ctx} (hc : c.up = []) (us : List Tree) :
    heads (c.fill us) = heads c.left ++ heads us ++ heads c.right := by
  simp [fill, hc, Frame.closeAll]

/-- Below a parent, the roots do not depend on the hole's content. -/
theorem heads_fill_of_up_ne_nil {c : Ctx} (hc : c.up ≠ []) (us us' : List Tree) :
    heads (c.fill us) = heads (c.fill us') := by
  obtain ⟨f, fs, hc⟩ := List.exists_cons_of_ne_nil hc
  have hfill : ∀ vs, c.fill vs = (⟨fs, c.left, c.right⟩ : Ctx).fill [f.close vs] := fun vs => by
    simp [fill, hc, Frame.closeAll]
  rw [hfill, hfill]
  cases fs with
  | nil => simp [fill, Frame.closeAll, Frame.close]
  | cons g gs => exact heads_fill_of_up_ne_nil (by simp) _ _
termination_by c.up.length
decreasing_by simp [hc]

theorem linksAll_subset_fill (c : Ctx) (us : List Tree) {e : Node × List Nat}
    (he : e ∈ linksAll us) : e ∈ linksAll (c.fill us) := by
  obtain ⟨X, Y, h₁, -⟩ := c.linksAll_fill (show heads us = heads us from rfl)
  rw [h₁]
  exact List.mem_append_left _ (List.mem_append_right _ he)

end Ctx

section Distinct

variable {c : Ctx} {h : Node} {ks : List Tree}

/-- In a forest with distinct slots, the root of the subtree at a hole is what its slot looks
up, with its children's slots. -/
theorem lookup_fill_head (hnd : ((layout (c.fill [node h ks])).map Node.slot).Nodup) :
    lookup h.slot (c.fill [node h ks]) = some (h, heads ks) :=
  lookup_of_mem hnd (e := (h, heads ks)) (c.linksAll_subset_fill _ (by simp))

/-- In a forest with distinct slots, a subtree whose root is a root of the forest sits at a hole
at the top. -/
theorem up_eq_nil_of_mem_heads {t : Tree} (hnd : ((layout (c.fill [t])).map Node.slot).Nodup)
    (ht : t.head.slot ∈ heads (c.fill [t])) : c.up = [] := by
  by_contra hc
  rw [Ctx.heads_fill_of_up_ne_nil hc [t] []] at ht
  obtain ⟨nd, hnd', hs⟩ := List.mem_map.mp (mem_slots_of_mem_heads ht)
  rw [← eta t] at hnd
  exact (Pool.slot_ne_of_fill hnd).2 nd hnd' hs

end Distinct

/-! ### Parents -/

/-- The slots records list as children. -/
def kidSlots (ts : List Tree) : List Nat := (linksAll ts).flatMap Prod.snd

@[simp] theorem kidSlots_append (ts us : List Tree) :
    kidSlots (ts ++ us) = kidSlots ts ++ kidSlots us := by
  simp [kidSlots]

mutual

theorem perm_heads_kids_node : ∀ t : Tree,
    (t.head.slot :: kidSlots [t]).Perm (t.records.map Node.slot)
  | node h ks => by
    have := perm_heads_kids ks
    simp only [kidSlots, linksAll_singleton, links_node, List.flatMap_cons, head_node,
      records_node, List.map_cons] at this ⊢
    exact List.Perm.cons _ this

/-- Every record of a forest is a root or the child of one record: the roots' slots and the
children lists together list each record's slot once. -/
theorem perm_heads_kids : ∀ ts : List Tree, (heads ts ++ kidSlots ts).Perm ((layout ts).map Node.slot)
  | [] => by simp [kidSlots]
  | t :: ts => by
    have h₁ := perm_heads_kids_node t
    have h₂ := perm_heads_kids ts
    have hk : kidSlots (t :: ts) = kidSlots [t] ++ kidSlots ts := by
      rw [← kidSlots_append]; rfl
    rw [heads_cons, hk, layout_cons, List.map_append]
    refine List.Perm.trans ?_ (h₁.append h₂)
    simp only [List.cons_append, List.perm_cons]
    exact List.perm_append_comm_assoc _ _ _

end

/-- In a forest with distinct slots, a record's slot is listed as a child by one record at most,
and by none when the record is a root. -/
theorem nodup_heads_kids {ts : List Tree} (hnd : ((layout ts).map Node.slot).Nodup) :
    (heads ts ++ kidSlots ts).Nodup :=
  (perm_heads_kids ts).nodup_iff.mpr hnd

theorem not_mem_kidSlots_of_mem_heads {ts : List Tree} (hnd : ((layout ts).map Node.slot).Nodup)
    {s : Nat} (hs : s ∈ heads ts) : s ∉ kidSlots ts :=
  List.disjoint_of_nodup_append (nodup_heads_kids hnd) hs

theorem eq_of_mem_kids {ts : List Tree} (hnd : ((layout ts).map Node.slot).Nodup)
    {e e' : Node × List Nat} (he : e ∈ linksAll ts) (he' : e' ∈ linksAll ts) {s : Nat}
    (hs : s ∈ e.2) (hs' : s ∈ e'.2) : e = e' := by
  have hk : (kidSlots ts).Nodup := (List.nodup_append.mp (nodup_heads_kids hnd)).2.1
  obtain ⟨-, hpw⟩ := List.nodup_flatMap.mp hk
  by_contra hne
  have : Std.Symm (Function.onFun List.Disjoint (Prod.snd : Node × List Nat → List Nat)) :=
    ⟨fun _ _ h _ ha hb => h hb ha⟩
  exact hpw.forall he he' hne hs hs'

/-- In a forest with distinct slots, the subtrees at a hole look up what they looked up
alone. -/
theorem lookup_fill_of_lookup {c : Ctx} {us : List Tree}
    (hnd : ((layout (c.fill us)).map Node.slot).Nodup) {s : Nat} {e : Node × List Nat}
    (he : lookup s us = some e) : lookup s (c.fill us) = some e := by
  obtain ⟨hmem, rfl⟩ := mem_of_lookup he
  exact lookup_of_mem hnd (c.linksAll_subset_fill us hmem)

end Tree

/-- What the abstract forest holds for a node: its type, payload, children and retain count. -/
structure NodeView where
  kind : Nat
  payload : List UInt8
  children : List NodeId
  retain : Nat
deriving DecidableEq, Repr

namespace Pool

open TreeArena.Tree

/-- The identifiers of the children of the record at position `i`, in order. -/
def childIds (p : Pool) (i : Nat) : List NodeId :=
  (List.range (p.nodes.childrenAt i)).map fun j =>
    p.slots.idOf (p.nodes.slotAt (p.nodes.childStart i j))

/-- The abstract forest: the node a live identifier names, read through the table and the
layout. -/
def view (p : Pool) (id : NodeId) : Option NodeView :=
  (p.slots.resolve id).bind fun i => p.nodes[i]?.map fun nd =>
    { kind := nd.kind, payload := nd.payload, children := p.childIds i, retain := nd.retain }

/-- The node a record of the forest, with its children's slots, stands for. -/
def viewOf (p : Pool) (e : Node × List Nat) : NodeView :=
  { kind := e.1.kind, payload := e.1.payload, children := e.2.map p.slots.idOf, retain := e.1.retain }

variable {p : Pool} {w : Nat → Nat} {ts : List Tree}

/-- The children of the record at a hole are the roots of its children's subtrees. -/
theorem Sound.childIds_pos {c : Ctx} {h : Node} {ks : List Tree}
    (hS : p.Sound w (c.fill [node h ks])) : p.childIds c.pos = (heads ks).map p.slots.idOf := by
  have hwf := hS.wf_fill
  have hl : p.nodes.toList = c.before ++ (node h ks).records ++ c.after := by
    rw [← hS.laid.layout_eq, Ctx.layout_fill, layout_singleton]
  unfold childIds
  rw [hS.childrenAt_pos, (wf_node_iff.mp hwf).1]
  refine List.ext_getElem (by simp [heads]) fun j hj _ => ?_
  rw [List.length_map, List.length_range] at hj
  -- child `j` is the subtree at the hole between the children before and after it
  have hsplit : c.fill [node h ks] =
      (c.child h (ks.take j) (ks.drop (j + 1))).fill [node ks[j].head ks[j].kids] := by
    rw [Ctx.child_fill, eta]
    simp
  have hSj : p.Sound w ((c.child h (ks.take j) (ks.drop (j + 1))).fill [node ks[j].head ks[j].kids]) :=
    hsplit ▸ hS
  have hstart : p.nodes.childStart c.pos j = (c.child h (ks.take j) (ks.drop (j + 1))).pos := by
    rw [Ctx.child_pos]
    exact Arena.childStart_records hl hwf (by simp; omega)
  simp [hstart, hSj.slotAt_pos, heads]

/-- The abstract forest of a sound pool is the forest it lays out: a slot's current identifier
names the record in that slot, with its children, and nothing when the slot is free. -/
theorem Sound.view_idOf (hS : p.Sound w ts) (s : Nat) :
    p.view (p.slots.idOf s) = (lookup s ts).map p.viewOf := by
  cases hl : lookup s ts with
  | none =>
    have hpos : p.slots.position s = none := by
      have : p.slots.isFree s = true := by
        rw [← Bool.not_eq_false, hS.isFree_eq_false_iff, ← lookup_isSome_iff, hl]
        simp
      simpa [SlotTable.isFree] using this
    simp [view, SlotTable.resolve, SlotTable.idOf, hpos]
  | some e =>
    obtain ⟨hmem, rfl⟩ := mem_of_lookup hl
    have hlive : p.slots.isFree e.1.slot = false :=
      (hS.isFree_eq_false_iff _).mpr (List.mem_map_of_mem (fst_mem_layout hmem))
    obtain ⟨c, h, ks, rfl, hs⟩ := hS.exists_hole hlive
    have he : e = (h, heads ks) := by
      rw [← hs, lookup_fill_head hS.laid.nodup] at hl
      exact (Option.some.inj hl).symm
    subst he
    have hres : p.slots.resolve (p.slots.idOf h.slot) = some c.pos := hS.resolve_idOf
    simp [view, hres, hS.getElem?_pos, hS.childIds_pos, viewOf]

/-- A pool lays out one forest. -/
theorem Sound.forest_eq {w' : Nat → Nat} {ts' : List Tree} (hS : p.Sound w ts)
    (hS' : p.Sound w' ts') : ts = ts' := by
  have h₁ := parse_eq_some_iff.mpr ⟨hS.wf, hS.laid.layout_eq⟩
  have h₂ := parse_eq_some_iff.mpr ⟨hS'.wf, hS'.laid.layout_eq⟩
  exact Option.some.inj (h₁.symm.trans h₂)

/-- A node of the abstract forest is named by its slot's current identifier. -/
theorem eq_idOf_of_view {id : NodeId} {v : NodeView} (hv : p.view id = some v) :
    id = p.slots.idOf id.slot := by
  obtain ⟨i, hi, -⟩ := Option.bind_eq_some_iff.mp hv
  have := (SlotTable.resolve_isSome_iff p.slots id).mp (by rw [hi]; rfl)
  cases id
  simp only [SlotTable.idOf, NodeId.mk.injEq, true_and] at this ⊢
  exact this.2.2.1.symm

theorem Sound.view_parent_unique (hS : p.Sound w ts) {x y c : NodeId} {v u : NodeView}
    (hx : p.view x = some v) (hy : p.view y = some u) (hvc : c ∈ v.children)
    (huc : c ∈ u.children) : x = y := by
  have hx' := hx
  have hy' := hy
  rw [eq_idOf_of_view hx, hS.view_idOf] at hx'
  rw [eq_idOf_of_view hy, hS.view_idOf] at hy'
  obtain ⟨e, he, rfl⟩ := Option.map_eq_some_iff.mp hx'
  obtain ⟨e', he', rfl⟩ := Option.map_eq_some_iff.mp hy'
  obtain ⟨hm, hs⟩ := mem_of_lookup he
  obtain ⟨hm', hs'⟩ := mem_of_lookup he'
  obtain ⟨s, hs₁, rfl⟩ := List.mem_map.mp hvc
  obtain ⟨s', hs₂, hss⟩ := List.mem_map.mp huc
  obtain rfl : s' = s := congrArg NodeId.slot hss
  have := eq_of_mem_kids hS.laid.nodup hm hm' hs₁ hs₂
  rw [eq_idOf_of_view hx, eq_idOf_of_view hy, ← hs, ← hs', this]

end Pool

end TreeArena
