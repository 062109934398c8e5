import TreeArena.Proofs.ForestEdits

/-!
# The abstract forest of a laid-out forest

`Tree.forestView g ts` is the abstract forest of the forest `ts` when slot `s` is at generation
`g s`: the identifier `⟨s, g s⟩` names the record in slot `s`, with its children named the same
way, and no other identifier names anything. A sound pool's view is the abstract forest of the
forest it lays out, named with its table's generations (`Pool.Sound.view_eq`); after steps that
only free slots, the generations from before still name every record that is left
(`Pool.Sound.view_eq_of_frees`).

The view reads the records with their children, in any order, once their slots are distinct
(`forestView_perm`). So a rearrangement of the forest that rewrites one record's entry sets one
node of the view (`forestView_put`), one that drops a record drops its node (`forestView_drop`).
-/

namespace TreeArena

namespace Tree

open Forest

variable {g : Nat → Nat} {ts ts' : List Tree}

/-- The node a record stands for, with its children's slots, when slot `s` is at generation
`g s`. -/
def nodeView (g : Nat → Nat) (e : Node × List Nat) : NodeView :=
  { kind := e.1.kind, payload := e.1.payload, children := e.2.map fun s => ⟨s, g s⟩,
    retain := e.1.retain }

/-- The abstract forest of the forest `ts` when slot `s` is at generation `g s`. -/
def forestView (g : Nat → Nat) (ts : List Tree) : Forest := fun id =>
  if id.generation = g id.slot then (lookup id.slot ts).map (nodeView g) else none

/-- The identifiers of the roots of consecutive subtrees. -/
def ids (g : Nat → Nat) (ts : List Tree) : List NodeId := (heads ts).map fun s => ⟨s, g s⟩

@[simp] theorem ids_nil : ids g [] = [] := rfl

@[simp] theorem ids_cons (t : Tree) : ids g (t :: ts) = ⟨t.head.slot, g t.head.slot⟩ :: ids g ts :=
  rfl

@[simp] theorem ids_append : ids g (ts ++ ts') = ids g ts ++ ids g ts' := by
  simp [ids]

@[simp] theorem nodeView_children (e : Node × List Nat) :
    (nodeView g e).children = e.2.map fun s => ⟨s, g s⟩ := rfl

@[simp] theorem nodeView_retain (e : Node × List Nat) : (nodeView g e).retain = e.1.retain := rfl

@[simp] theorem nodeView_children_count (h : Node) (n : Nat) (l : List Nat) :
    nodeView g ({ h with children := n }, l) = nodeView g (h, l) := rfl

theorem nodeView_withRetain (h : Node) (l : List Nat) (n : Nat) :
    (nodeView g (h, l)).withRetain n = nodeView g ({ h with retain := n }, l) := rfl

theorem nodeView_withChildren (h : Node) (l l' : List Nat) :
    (nodeView g (h, l)).withChildren (l'.map fun s => ⟨s, g s⟩) = nodeView g (h, l') := rfl

theorem forestView_named (g : Nat → Nat) (ts : List Tree) (s : Nat) :
    forestView g ts ⟨s, g s⟩ = (lookup s ts).map (nodeView g) := by
  simp [forestView]

theorem eq_named_of_forestView {id : NodeId} {v : NodeView} (hv : forestView g ts id = some v) :
    ∃ e, lookup id.slot ts = some e ∧ id = ⟨id.slot, g id.slot⟩ ∧ v = nodeView g e := by
  unfold forestView at hv
  split at hv
  · rename_i hg
    obtain ⟨e, he, rfl⟩ := Option.map_eq_some_iff.mp hv
    exact ⟨e, he, by rw [← hg], rfl⟩
  · cases hv

/-! ### Reading records in any order -/

/-- Among entries whose slots are distinct, finding a slot does not depend on their order. -/
theorem find?_slot_perm {l l' : List (Node × List Nat)} (hnd : (l.map fun e => e.1.slot).Nodup)
    (hp : l.Perm l') (s : Nat) :
    l.find? (fun e => e.1.slot == s) = l'.find? (fun e => e.1.slot == s) := by
  cases h : l.find? (fun e => e.1.slot == s) with
  | none =>
    refine (List.find?_eq_none.mpr fun e he => ?_).symm
    exact List.find?_eq_none.mp h e (hp.mem_iff.mpr he)
  | some e =>
    have he := List.mem_of_find?_eq_some h
    have hs := List.find?_some h
    have hsome : (l'.find? fun e => e.1.slot == s).isSome :=
      List.find?_isSome.mpr ⟨e, hp.mem_iff.mp he, hs⟩
    obtain ⟨e', he'⟩ := Option.isSome_iff_exists.mp hsome
    have hm' := hp.mem_iff.mpr (List.mem_of_find?_eq_some he')
    have hs' := List.find?_some he'
    simp only [beq_iff_eq] at hs hs'
    rw [he', List.inj_on_of_nodup_map hnd he hm' (hs.trans hs'.symm)]

theorem lookup_eq_find? {l : List (Node × List Nat)} (hnd : (l.map fun e => e.1.slot).Nodup)
    (hp : (linksAll ts).Perm l) (s : Nat) : lookup s ts = l.find? fun e => e.1.slot == s :=
  find?_slot_perm ((hp.map _).nodup_iff.mpr hnd) hp s

theorem nodup_of_links_perm {l : List (Node × List Nat)} (hnd : ((layout ts).map Node.slot).Nodup)
    (hp : (linksAll ts).Perm l) : (l.map fun e => e.1.slot).Nodup := by
  rw [← map_slot_linksAll] at hnd
  exact (hp.map _).nodup_iff.mp hnd

/-- Forests with the same records and children, in any order, have one view. -/
theorem forestView_perm (hnd : ((layout ts).map Node.slot).Nodup)
    (hp : (linksAll ts).Perm (linksAll ts')) : forestView g ts' = forestView g ts := by
  have hnd' := nodup_of_links_perm hnd hp
  funext id
  simp only [forestView, lookup, find?_slot_perm hnd' hp.symm]

/-- Rewriting one record's entry, the rest kept in any order, sets one node of the view. -/
theorem forestView_put {e d : Node × List Nat} {Z : List (Node × List Nat)}
    (hnd : ((layout ts).map Node.slot).Nodup) (hl : (linksAll ts).Perm (e :: Z))
    (hl' : (linksAll ts').Perm (d :: Z)) (hs : d.1.slot = e.1.slot) :
    forestView g ts' = (forestView g ts).put ⟨e.1.slot, g e.1.slot⟩ (nodeView g d) := by
  have hn := nodup_of_links_perm hnd hl
  have hn' : ((d :: Z).map fun e => e.1.slot).Nodup := by simpa [hs] using hn
  funext id
  simp only [forestView, put, lookup_eq_find? hn hl, lookup_eq_find? hn' hl']
  by_cases hid : id = ⟨e.1.slot, g e.1.slot⟩
  · subst hid
    simp [hs]
  · rw [if_neg hid]
    split
    · rename_i hg
      have hne : e.1.slot ≠ id.slot := fun h => hid (by cases id; simp_all)
      simp [hs, hne]
    · rfl

/-- Dropping one record's entry, the rest kept in any order, drops one node of the view. -/
theorem forestView_drop {e : Node × List Nat} {Z : List (Node × List Nat)}
    (hnd : ((layout ts).map Node.slot).Nodup) (hl : (linksAll ts).Perm (e :: Z))
    (hl' : (linksAll ts').Perm Z) :
    forestView g ts' = (forestView g ts).drop ⟨e.1.slot, g e.1.slot⟩ := by
  have hn := nodup_of_links_perm hnd hl
  have hn' : (Z.map fun e => e.1.slot).Nodup := (List.nodup_cons.mp hn).2
  have hout : Z.find? (fun e' => e'.1.slot == e.1.slot) = none := by
    refine List.find?_eq_none.mpr fun x hx hxs => ?_
    simp only [List.map_cons, List.nodup_cons, List.mem_map] at hn
    exact hn.1 ⟨x, hx, by simpa using hxs⟩
  funext id
  simp only [forestView, drop, lookup_eq_find? hn hl, lookup_eq_find? hn' hl']
  by_cases hid : id = ⟨e.1.slot, g e.1.slot⟩
  · subst hid
    simp [hout]
  · rw [if_neg hid]
    split
    · rename_i hg
      have hne : e.1.slot ≠ id.slot := fun h => hid (by cases id; simp_all)
      simp [hne]
    · rfl

theorem forestView_congr {g' : Nat → Nat} (hg : ∀ s ∈ (layout ts).map Node.slot, g' s = g s) :
    forestView g' ts = forestView g ts := by
  funext id
  cases hl : lookup id.slot ts with
  | none => simp [forestView, hl]
  | some e =>
    obtain ⟨hmem, hs⟩ := mem_of_lookup hl
    have hslot : id.slot ∈ (layout ts).map Node.slot := by
      rw [← hs]
      exact List.mem_map_of_mem (fst_mem_layout hmem)
    -- the children of a record are records too
    have hkids : ∀ s ∈ e.2, g' s = g s := fun s hsk => hg s <|
      (perm_heads_kids ts).subset (List.mem_append_right _ (List.mem_flatMap.mpr ⟨e, hmem, hsk⟩))
    simp only [forestView, hl, hg _ hslot, Option.map_some, nodeView]
    congr 3
    exact List.map_congr_left fun s hsk => by rw [hkids s hsk]

/-! ### What the forest's edits do to the view -/

/-- Giving back a unit of a root that keeps some counts it one fewer. -/
theorem forestView_kept {A B : List Tree} {h : Node} {ks : List Tree} {v : NodeView}
    (hv : nodeView g (h, heads ks) = v) (n : Nat)
    (hnd : ((layout (A ++ node h ks :: B)).map Node.slot).Nodup) :
    forestView g (A ++ node { h with retain := n } ks :: B) =
      (forestView g (A ++ node h ks :: B)).put ⟨h.slot, g h.slot⟩ (v.withRetain n) := by
  subst hv
  refine forestView_put hnd (e := (h, heads ks)) (d := ({ h with retain := n }, heads ks))
    (Z := linksAll A ++ linksAll ks ++ linksAll B) ?_ ?_ rfl <;>
  · rw [List.perm_iff_count]
    intro a
    simp only [linksAll_append, linksAll_cons, links_node, List.count_append, List.count_cons]
    omega

/-- A root that gives back its last unit goes, and its children are roots in its place. -/
theorem forestView_freed {A B : List Tree} {h : Node} {ks : List Tree}
    (hnd : ((layout (A ++ node h ks :: B)).map Node.slot).Nodup) :
    forestView g (A ++ ks ++ B) = (forestView g (A ++ node h ks :: B)).drop ⟨h.slot, g h.slot⟩ := by
  refine forestView_drop hnd (e := (h, heads ks)) (Z := linksAll A ++ linksAll ks ++ linksAll B)
    ?_ (by simp)
  rw [List.perm_iff_count]
  intro a
  simp only [linksAll_append, linksAll_cons, links_node, List.count_append, List.count_cons]
  omega

mutual

theorem slots_dropUnit_sublist : ∀ T : Tree,
    ((layout T.dropUnit).map Node.slot).Sublist (T.records.map Node.slot)
  | node h ks => by
    cases hp : h.pinned
    case true => rw [dropUnit_of_pinned ks hp, layout_singleton]
    case false =>
      by_cases hone : h.retain = 1
      · rw [dropUnit_of_one ks hp hone, records_node, List.map_cons]
        exact (slots_dropUnitAll_sublist ks).cons _
      · rw [dropUnit_of_ne_one ks hp hone, layout_singleton]
        exact List.Sublist.refl _

theorem slots_dropUnitAll_sublist : ∀ ks : List Tree,
    ((layout (dropUnitAll ks)).map Node.slot).Sublist ((layout ks).map Node.slot)
  | [] => by simp
  | K :: ks => by
    rw [dropUnitAll_cons, layout_append, layout_cons, List.map_append, List.map_append]
    exact (slots_dropUnit_sublist K).append (slots_dropUnitAll_sublist ks)

end

theorem nodup_dropUnit {A B : List Tree} {T : Tree}
    (hnd : ((layout (A ++ T :: B)).map Node.slot).Nodup) :
    ((layout (A ++ T.dropUnit ++ B)).map Node.slot).Nodup := by
  simp only [layout_append, layout_cons, List.map_append] at hnd ⊢
  rw [List.append_assoc]
  exact hnd.sublist ((List.Sublist.refl _).append ((slots_dropUnit_sublist T).append
    (List.Sublist.refl _)))

mutual

/-- A root whose records are not pinned gives back a unit in the view as in the forest: the view
of the forest with what remains of it in its place is what releasing its node leaves. -/
theorem releases_dropUnit : ∀ (T : Tree) (A B : List Tree) {xs : List NodeId} {F' : Forest},
    ((layout (A ++ T :: B)).map Node.slot).Nodup → (∀ nd ∈ T.records, nd.pinned = false) →
    Releases (forestView g (A ++ T.dropUnit ++ B)) xs F' →
    Releases (forestView g (A ++ T :: B)) (⟨T.head.slot, g T.head.slot⟩ :: xs) F'
  | node h ks, A, B, xs, F', hnd, hpin, hrel => by
    show Releases (forestView g (A ++ node h ks :: B)) (⟨h.slot, g h.slot⟩ :: xs) F'
    have hp : h.pinned = false := hpin h (by simp)
    have hv : forestView g (A ++ node h ks :: B) ⟨h.slot, g h.slot⟩ =
        some (nodeView g (h, heads ks)) := by
      rw [forestView_named, lookup_of_mem hnd (e := (h, heads ks)) (by simp)]
      rfl
    by_cases hone : h.retain = 1
    · -- the record goes, and its children give back their edges' units in its place
      rw [dropUnit_of_one ks hp hone] at hrel
      refine .free hv hone ?_
      rw [← forestView_freed hnd, nodeView_children]
      have hnd' : ((layout (A ++ ks ++ B)).map Node.slot).Nodup := by
        simp only [layout_append, layout_cons, records_node, List.map_append,
          List.map_cons] at hnd ⊢
        exact hnd.sublist (by simp)
      exact releasesAll_dropUnitAll ks A B hnd' (fun nd hnd => hpin nd (by simp [hnd])) hrel
    · rw [dropUnit_of_ne_one ks hp hone] at hrel
      refine .keep hv hone ?_
      rw [← forestView_kept rfl _ hnd]
      simpa using hrel

/-- Consecutive roots whose records are not pinned each give back a unit, first to last, in the
view as in the forest. -/
theorem releasesAll_dropUnitAll : ∀ (ks A B : List Tree) {xs : List NodeId} {F' : Forest},
    ((layout (A ++ ks ++ B)).map Node.slot).Nodup → (∀ nd ∈ layout ks, nd.pinned = false) →
    Releases (forestView g (A ++ dropUnitAll ks ++ B)) xs F' →
    Releases (forestView g (A ++ ks ++ B)) ((heads ks).map (fun s => ⟨s, g s⟩) ++ xs) F'
  | [], A, B, xs, F', _, _, hrel => by simpa using hrel
  | K :: ks, A, B, xs, F', hnd, hpin, hrel => by
    rw [dropUnitAll_cons] at hrel
    have hnd₁ : ((layout (A ++ K :: (ks ++ B))).map Node.slot).Nodup := by simpa using hnd
    -- the first root gives back its unit once the others have given back theirs
    have h₁ := releasesAll_dropUnitAll ks (A ++ K.dropUnit) B
      (by simpa using nodup_dropUnit hnd₁) (fun nd hnd => hpin nd (by simp [hnd]))
      (by simpa only [List.append_assoc] using hrel)
    have h₂ := releases_dropUnit K A (ks ++ B) hnd₁ (fun nd hnd => hpin nd (by simp [hnd]))
      (by simpa only [List.append_assoc] using h₁)
    simpa only [heads_cons, List.map_cons, List.cons_append, List.append_assoc] using h₂

end

/-- Taking the children `M` of the record `h` out to be roots: the view sets `h`'s node, `h'`
being `h` with perhaps another count of children. -/
theorem forestView_detach {d : Ctx} {h h' : Node} {L M R : List Tree}
    (hs : h'.slot = h.slot) (hnd : ((layout (d.fill [node h (L ++ M ++ R)])).map Node.slot).Nodup) :
    forestView g (d.fill [node h' (L ++ R)] ++ M) =
      (forestView g (d.fill [node h (L ++ M ++ R)])).put ⟨h.slot, g h.slot⟩
        (nodeView g (h', heads (L ++ R))) := by
  obtain ⟨X, Y, h₁, h₂⟩ := d.linksAll_fill
    (show heads [node h (L ++ M ++ R)] = heads [node h' (L ++ R)] by simp [hs])
  refine forestView_put hnd (e := (h, heads (L ++ M ++ R))) (d := (h', heads (L ++ R)))
    (Z := X ++ linksAll L ++ linksAll M ++ linksAll R ++ Y) ?_ ?_ hs
  · rw [h₁, List.perm_iff_count]
    intro a
    simp only [linksAll_append, linksAll_cons, linksAll_nil, links_node, List.count_append,
      List.count_cons, List.count_nil]
    omega
  · rw [linksAll_append, h₂, List.perm_iff_count]
    intro a
    simp only [linksAll_append, linksAll_cons, linksAll_nil, links_node, List.count_append,
      List.count_cons, List.count_nil]
    omega

/-- Exchanging the child `X` of the record `h` with the root `Y`: the view sets `h`'s node. -/
theorem forestView_swap {d : Ctx} {h : Node} {L R : List Tree} {X Y : Tree}
    (hnd : ((layout (d.fill [node h (L ++ X :: R)] ++ [Y])).map Node.slot).Nodup) :
    forestView g (d.fill [node h (L ++ Y :: R)] ++ [X]) =
      (forestView g (d.fill [node h (L ++ X :: R)] ++ [Y])).put ⟨h.slot, g h.slot⟩
        (nodeView g (h, heads (L ++ Y :: R))) := by
  obtain ⟨P, Q, h₁, h₂⟩ := d.linksAll_fill
    (show heads [node h (L ++ X :: R)] = heads [node h (L ++ Y :: R)] from rfl)
  refine forestView_put hnd (e := (h, heads (L ++ X :: R))) (d := (h, heads (L ++ Y :: R)))
    (Z := P ++ linksAll L ++ links X ++ links Y ++ linksAll R ++ Q) ?_ ?_ rfl
  · rw [linksAll_append, h₁, List.perm_iff_count]
    intro a
    simp only [linksAll_append, linksAll_cons, linksAll_nil, links_node, List.count_append,
      List.count_cons, List.count_nil]
    omega
  · rw [linksAll_append, h₂, List.perm_iff_count]
    intro a
    simp only [linksAll_append, linksAll_cons, linksAll_nil, links_node, List.count_append,
      List.count_cons, List.count_nil]
    omega

/-- Rewriting records in what the view does not read leaves it as it is. -/
theorem forestView_mapAll {φ : Node → Node} (hφ : ∀ nd, (φ nd).slot = nd.slot)
    (hv : ∀ e, nodeView g (φ e.1, e.2) = nodeView g e) (A B : List Tree) :
    forestView g (mapAll φ A ++ B) = forestView g (A ++ B) := by
  funext id
  simp only [forestView, lookup_append, lookup_mapAll hφ]
  cases lookup id.slot A <;> simp [hv]

theorem forestView_parentsUnique (hnd : ((layout ts).map Node.slot).Nodup) :
    (forestView g ts).ParentsUnique := by
  intro q q' u u' c hq hq' hc hc'
  obtain ⟨e, he, hqe, rfl⟩ := eq_named_of_forestView hq
  obtain ⟨e', he', hqe', rfl⟩ := eq_named_of_forestView hq'
  obtain ⟨s, hs, rfl⟩ := List.mem_map.mp hc
  obtain ⟨s', hs', hss⟩ := List.mem_map.mp hc'
  obtain rfl : s' = s := congrArg NodeId.slot hss
  obtain ⟨hm, hslot⟩ := mem_of_lookup he
  obtain ⟨hm', hslot'⟩ := mem_of_lookup he'
  rw [hqe, hqe', ← hslot, ← hslot', eq_of_mem_kids hnd hm hm' hs hs']

theorem forestView_orphan (hnd : ((layout ts).map Node.slot).Nodup) {s : Nat} (hs : s ∈ heads ts) :
    (forestView g ts).Orphan ⟨s, g s⟩ := by
  intro q u hq hc
  obtain ⟨e, he, -, rfl⟩ := eq_named_of_forestView hq
  obtain ⟨s', hs', hss⟩ := List.mem_map.mp hc
  obtain rfl : s' = s := congrArg NodeId.slot hss
  exact not_mem_kidSlots_of_mem_heads hnd hs (List.mem_flatMap.mpr ⟨e, (mem_of_lookup he).1, hs'⟩)

theorem forestView_fill_head {c : Ctx} {h : Node} {ks : List Tree}
    (hnd : ((layout (c.fill [node h ks])).map Node.slot).Nodup) :
    forestView g (c.fill [node h ks]) ⟨h.slot, g h.slot⟩ = some (nodeView g (h, heads ks)) := by
  rw [forestView_named, lookup_fill_head hnd]
  rfl

/-- The root identifiers of the children `L`, `T`, `R` in order; the one of `T` appears once when
the slots are distinct. -/
theorem ids_erase {L R : List Tree} {T : Tree} (hnd : (heads (L ++ T :: R)).Nodup) :
    (ids g (L ++ T :: R)).erase ⟨T.head.slot, g T.head.slot⟩ = ids g (L ++ R) := by
  have hout : (⟨T.head.slot, g T.head.slot⟩ : NodeId) ∉ ids g L := by
    intro hm
    obtain ⟨s, hs, hss⟩ := List.mem_map.mp hm
    obtain rfl : s = T.head.slot := congrArg NodeId.slot hss
    simp only [heads_append, heads_cons, List.nodup_append, List.mem_cons] at hnd
    exact hnd.2.2 _ hs _ (by simp) rfl
  rw [ids_append, ids_cons, List.erase_append_right _ hout, List.erase_cons_head, ← ids_append]

theorem heads_sublist : ∀ ts : List Tree, (heads ts).Sublist ((layout ts).map Node.slot)
  | [] => by simp
  | t :: ts => by
    rw [heads_cons, layout_cons, records_eq, List.map_append, List.map_cons, List.cons_append]
    exact ((heads_sublist ts).trans (List.sublist_append_right _ _)).cons_cons _

theorem nodup_heads_of_fill {c : Ctx} {h : Node} {ks : List Tree}
    (hnd : ((layout (c.fill [node h ks])).map Node.slot).Nodup) : (heads ks).Nodup := by
  refine List.Nodup.sublist ((heads_sublist ks).trans ?_) hnd
  rw [Ctx.layout_fill, layout_singleton, records_node, List.map_append, List.map_append,
    List.map_cons]
  exact (List.sublist_cons_self _ _).trans
    ((List.sublist_append_right _ _).trans (List.sublist_append_left _ _))

end Tree

namespace Pool

open TreeArena.Tree Forest

variable {p : Pool} {w : Nat → Nat} {ts : List Tree}

/-- The abstract forest of a sound pool is the view of the forest it lays out, named with the
generations of its table. -/
theorem Sound.view_eq (hS : p.Sound w ts) : p.view = forestView p.slots.generation ts := by
  funext id
  by_cases hg : id.generation = p.slots.generation id.slot
  · have hid : id = p.slots.idOf id.slot := by
      cases id
      simp only [SlotTable.idOf, NodeId.mk.injEq, true_and] at hg ⊢
      exact hg
    rw [hid, hS.view_idOf]
    exact (forestView_named _ ts id.slot).symm
  · -- an identifier of another generation resolves to nothing
    have hres : p.slots.resolve id = none := by
      unfold SlotTable.resolve
      split_ifs with h₀ h₁
      · rfl
      · exact absurd h₁.2.symm hg
      · rfl
    simp [view, hres, forestView, hg]

/-- Once steps have freed some slots, the records left are named as before. -/
theorem Sound.view_eq_of_frees {p' : Pool} {w' : Nat → Nat} {ts' : List Tree} {P : Nat → Prop}
    (hS' : p'.Sound w' ts') (hfr : p.slots.Frees P p'.slots) :
    p'.view = forestView p.slots.generation ts' := by
  rw [hS'.view_eq]
  refine forestView_congr fun s hs => ?_
  have hlive : p'.slots.isFree s = false := (hS'.isFree_eq_false_iff s).mpr hs
  rcases hfr.slot s with ⟨-, hgen⟩ | ⟨-, -, hfree, -⟩
  · exact hgen
  · rw [hlive] at hfree
    cases hfree

/-! ### Adopting -/

theorem nodeView_lowerAt (g : Nat → Nat) (s : Nat) (e : Node × List Nat) :
    nodeView g (lowerAt s e.1, e.2) = nodeView g e := by
  unfold lowerAt
  split <;> rfl

theorem slot_lowerAt (s : Nat) (nd : Node) : (lowerAt s nd).slot = nd.slot := by
  unfold lowerAt
  split <;> rfl

/-- Adopting keeps the slots: those of the forest without the subtree and of the subtree as a
root are those of the forest. -/
theorem Adopted.perm_slots {c : Ctx} {T : Tree} {rest : List Tree} {T' : Tree}
    (had : Adopted c T rest T') :
    ((layout (rest ++ [T'])).map Node.slot).Perm ((layout (c.fill [T])).map Node.slot) := by
  have hfill : ((layout (c.fill [] ++ [T])).map Node.slot).Perm
      ((layout (c.fill [T])).map Node.slot) := by
    simp only [layout_append, Ctx.layout_fill, layout_nil, List.append_nil, List.map_append]
    rw [List.perm_iff_count]
    intro a
    simp only [List.count_append]
    omega
  rcases had with ⟨-, rfl, rfl⟩ | ⟨f, fs, -, rfl, rfl⟩
  · -- the root's record keeps its slot
    have hT : (node (if T.head.pinned then T.head else { T.head with retain := T.head.retain + 1 })
        T.kids).records.map Node.slot = T.records.map Node.slot := by
      rw [records_node, records_eq T]
      split <;> rfl
    simp only [layout_append, layout_singleton, List.map_append] at hfill ⊢
    rwa [hT]
  · rw [layout_append, layout_mapAll, List.map_append, List.map_map,
      show Node.slot ∘ lowerAt f.head.slot = Node.slot from funext (slot_lowerAt _),
      ← List.map_append, ← layout_append]
    exact hfill

/-- Adopting the subtree at a hole, as the pool does, adopts its root in the view, the subtree
then being a root after the rest of the forest. -/
theorem adopts_of_adopted {g : Nat → Nat} {c : Ctx} {T : Tree} {rest : List Tree} {T' : Tree}
    (had : Adopted c T rest T') (hnd : ((layout (c.fill [T])).map Node.slot).Nodup)
    (hp : T.head.pinned = false) :
    Adopts (forestView g (c.fill [T])) ⟨T.head.slot, g T.head.slot⟩ (forestView g (rest ++ [T'])) := by
  rcases had with ⟨hup, rfl, rfl⟩ | ⟨f, fs, hup, rfl, hT⟩
  · -- a root gains a unit for its edge
    rw [if_neg (by simp [hp])]
    obtain ⟨h, ks⟩ := T
    simp only [head_node, kids_node] at hp ⊢
    have hfill : ∀ us, c.fill us = c.left ++ us ++ c.right := fun us => by
      simp [Ctx.fill, hup, Frame.closeAll]
    rw [hfill] at hnd ⊢
    rw [hfill, List.append_nil]
    simp only [List.append_assoc, List.singleton_append] at hnd ⊢
    have hnd' : ((layout (c.left ++ node { h with retain := h.retain + 1 } ks :: c.right)).map
        Node.slot).Nodup := by simpa using hnd
    have hperm : (linksAll (c.left ++ node { h with retain := h.retain + 1 } ks :: c.right)).Perm
        (linksAll (c.left ++ (c.right ++ [node { h with retain := h.retain + 1 } ks]))) := by
      rw [List.perm_iff_count]
      intro a
      simp only [linksAll_append, linksAll_cons, linksAll_nil, List.count_append, List.count_nil]
      omega
    rw [forestView_perm hnd' hperm, forestView_kept rfl (h.retain + 1) hnd]
    have hv : forestView g (c.left ++ node h ks :: c.right) ⟨h.slot, g h.slot⟩ =
        some (nodeView g (h, heads ks)) := by
      rw [forestView_named, lookup_of_mem hnd (e := (h, heads ks)) (by simp)]
      rfl
    exact .root hv (forestView_orphan hnd (by simp))
  · -- a child leaves its parent's children, keeping the edge's unit
    rw [hT]
    obtain ⟨h, ks⟩ := T
    simp only [head_node] at hp ⊢
    obtain ⟨d, rfl⟩ : ∃ d : Ctx, c = d.child f.head f.left f.right := ⟨_, Ctx.eq_child_of_up hup⟩
    rw [Ctx.child_fill] at hnd ⊢
    rw [Ctx.child_fill, forestView_mapAll (slot_lowerAt _) (nodeView_lowerAt g _),
      List.append_nil, forestView_detach rfl hnd]
    simp only [List.append_assoc, List.singleton_append] at hnd ⊢
    have hq := forestView_fill_head (g := g) hnd
    have he := ids_erase (g := g) (T := node h ks) (nodup_heads_of_fill hnd)
    simp only [head_node] at he
    have hkids : nodeView g (f.head, heads (f.left ++ f.right)) =
        (nodeView g (f.head, heads (f.left ++ node h ks :: f.right))).withChildren
          ((ids g (f.left ++ node h ks :: f.right)).erase ⟨h.slot, g h.slot⟩) := by
      rw [he]
      rfl
    rw [hkids]
    exact .child hq (by simp)

end Pool

end TreeArena
