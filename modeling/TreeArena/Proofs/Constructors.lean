import TreeArena.Proofs.OperandSteps
import TreeArena.Proofs.Refusal
import TreeArena.Proofs.Reachable

/-!
# What a constructor builds

`Expr.operator k t cs` creates a node of type `t` and takes over the operands `cs`. The loop that
takes them over runs in two phases, each kept by an invariant on the heap and on the forest of
pool `k`:

* `Heap.Installing`: the node is no failure; the operands taken so far are its children, in
  order, and the operands still to come sit where they sat when the node was created.
* `Heap.Releasing`: the node is a childless failure root; the operands still to come that only
  the caller held are roots held once, and those already given back are reclaimed.

A failure operand moves the loop from the first phase to the second, and a node that could not
be allocated starts it in the second. `Heap.operator_takes_operands` puts the phases together:
over every reachable heap, a constructor given distinct operands of its pool, none of them a root
whose count is full, returns its node with the operands as children, or a failure exactly when
the node could not be allocated or an operand is a failure, and then the operands only the
caller held are gone.
-/

namespace TreeArena

namespace Pool

open TreeArena.Tree

variable {p : Pool} {w : Nat → Nat} {ts : List Tree}

/-- A node that only one owner holds: live with a count of one, and no node's child. -/
def Lone (p : Pool) (id : NodeId) : Prop :=
  (∃ v, p.view id = some v ∧ v.retain = 1) ∧ ∀ x v, p.view x = some v → id ∉ v.children

theorem Sound.mem_kidSlots_of_child (hS : p.Sound w ts) {x : NodeId} {v : NodeView}
    (hv : p.view x = some v) {s : Nat} (hs : p.slots.idOf s ∈ v.children) : s ∈ kidSlots ts := by
  rw [eq_idOf_of_view hv, hS.view_idOf] at hv
  obtain ⟨e, he, rfl⟩ := Option.map_eq_some_iff.mp hv
  obtain ⟨z, hz, hzs⟩ := List.mem_map.mp hs
  obtain rfl : z = s := congrArg NodeId.slot hzs
  exact List.mem_flatMap.mpr ⟨e, (mem_of_lookup he).1, hz⟩

theorem Sound.not_child_of_head (hS : p.Sound w ts) {s : Nat} (hs : s ∈ heads ts) {x : NodeId}
    {v : NodeView} (hv : p.view x = some v) : p.slots.idOf s ∉ v.children := fun hc =>
  not_mem_kidSlots_of_mem_heads hS.laid.nodup hs (hS.mem_kidSlots_of_child hv hc)

theorem Sound.head_of_not_child (hS : p.Sound w ts) {s : Nat}
    (hs : s ∈ (layout ts).map Node.slot)
    (hn : ∀ x v, p.view x = some v → p.slots.idOf s ∉ v.children) : s ∈ heads ts := by
  rcases List.mem_append.mp ((perm_heads_kids ts).mem_iff.mpr hs) with h | h
  · exact h
  · exfalso
    obtain ⟨e, he, hse⟩ := List.mem_flatMap.mp h
    have hv := hS.view_idOf e.1.slot
    rw [lookup_of_mem hS.laid.nodup he] at hv
    exact hn _ _ hv (List.mem_map_of_mem hse)

/-- A root's record holds the units of its owners. -/
theorem Sound.holds_of_head (hS : p.Sound w ts) {s : Nat} (hs : s ∈ heads ts) {nd : Node}
    {kids : List Nat} (hl : lookup s ts = some (nd, kids)) : nd.Holds w true := by
  obtain ⟨⟨h, ks⟩, ht, rfl⟩ := List.mem_map.mp hs
  have hmem : (h, heads ks) ∈ linksAll ts := by
    obtain ⟨A, B, rfl⟩ := List.append_of_mem ht
    simp [linksAll_append, links_node]
  have hl' := lookup_of_mem hS.laid.nodup hmem
  obtain rfl : nd = h := (Prod.mk.inj (Option.some.inj (hl.symm.trans hl'))).1
  exact (held_node_iff.mp (hS.held _ ht)).1

theorem Follows.idOf_eq {P : Nat → Prop} {p' : Pool} (hf : p.Follows P p') {s : Nat}
    (hs : p.slots.isFree s = false) (hP : ¬ P s) : p'.slots.idOf s = p.slots.idOf s := by
  rw [SlotTable.idOf, SlotTable.idOf, (hf.kept s hs hP).2]

end Pool

namespace Heap

open Pool TreeArena.Tree

/-! ### Handle lists -/

/-- Taking one handle out of the middle of a list takes its unit off its slot. -/
theorem units_insert {k : Nat} {c : Handle} (hc : c.home = some k) (R X B : List Handle) :
    units (R ++ c :: X ++ B) k = addUnit (units (R ++ X ++ B) k) c.slot := by
  funext s
  have hcs : units (c :: X) k s = units X k s + if s = c.slot then 1 else 0 := by
    rw [units_cons]
    simp [hc, eq_comm]
  simp only [addUnit, units_append, hcs]
  split_ifs <;> omega

theorem units_eq_zero {k s : Nat} {L : List Handle}
    (h : ∀ x ∈ L, x.home = some k → x.slot ≠ s) : units L k s = 0 := by
  simp only [units, List.countP_eq_zero, decide_eq_true_eq, not_and]
  exact h

theorem erase_insert {c : Handle} {R : List Handle} (hc : c ∉ R) (X B : List Handle) :
    (R ++ c :: X ++ B).erase c = R ++ X ++ B := by
  rw [List.append_assoc, List.erase_append_right _ hc, List.cons_append, List.erase_cons_head,
    List.append_assoc]

variable {h : Heap} {k : Nat} {q : Pool} {own : List Handle}

theorem Exact.finds (hE : h.Exact own) {x : Handle} (hx : x ∈ own) (hp : h.pools[k]? = some q)
    (hk : x.home = some k) : ∃ i, h.Finds x k q i := by
  obtain ⟨k', p', i, hf, -⟩ := owns_iff.mp (hE.owns hx)
  obtain rfl : k' = k := Option.some.inj (hf.home.symm.trans hk)
  obtain rfl : p' = q := Option.some.inj (hf.pool.symm.trans hp)
  exact ⟨i, hf⟩

theorem Finds.live {x : Handle} {i : Nat} (hf : h.Finds x k q i) :
    x.id = q.slots.idOf x.slot ∧ q.slots.isFree x.slot = false := by
  have hs : (q.slots.resolve x.id).isSome := by simp [hf.resolve]
  exact ⟨(SlotTable.idOf_of_resolve hs).symm, ((SlotTable.resolve_isSome_iff _ _).mp hs).2.2.2⟩

theorem Returns.of_run_eq {α : Type} {m m' : HeapM α} {h' : Heap} {Q : α → Heap → Prop}
    (he : m.run h = m'.run h') (hr : Returns m' h' Q) : Returns m h Q := by
  obtain ⟨a, h'', hrun, hq⟩ := hr
  exact ⟨a, h'', he.trans hrun, hq⟩

/-! ### One round of the loop -/

theorem run_installAll_skip {h' : Heap} {r c c' : Handle} {i : Nat} {cs : List Handle}
    (hf : h.isFailure r = true) (hrun : (release c).run h = .ok c' h') :
    (Expr.installAll r i (c :: cs)).run h = (Expr.installAll r (i + 1) cs).run h' := by
  rw [Expr.installAll, run_get_bind]
  simp only [hf, Bool.not_true]
  rw [if_neg (by decide), run_bind_ok hrun]

theorem run_installAll_add {h₁ h' : Heap} {r c c' : Handle} {i : Nat} {cs : List Handle}
    (hf : h.isFailure r = false) (hadd : (addChild r c i i).run h = .ok () h₁)
    (hrun : (release c).run h₁ = .ok c' h') :
    (Expr.installAll r i (c :: cs)).run h = (Expr.installAll r (i + 1) cs).run h' := by
  rw [Expr.installAll, run_get_bind]
  simp only [hf, Bool.not_false]
  rw [if_pos trivial, run_bind_ok hadd, run_bind_ok hrun]

/-! ### Once the node is a failure -/

/-- An operand only the caller holds: a root of the forest `ts₀` with a count of one, which no
handle of `base` names. -/
def Sole (k : Nat) (base : List Handle) (ts₀ : List Tree) (c : Handle) : Prop :=
  c.slot ∈ heads ts₀ ∧
    (recordAt c.slot ts₀).map (fun nd => (nd.pinned, nd.retain)) = some (false, 1) ∧
    units base k c.slot = 0

/-- The loop once the constructor's node `r` is a failure: the handles of `R` (the node's own, or
none when it is the pool's failure node), of the operands still to come and of `base` are exact,
`r` is a childless failure root, the sole operands to come are still roots held once, and the
sole operands already given back are reclaimed. -/
structure Releasing (k : Nat) (r : Handle) (base : List Handle) (p₀ : Pool) (ts₀ : List Tree)
    (h : Heap) (q : Pool) (ts : List Tree) (R rest gone : List Handle) : Prop where
  exact : h.Exact (R ++ rest ++ base)
  pool : h.pools[k]? = some q
  kept : q.Kept (addUnit (units (R ++ rest ++ base) k) q.failure.slot) ts
  failure_eq : q.failure = p₀.failure
  id_eq : r.id = q.slots.idOf r.slot
  root : r.slot ∈ heads ts
  entry : ∃ nr, lookup r.slot ts = some (nr, []) ∧ nr.kind = failureKind
  waiting : ∀ c ∈ rest, Sole k base ts₀ c →
    c.slot ∈ heads ts ∧
      (recordAt c.slot ts).map (fun nd => (nd.pinned, nd.retain)) = some (false, 1)
  reclaimed : ∀ c ∈ gone, Sole k base ts₀ c → q.slots.isFree c.slot = true

variable {r : Handle} {base : List Handle} {p₀ : Pool} {ts₀ : List Tree} {ts : List Tree}
  {R rest gone : List Handle}

theorem Releasing.isFailure (hR : Releasing k r base p₀ ts₀ h q ts R rest gone)
    (hr : r.home = some k) : h.isFailure r = true := by
  obtain ⟨nr, hl, hk⟩ := hR.entry
  obtain ⟨c, ks, rfl, -, hf⟩ := finds_of_lookup hR.kept.sound hR.pool hr hR.id_eq hl
  rw [isFailure_of_finds hf, hR.kept.sound.kindAt_pos, hk]
  rfl

/-- Giving back the next operand's handle keeps the loop's invariant; a sole operand is
reclaimed. -/
theorem Releasing.release {c : Handle} (hR : Releasing k r base p₀ ts₀ h q ts R (c :: rest) gone)
    (hc : c.home = some k) (hcR : c ∉ R) (hcr : c.slot ≠ r.slot)
    (hrest : c.slot ∉ rest.map Handle.slot) :
    ∃ h' q' ts', (Heap.release c).run h = .ok c.cleared h' ∧
      Releasing k r base p₀ ts₀ h' q' ts' R rest (gone ++ [c]) := by
  have hmem : c ∈ R ++ c :: rest ++ base := by simp
  obtain ⟨i, hfi⟩ := hR.exact.finds hmem hR.pool hc
  have hK := hR.kept
  rw [units_insert hc, addUnit_comm] at hK
  have hlive : c.slot ∈ (layout ts).map Node.slot :=
    (hK.sound.isFree_eq_false_iff _).mp hfi.live.2
  obtain ⟨q', ts', hrun, hK', hst, hkeep, hlone⟩ := hK.release_roots (by simp) hlive
  obtain ⟨a, h', hrun', ha, rfl⟩ := returns_release_of_finds hfi hrun
  subst ha
  obtain ⟨-, hE', -⟩ := (hR.exact.release fun _ => hmem).guarded.ok hrun'
  rw [erase_insert hcR] at hE'
  have hfr := hst.frees
  have hfe : q'.failure = q.failure := hst.follows.failure_eq
  obtain ⟨hr', hlr⟩ := hkeep r.slot hR.root (Ne.symm hcr)
  refine ⟨_, q', ts', hrun', hE', getElem?_setIfInBounds_pools_self hR.pool _,
    by rw [hfe]; exact hK', hfe.trans hR.failure_eq, ?_, hr', ?_, fun x hx hs => ?_,
    fun x hx hs => ?_⟩
  · rw [hfr.idOf_eq ((hK'.sound.isFree_eq_false_iff _).mpr (mem_slots_of_mem_heads hr'))]
    exact hR.id_eq
  · obtain ⟨nr, hl, hk⟩ := hR.entry
    exact ⟨nr, hlr.trans hl, hk⟩
  · obtain ⟨hxh, hxr⟩ := hR.waiting x (List.mem_cons_of_mem _ hx) hs
    have hxc : x.slot ≠ c.slot := fun h => hrest (h ▸ List.mem_map_of_mem hx)
    obtain ⟨hxh', hxl⟩ := hkeep x.slot hxh hxc
    exact ⟨hxh', by rw [recordAt_eq_of_lookup hxl]; exact hxr⟩
  · rcases List.mem_append.mp hx with hx | hx
    · exact hfr.isFree_of_isFree (hR.reclaimed x hx hs)
    · rw [List.mem_singleton.mp hx] at hs ⊢
      obtain ⟨hch, hcrec⟩ := hR.waiting c List.mem_cons_self hs
      rw [← Bool.not_eq_false, hK'.sound.isFree_eq_false_iff]
      exact hlone hch hcrec

/-- Once the node is a failure, the loop gives back every operand's handle and reclaims the sole
operands. -/
theorem Releasing.installAll (hr : r.home = some k) :
    ∀ (rest gone : List Handle) (i : Nat) {h : Heap} {q : Pool} {ts : List Tree},
      Releasing k r base p₀ ts₀ h q ts R rest gone →
      (∀ c ∈ rest, c.home = some k ∧ c ∉ R ∧ c.slot ≠ r.slot) →
      (rest.map Handle.slot).Nodup →
      Returns (Expr.installAll r i rest) h fun _ h' =>
        ∃ q' ts', Releasing k r base p₀ ts₀ h' q' ts' R [] (gone ++ rest)
  | [], gone, _, h, q, ts, hR, _, _ => returns_pure ⟨q, ts, by simpa using hR⟩
  | c :: rest, gone, i, h, q, ts, hR, hst, hnd => by
    obtain ⟨hc, hcR, hcr⟩ := hst c List.mem_cons_self
    rw [List.map_cons, List.nodup_cons] at hnd
    obtain ⟨h', q', ts', hrun, hR'⟩ := hR.release hc hcR hcr hnd.1
    refine Returns.of_run_eq (run_installAll_skip (hR.isFailure hr) hrun) ?_
    have := Releasing.installAll hr rest (gone ++ [c]) (i + 1) hR'
      (fun x hx => hst x (List.mem_cons_of_mem _ hx)) hnd.2
    simpa using this

/-! ### While the node is no failure -/

/-- What the loop needs of the operands: they and the node `r` belong to pool `k`, their slots
are distinct and none is the failure node's, and an operand that is a root of the forest `ts₀`
has room for one more unit. -/
structure Operands (k : Nat) (r : Handle) (p₀ : Pool) (ts₀ : List Tree) (cs : List Handle) :
    Prop where
  home : r.home = some k
  homes : ∀ c ∈ cs, c.home = some k
  distinct : (r.slot :: cs.map Handle.slot).Nodup
  not_failure : ∀ c ∈ cs, c.slot ≠ p₀.failure.slot
  room : ∀ c ∈ cs, c.slot ∈ heads ts₀ → ∀ nd, recordAt c.slot ts₀ = some nd → nd.retain < maxCount

theorem slot_split {done rest : List Handle} {c : Handle}
    (hnd : (r.slot :: (done ++ c :: rest).map Handle.slot).Nodup) :
    c.slot ≠ r.slot ∧ c.slot ∉ done.map Handle.slot ∧ c.slot ∉ rest.map Handle.slot := by
  rw [List.nodup_cons, List.map_append, List.map_cons, List.nodup_append, List.nodup_cons] at hnd
  obtain ⟨hr, -, ⟨hc, -⟩, hdis⟩ := hnd
  exact ⟨fun h => hr (h ▸ List.mem_append_right _ List.mem_cons_self),
    fun h => hdis _ h _ List.mem_cons_self rfl, hc⟩

/-- An operand still to come names neither the node nor the operand taken now. -/
theorem slot_ne_of_mem_rest {done rest : List Handle} {c x : Handle}
    (hnd : (r.slot :: (done ++ c :: rest).map Handle.slot).Nodup) (hx : x ∈ rest) :
    x.slot ≠ r.slot ∧ x.slot ≠ c.slot := by
  have hxs : x.slot ∈ (done ++ c :: rest).map Handle.slot :=
    List.mem_map_of_mem (List.mem_append_right _ (List.mem_cons_of_mem _ hx))
  exact ⟨fun h => (List.nodup_cons.mp hnd).1 (h ▸ hxs),
    fun h => (slot_split hnd).2.2 (h ▸ List.mem_map_of_mem hx)⟩

/-- The loop while the constructor's node `r`, of type `t`, is no failure: the handles of `r`, of
the operands still to come and of `base` are exact, `r` is a root listing the operands taken so
far as its children, in order, and each operand still to come keeps its entry and its place
among the roots of the forest `ts₀`. -/
structure Installing (k t : Nat) (r : Handle) (base : List Handle) (p₀ : Pool)
    (ts₀ : List Tree) (h : Heap) (q : Pool) (ts : List Tree) (done rest : List Handle) : Prop where
  exact : h.Exact ([r] ++ rest ++ base)
  pool : h.pools[k]? = some q
  kept : q.Kept (addUnit (units ([r] ++ rest ++ base) k) q.failure.slot) ts
  failure_eq : q.failure = p₀.failure
  frees : p₀.slots.Frees (fun _ => True) q.slots
  root : r.slot ∈ heads ts
  entry : lookup r.slot ts =
    some ({ made r.slot t [] with children := done.length }, done.map Handle.slot)
  waiting : ∀ c ∈ rest,
    recordAt c.slot ts = recordAt c.slot ts₀ ∧ (c.slot ∈ heads ts ↔ c.slot ∈ heads ts₀)

variable {t : Nat} {done : List Handle}

theorem Installing.isFailure (hI : Installing k t r base p₀ ts₀ h q ts done rest)
    (hr : r.home = some k) (ht : t ≠ failureKind) : h.isFailure r = false := by
  obtain ⟨i, hf⟩ := hI.exact.finds (by simp) hI.pool hr
  obtain ⟨c, ks, rfl, -, hf'⟩ := finds_of_lookup hI.kept.sound hI.pool hr hf.live.1 hI.entry
  rw [isFailure_of_finds hf', hI.kept.sound.kindAt_pos]
  simpa [made] using ht

/-- After the node's side of a round, the operand's handle is given back: the heap stays exact
for the other handles. -/
theorem release_operand {c : Handle} {q₁ q₂ : Pool} {n : Nat}
    (hE : h.Exact ([r] ++ c :: rest ++ base)) (hp : h.pools[k]? = some q)
    (hc : c.home = some k) (hcr : c.slot ≠ r.slot)
    (hadd : (addChild r c n n).run h = .ok () ⟨h.pools.setIfInBounds k q₁⟩)
    (hrun : (Pool.release c.slot).run q₁ = .ok () q₂) :
    ∃ h₂, (Heap.release c).run ⟨h.pools.setIfInBounds k q₁⟩ = .ok c.cleared h₂ ∧
      h₂.Exact ([r] ++ rest ++ base) ∧ h₂.pools[k]? = some q₂ := by
  have hk₁ := (hE.addChild r c n n).ok hadd
  have hp₁ : (⟨h.pools.setIfInBounds k q₁⟩ : Heap).pools[k]? = some q₁ :=
    getElem?_setIfInBounds_pools_self hp _
  obtain ⟨i₁, hfc₁⟩ := hk₁.exact.finds (by simp) hp₁ hc
  obtain ⟨a, h₂, hrel, ha, rfl⟩ := returns_release_of_finds hfc₁ hrun
  subst ha
  obtain ⟨-, hE₂, -⟩ := (hk₁.exact.release fun _ => by simp).guarded.ok hrel
  rw [erase_insert (fun hm => hcr (by rw [List.mem_singleton.mp hm]))] at hE₂
  exact ⟨_, hrel, hE₂, by simp [getElem?_setIfInBounds_pools hp]⟩

section Round

variable {c : Handle} (hI : Installing k t r base p₀ ts₀ h q ts done (c :: rest))
  (hO : Operands k r p₀ ts₀ (done ++ c :: rest)) (ht : t ≠ failureKind)
include hI hO

/-- The next operand sits in the pool with the entry it had when the node was made, and the pool
keeps its invariant with the operand's unit set apart. -/
theorem Installing.next_entry :
    ∃ i cn ckids, h.Finds c k q i ∧ lookup c.slot ts = some (cn, ckids) ∧
      recordAt c.slot ts₀ = some { cn with children := 0 } ∧
      q.Kept (addUnit (addUnit (units ([r] ++ rest ++ base) k) q.failure.slot) c.slot) ts := by
  have hc : c.home = some k := hO.homes c (by simp)
  have hK := hI.kept
  rw [units_insert hc, addUnit_comm] at hK
  obtain ⟨i, hfc⟩ := hI.exact.finds (by simp) hI.pool hc
  obtain ⟨⟨cn, ckids⟩, hlook⟩ := Option.isSome_iff_exists.mp
    (lookup_isSome_iff.mpr ((hK.sound.isFree_eq_false_iff _).mp hfc.live.2))
  obtain ⟨hrec, -⟩ := hI.waiting c List.mem_cons_self
  refine ⟨i, cn, ckids, hfc, hlook, ?_, hK⟩
  rw [← hrec, recordAt, hlook]
  rfl

include ht

/-- An operand that is no failure is attached as the node's last child and its handle given
back; the loop's invariant holds with the operand taken. -/
theorem Installing.attach_release
    (hkc : ∀ nd, recordAt c.slot ts₀ = some nd → nd.kind ≠ failureKind) :
    ∃ h₁ h₂ q' ts', (addChild r c done.length done.length).run h = .ok () h₁ ∧
      (Heap.release c).run h₁ = .ok c.cleared h₂ ∧
      Installing k t r base p₀ ts₀ h₂ q' ts' (done ++ [c]) rest := by
  have hc : c.home = some k := hO.homes c (by simp)
  obtain ⟨hcr, hcd, -⟩ := slot_split hO.distinct
  obtain ⟨i, cn, ckids, hfc, hlook, hrec₀, hK⟩ := hI.next_entry hO
  have hkc' : cn.kind ≠ failureKind := hkc { cn with children := 0 } hrec₀
  have hhead := (hI.waiting c List.mem_cons_self).2
  obtain ⟨q₁, q₂, ts', hrun₁, hrun₂, hK', hfe, hfr, hlr, hheads, hrecs⟩ :=
    hK.install_last (by simp) hI.root hI.entry ht hlook hkc' hcr hcd
      fun hm => hO.room c (by simp) (hhead.mp hm) { cn with children := 0 } hrec₀
  rw [List.length_map] at hrun₁ hlr
  -- the heap runs the pool's attaching, then its release
  obtain ⟨j, hfr'⟩ := hI.exact.finds (by simp) hI.pool hO.home
  have hadd : (addChild r c done.length done.length).run h =
      .ok () ⟨h.pools.setIfInBounds k q₁⟩ := by
    have := run_addChild_last hK.sound hI.pool hO.home hfr'.live.1 hI.entry ht hc hfc.live.1
      hlook hI.root hkc' hcr
    rw [List.length_map] at this
    rw [this]
    exact run_onPool_ok hI.pool hrun₁
  obtain ⟨h₂, hrel, hE₂, hp₂⟩ := release_operand hI.exact hI.pool hc hcr hadd hrun₂
  refine ⟨_, h₂, q₂, ts', hadd, hrel, ⟨hE₂, hp₂, by rw [hfe]; exact hK', hfe.trans hI.failure_eq,
    hI.frees.trans hfr, (hheads r.slot (Ne.symm hcr)).mpr hI.root, by rw [hlr]; simp,
    fun x hx => ?_⟩⟩
  -- the operands still to come are neither the node nor the operand taken
  obtain ⟨hxr, hxc⟩ := slot_ne_of_mem_rest hO.distinct hx
  obtain ⟨hxrec, hxhead⟩ := hI.waiting x (List.mem_cons_of_mem _ hx)
  exact ⟨(hrecs x.slot hxr hxc).trans hxrec, (hheads x.slot hxc).trans hxhead⟩

/-- A failure operand degrades the node, and its handle is given back; the loop goes on once the
node is a failure, with the sole operands taken so far reclaimed. -/
theorem Installing.degrade_release
    (hkc : ∃ nd, recordAt c.slot ts₀ = some nd ∧ nd.kind = failureKind) :
    ∃ h₁ h₂ q' ts', (addChild r c done.length done.length).run h = .ok () h₁ ∧
      (Heap.release c).run h₁ = .ok c.cleared h₂ ∧
      Releasing k r base p₀ ts₀ h₂ q' ts' [r] rest (done ++ [c]) := by
  have hc : c.home = some k := hO.homes c (by simp)
  obtain ⟨hcr, -, -⟩ := slot_split hO.distinct
  obtain ⟨i, cn, ckids, hfc, hlook, hrec₀, hK⟩ := hI.next_entry hO
  obtain ⟨nd, hnd, hk⟩ := hkc
  obtain rfl : nd = { cn with children := 0 } := Option.some.inj (hnd.symm.trans hrec₀)
  obtain ⟨q₁, q₂, ts', hrun₁, hrun₂, hK', hfe, hfr, hr', hlr, hkeep, hfree, hlone⟩ :=
    hK.degrade_release (by simp) hI.root hI.entry ht hlook hk hcr
  -- the heap runs the pool's degrading, then its release
  obtain ⟨j, hfr'⟩ := hI.exact.finds (by simp) hI.pool hO.home
  have hadd : (addChild r c done.length done.length).run h =
      .ok () ⟨h.pools.setIfInBounds k q₁⟩ := by
    have := run_addChild_degrade hK.sound hI.pool hO.home hfr'.live.1 hI.entry ht hc hfc.live.1
      hlook hk
    rw [List.length_map] at this
    rw [this]
    exact run_onPool_ok hI.pool hrun₁
  obtain ⟨h₂, hrel, hE₂, hp₂⟩ := release_operand hI.exact hI.pool hc hcr hadd hrun₂
  obtain ⟨j₂, hfr₂⟩ := hE₂.finds (by simp) hp₂ hO.home
  refine ⟨_, h₂, q₂, ts', hadd, hrel, ⟨hE₂, hp₂, by rw [hfe]; exact hK', hfe.trans hI.failure_eq,
    hfr₂.live.1, hr', ⟨_, hlr, rfl⟩, fun x hx hs => ?_, fun x hx hs => ?_⟩⟩
  · -- a sole operand still to come is a root that the degrading left alone
    obtain ⟨hxr, hxc⟩ := slot_ne_of_mem_rest hO.distinct hx
    obtain ⟨hxrec, hxhead⟩ := hI.waiting x (List.mem_cons_of_mem _ hx)
    obtain ⟨hxh', hxl⟩ := hkeep x.slot (hxhead.mpr hs.1) hxr hxc
    exact ⟨hxh', by rw [recordAt_eq_of_lookup hxl, hxrec]; exact hs.2.1⟩
  · rcases List.mem_append.mp hx with hx | hx
    · -- a sole operand taken so far hung below the node by its edge only
      have hxs : x.slot ∈ (done ++ c :: rest).map Handle.slot :=
        List.mem_map_of_mem (List.mem_append_left _ hx)
      have hxf : x.slot ≠ q.failure.slot := by
        rw [hI.failure_eq]
        exact hO.not_failure x (List.mem_append_left _ hx)
      refine hfree x.slot (List.mem_map_of_mem hx) hxf ?_
      rw [addUnit_of_ne _ hxf, units_append, units_append, hs.2.2]
      -- neither the node nor an operand to come names its slot
      have hnr : units [r] k x.slot = 0 := units_eq_zero fun y hy _ => by
        rw [List.mem_singleton.mp hy]
        exact fun h => (List.nodup_cons.mp hO.distinct).1 (h ▸ hxs)
      have hnrest : units rest k x.slot = 0 := units_eq_zero fun y hy _ h => by
        have hd := hO.distinct
        rw [List.nodup_cons, List.map_append, List.map_cons, List.nodup_append] at hd
        exact hd.2.2.2 _ (List.mem_map_of_mem hx) _
          (List.mem_cons_of_mem _ (List.mem_map_of_mem hy)) h.symm
      rw [hnr, hnrest]
    · -- the failure operand itself, when only the caller held it
      rw [List.mem_singleton.mp hx] at hs ⊢
      obtain ⟨-, hpr, -⟩ := hs
      rw [hrec₀] at hpr
      simp only [Option.map_some, Option.some.injEq, Prod.mk.injEq] at hpr
      exact hlone hpr.1 hpr.2

end Round

theorem Operands.after {cs : List Handle} (hO : Operands k r p₀ ts₀ (done ++ cs)) :
    (∀ c ∈ cs, c.home = some k ∧ c ∉ [r] ∧ c.slot ≠ r.slot) ∧ (cs.map Handle.slot).Nodup := by
  have hd := hO.distinct
  rw [List.nodup_cons, List.map_append, List.nodup_append] at hd
  refine ⟨fun c hc => ?_, hd.2.2.1⟩
  have hcr : c.slot ≠ r.slot := fun h =>
    hd.1 (h ▸ List.mem_append_right _ (List.mem_map_of_mem hc))
  exact ⟨hO.homes c (List.mem_append_right _ hc),
    fun hm => hcr (by rw [List.mem_singleton.mp hm]), hcr⟩

/-- While the node is no failure, the loop takes the operands one by one: either none is a
failure and all become the node's children, or the first failure turns the loop to giving the
handles back. -/
theorem Installing.installAll (ht : t ≠ failureKind) :
    ∀ (rest done : List Handle) {h : Heap} {q : Pool} {ts : List Tree},
      Installing k t r base p₀ ts₀ h q ts done rest → Operands k r p₀ ts₀ (done ++ rest) →
      Returns (Expr.installAll r done.length rest) h fun _ h' =>
        ((∃ q' ts', Installing k t r base p₀ ts₀ h' q' ts' (done ++ rest) []) ∧
          ∀ c ∈ rest, ∀ nd, recordAt c.slot ts₀ = some nd → nd.kind ≠ failureKind) ∨
        ((∃ q' ts', Releasing k r base p₀ ts₀ h' q' ts' [r] [] (done ++ rest)) ∧
          ∃ c ∈ rest, ∃ nd, recordAt c.slot ts₀ = some nd ∧ nd.kind = failureKind)
  | [], done, h, q, ts, hI, _ => returns_pure (.inl ⟨⟨q, ts, by simpa using hI⟩, by simp⟩)
  | c :: rest, done, h, q, ts, hI, hO => by
    have hO' : Operands k r p₀ ts₀ (done ++ [c] ++ rest) := by simpa using hO
    have hfail := hI.isFailure hO.home ht
    by_cases hkc : ∀ nd, recordAt c.slot ts₀ = some nd → nd.kind ≠ failureKind
    · obtain ⟨h₁, h₂, q', ts', hadd, hrel, hI'⟩ := hI.attach_release hO ht hkc
      refine Returns.of_run_eq (run_installAll_add hfail hadd hrel) ?_
      have := Installing.installAll ht rest (done ++ [c]) hI' hO'
      rw [List.length_append, List.length_singleton] at this
      refine this.mono fun _ h' hh => ?_
      rcases hh with ⟨hI'', hall⟩ | ⟨hR, x, hx, hxk⟩
      · exact .inl ⟨by simpa using hI'', List.forall_mem_cons.mpr ⟨hkc, hall⟩⟩
      · exact .inr ⟨by simpa using hR, x, List.mem_cons_of_mem _ hx, hxk⟩
    · have hkc' : ∃ nd, recordAt c.slot ts₀ = some nd ∧ nd.kind = failureKind := by
        by_contra hne
        exact hkc fun nd hnd hk => hne ⟨nd, hnd, hk⟩
      obtain ⟨h₁, h₂, q', ts', hadd, hrel, hR⟩ := hI.degrade_release hO ht hkc'
      refine Returns.of_run_eq (run_installAll_add hfail hadd hrel) ?_
      obtain ⟨hst, hnd⟩ := hO'.after
      refine (Releasing.installAll hO.home rest (done ++ [c]) (done.length + 1) hR hst hnd).mono
        fun _ h' hh => .inr ⟨by simpa using hh, c, List.mem_cons_self, hkc'⟩

/-! ### Where the loop ends -/

theorem view_eq_none_of_isFree {id : NodeId} (h : q.slots.isFree id.slot = true) :
    q.view id = none := by
  simp [Pool.view, SlotTable.resolve_eq_none_of_isFree h]

/-- Once the node is a failure and every handle is given back, the node is childless and the sole
operands are gone from the view. -/
theorem Releasing.finish (hR : Releasing k r base p₀ ts₀ h q ts R [] gone) :
    (∀ v, q.view r.id = some v → v.children = []) ∧
      ∀ c ∈ gone, Sole k base ts₀ c → q.view c.id = none := by
  refine ⟨fun v hv => ?_, fun c hc hs => view_eq_none_of_isFree (hR.reclaimed c hc hs)⟩
  obtain ⟨nr, hl, -⟩ := hR.entry
  rw [hR.id_eq, hR.kept.sound.view_idOf, hl] at hv
  cases hv
  rfl

/-- Once every operand is taken, the node is of its type, holds the caller's unit only, and lists
the operands as its children, each with the identifier it had; none of them has another parent. -/
theorem Installing.finish (hI : Installing k t r base p₀ ts₀ h q ts done [])
    (hr : r.home = some k) (hids : ∀ c ∈ done, p₀.slots.idOf c.slot = c.id) :
    q.view r.id = some ⟨t, [], done.map Handle.id, 1⟩ ∧
      ∀ c ∈ done, ∀ x v, q.view x = some v → c.id ∈ v.children → x = r.id := by
  obtain ⟨i, hf⟩ := hI.exact.finds (by simp) hI.pool hr
  have hS := hI.kept.sound
  -- each operand is a child of the node, so live, with the identifier it had
  have hq : ∀ c ∈ done, q.slots.idOf c.slot = c.id := fun c hc => by
    have hkid : c.slot ∈ kidSlots ts := mem_kidSlots_of_lookup hI.entry (List.mem_map_of_mem hc)
    have hlive : q.slots.isFree c.slot = false := (hS.isFree_eq_false_iff _).mpr
      ((perm_heads_kids ts).subset (List.mem_append_right _ hkid))
    rw [hI.frees.idOf_eq hlive, hids c hc]
  have hv : q.view r.id = some ⟨t, [], done.map Handle.id, 1⟩ := by
    rw [hf.live.1, hS.view_idOf, hI.entry]
    simp only [Option.map_some, viewOf, List.map_map]
    congr 2
    exact List.map_congr_left fun c hc => hq c hc
  refine ⟨hv, fun c hc x v hx hcx => hS.view_parent_unique hx hv hcx ?_⟩
  exact List.mem_map_of_mem hc

/-! ### Where the loop starts -/

section Start

variable {p p' : Pool} {cs : List Handle}

/-- Whether a live handle names a failure is read off its entry. -/
theorem isFailure_of_lookup {w : Nat → Nat} (hS : p.Sound w ts) {c : Handle} {i : Nat}
    (hf : h.Finds c k p i) :
    ∃ nd kids, lookup c.slot ts = some (nd, kids) ∧ h.isFailure c = (nd.kind == failureKind) := by
  obtain ⟨c', nd, ks, rfl, hs, rfl⟩ := hS.hole_of_resolve hf.resolve
  refine ⟨nd, heads ks, ?_, by rw [isFailure_of_finds hf, hS.kindAt_pos]⟩
  rw [show c.slot = nd.slot from hs.symm]
  exact lookup_fill_head hS.laid.nodup

theorem Exact.slot_ne_failure (hE : h.Exact own) {c : Handle} (hc : c ∈ own)
    (hp : h.pools[k]? = some p) (hk : c.home = some k) {w : Nat → Nat} (hK : p.Kept w ts) :
    c.slot ≠ p.failure.slot := by
  obtain ⟨i, hf⟩ := hE.finds hc hp hk
  have hne : c.id ≠ p.failure := (owns_of_finds hf).mp (hE.owns hc)
  intro hs
  apply hne
  rw [hf.live.1, hs, SlotTable.idOf_of_resolve hK.failure_live]

theorem Exact.slots_nodup (hE : h.Exact (cs ++ base)) (hp : h.pools[k]? = some p)
    (hhome : ∀ c ∈ cs, c.home = some k) (hnd : (cs.map Handle.id).Nodup) :
    (cs.map Handle.slot).Nodup := by
  have hmap : cs.map Handle.slot = (cs.map Handle.id).map NodeId.slot := by
    rw [List.map_map]
    rfl
  rw [hmap]
  refine List.Nodup.map_on (fun x hx y hy hxy => ?_) hnd
  obtain ⟨c, hc, rfl⟩ := List.mem_map.mp hx
  obtain ⟨d, hd, rfl⟩ := List.mem_map.mp hy
  obtain ⟨i, hfc⟩ := hE.finds (List.mem_append_left _ hc) hp (hhome c hc)
  obtain ⟨j, hfd⟩ := hE.finds (List.mem_append_left _ hd) hp (hhome d hd)
  rw [hfc.live.1, hfd.live.1]
  exact congrArg _ hxy

/-- An operand that only the caller holds is a sole operand. -/
theorem Exact.sole_of_lone (hE : h.Exact (cs ++ base)) (hp : h.pools[k]? = some p)
    (hK : p.Kept (addUnit (units (cs ++ base) k) p.failure.slot) ts) {c : Handle} (hc : c ∈ cs)
    (hk : c.home = some k) (hl : p.Lone c.id) : Sole k base ts c := by
  have hmem : c ∈ cs ++ base := List.mem_append_left _ hc
  obtain ⟨i, hf⟩ := hE.finds hmem hp hk
  obtain ⟨hid, hlive⟩ := hf.live
  obtain ⟨⟨v, hv, hv1⟩, hnp⟩ := hl
  have hhead : c.slot ∈ heads ts := hK.sound.head_of_not_child
    ((hK.sound.isFree_eq_false_iff _).mp hlive) (by rw [← hid]; exact hnp)
  rw [hid, hK.sound.view_idOf] at hv
  obtain ⟨⟨nd, kids⟩, he, rfl⟩ := Option.map_eq_some_iff.mp hv
  have hsf := hE.slot_ne_failure hmem hp hk hK
  have hns : nd.slot = c.slot := (mem_of_lookup he).2
  -- the record is not pinned, so its one unit is the caller's
  obtain ⟨b, hprop⟩ := proper_of_mem_layout hK.proper (fst_mem_layout (mem_of_lookup he).1)
  have hpin : nd.pinned = false :=
    Bool.eq_false_iff.mpr fun h => hsf (hns ▸ hprop.pinned_iff.mp h)
  have hret : nd.retain = 1 := hv1
  have hunits : units (cs ++ base) k c.slot = 1 := by
    rcases hK.sound.holds_of_head hhead he with h | h
    · rw [hpin] at h
      cases h
    · simp only [hret, if_true, Nat.zero_add, hns, addUnit_of_ne _ hsf] at h
      exact h.symm
  have hcs : 0 < units cs k c.slot := List.countP_pos_iff.mpr ⟨c, hc, by simp [hk]⟩
  rw [units_append] at hunits
  refine ⟨hhead, ?_, by omega⟩
  rw [recordAt, he]
  simp [hpin, hret]

theorem Sole.append {c : Handle} (hs : Sole k base ts c) (us : List Tree) :
    Sole k base (ts ++ us) c := by
  obtain ⟨hh, hrec, hu⟩ := hs
  obtain ⟨e, he⟩ := Option.isSome_iff_exists.mp
    (lookup_isSome_iff.mpr (mem_slots_of_mem_heads hh))
  have hr : recordAt c.slot (ts ++ us) = recordAt c.slot ts := by
    rw [recordAt, recordAt, lookup_append, he]
    rfl
  exact ⟨by simp [hh], by rw [hr]; exact hrec, hu⟩

/-- Whether an operand is a failure is read off its record, also once roots join the forest. -/
theorem Exact.isFailure_iff_recordAt (hE : h.Exact own) {c : Handle} (hc : c ∈ own)
    (hp : h.pools[k]? = some p) (hk : c.home = some k) {w : Nat → Nat} (hK : p.Kept w ts)
    (us : List Tree) :
    h.isFailure c = true ↔ ∃ nd, recordAt c.slot (ts ++ us) = some nd ∧ nd.kind = failureKind := by
  obtain ⟨i, hf⟩ := hE.finds hc hp hk
  obtain ⟨nd, kids, hl, hfl⟩ := isFailure_of_lookup hK.sound hf
  have hrec : recordAt c.slot (ts ++ us) = some { nd with children := 0 } := by
    rw [recordAt, lookup_append, hl]
    rfl
  rw [hrec, hfl]
  simp

theorem Exact.gain_of_mem {r : Handle} (hE : h.Exact (r :: base)) : h.Exact (gain h r base) := by
  rw [gain, if_pos (hE.owns List.mem_cons_self)]
  exact hE

/-- Once the loop has given every handle back, the pool's failure node gains its caller
nothing. -/
theorem Releasing.gain_failure (hR : Releasing k r base p₀ ts₀ h q ts [] [] gone)
    (hr : r.home = some k) (hid : r.id = p₀.failure) : h.Exact (gain h r base) := by
  have hno : h.owns r = false := by
    cases ho : h.owns r
    · rfl
    · obtain ⟨k', q', i, hf, hne⟩ := owns_iff.mp ho
      obtain rfl : k' = k := Option.some.inj (hf.home.symm.trans hr)
      obtain rfl : q' = q := Option.some.inj (hf.pool.symm.trans hR.pool)
      exact absurd (hid.trans hR.failure_eq.symm) hne
  rw [gain, hno, if_neg Bool.false_ne_true]
  simpa using hR.exact

/-- A node that could not be allocated is the pool's failure node: the loop starts once the node
is a failure, with every operand to come. -/
theorem Releasing.start (hE : h.Exact (cs ++ base)) (hp : h.pools[k]? = some p)
    (hf : p.Follows (fun _ => False) p')
    (hK' : p'.Kept (addUnit (units (cs ++ base) k) p.failure.slot) ts) :
    Releasing k ⟨some k, p.failure⟩ base p' ts ⟨h.pools.setIfInBounds k p'⟩ p' ts [] cs [] := by
  have hfe := hf.failure_eq
  have hmem : node (failureRecord p.failure.slot) [] ∈ ts := hfe ▸ hK'.failure_mem
  have hlive : (p'.slots.resolve p.failure).isSome := hfe ▸ hK'.failure_live
  refine ⟨by rw [List.nil_append]; exact hE.follows hp hf (fun _ h => h.elim) hK',
    getElem?_setIfInBounds_pools_self hp _, by rw [hfe, List.nil_append]; exact hK', rfl,
    (SlotTable.idOf_of_resolve hlive).symm, List.mem_map_of_mem hmem,
    ⟨failureRecord p.failure.slot, ?_, rfl⟩, fun c _ hs => ⟨hs.1, hs.2.1⟩,
    fun _ hc => absurd hc List.not_mem_nil⟩
  -- the failure record is a root without children
  obtain ⟨A, B, rfl⟩ := List.append_of_mem hmem
  exact lookup_of_mem (e := (failureRecord p.failure.slot, [])) hK'.sound.laid.nodup
    (by simp [linksAll_append, links_node])

/-- A node allocated in a free slot is a root of its type without children: the loop starts
while the node is no failure, with every operand to come where it was. -/
theorem Installing.start (hE : h.Exact (cs ++ base)) (hp : h.pools[k]? = some p)
    (hK : p.Kept (addUnit (units (cs ++ base) k) p.failure.slot) ts) {s : Nat}
    (hs : p.slots.isFree s = true) (hf : p.Follows (fun _ => False) p')
    (hK' : p'.Kept (addUnit (addUnit (units (cs ++ base) k) p.failure.slot) s)
      (ts ++ [node (made s t []) []]))
    (hid : p'.slots.idOf s = p.slots.idOf s) :
    Installing k t ⟨some k, p.slots.idOf s⟩ base p' (ts ++ [node (made s t []) []])
      ⟨h.pools.setIfInBounds k p'⟩ p' (ts ++ [node (made s t []) []]) [] cs := by
  have hres : (p'.slots.resolve (p.slots.idOf s)).isSome := by
    have hK'' : p'.Kept (addUnit (addUnit (units (cs ++ base) k) p.failure.slot) s)
        ((Ctx.top ts []).fill [node (made s t []) []]) := by
      simpa [Ctx.top_fill] using hK'
    rw [← hid]
    exact Option.isSome_iff_exists.mpr ⟨_, hK''.sound.resolve_idOf⟩
  have hts : lookup s ts = none := by
    rw [← Option.not_isSome_iff_eq_none, lookup_isSome_iff, ← hK.sound.isFree_eq_false_iff, hs]
    decide
  have hw : addUnit (units ([⟨some k, p.slots.idOf s⟩] ++ cs ++ base) k) p'.failure.slot =
      addUnit (addUnit (units (cs ++ base) k) p.failure.slot) s := by
    rw [List.append_assoc, List.singleton_append, units_cons_self rfl, hf.failure_eq, addUnit_comm]
    rfl
  refine ⟨?_, getElem?_setIfInBounds_pools_self hp _, hw ▸ hK', rfl, .refl _ _,
    List.mem_map_of_mem (List.mem_append_right ts (List.mem_singleton_self _)), ?_,
    fun _ _ => ⟨rfl, Iff.rfl⟩⟩
  · rw [List.append_assoc, List.singleton_append]
    exact hE.follows_gain hp rfl hf hK' hres (hK.idOf_ne_failure p.slots hs)
  · show lookup s (ts ++ [node (made s t []) []]) = some (made s t [], [])
    simp [lookup_append, hts, lookup_node, made]

/-- Operands held by the caller, distinct and of the node's pool, with room in their counts, are
what the loop needs, over the forest with the node just allocated. -/
theorem Operands.start (hE : h.Exact (cs ++ base)) (hp : h.pools[k]? = some p)
    (hK : p.Kept (addUnit (units (cs ++ base) k) p.failure.slot) ts) {s : Nat}
    (hs : p.slots.isFree s = true) (hf : p.Follows (fun _ => False) p')
    (hhome : ∀ c ∈ cs, c.home = some k) (hnd : (cs.map Handle.id).Nodup)
    (hroom : ∀ c ∈ cs, ∀ v, p.view c.id = some v →
      (∀ x u, p.view x = some u → c.id ∉ u.children) → v.retain < maxCount) :
    Operands k ⟨some k, p.slots.idOf s⟩ p' (ts ++ [node (made s t []) []]) cs := by
  -- every operand is live, so in a slot other than the new node's
  have hlive : ∀ c ∈ cs, c.id = p.slots.idOf c.slot ∧ p.slots.isFree c.slot = false :=
    fun c hc => by
      obtain ⟨i, hfi⟩ := hE.finds (List.mem_append_left _ hc) hp (hhome c hc)
      exact hfi.live
  have hne : ∀ c ∈ cs, c.slot ≠ s := fun c hc h => by
    have := (hlive c hc).2
    rw [h, hs] at this
    cases this
  refine ⟨rfl, hhome, List.nodup_cons.mpr ⟨fun hm => ?_, hE.slots_nodup hp hhome hnd⟩,
    fun c hc => ?_, fun c hc hh nd hrec => ?_⟩
  · obtain ⟨c, hc, hcs⟩ := List.mem_map.mp hm
    exact hne c hc hcs
  · rw [hf.failure_eq]
    exact hE.slot_ne_failure (List.mem_append_left _ hc) hp (hhome c hc) hK
  · -- an operand at the roots was a root before the node joined them
    have hh' : c.slot ∈ heads ts := by
      rw [heads_append] at hh
      rcases List.mem_append.mp hh with hh | hh
      · exact hh
      · exact absurd (List.mem_singleton.mp hh) (hne c hc)
    obtain ⟨e, he⟩ := Option.isSome_iff_exists.mp
      (lookup_isSome_iff.mpr (mem_slots_of_mem_heads hh'))
    rw [recordAt, lookup_append, he] at hrec
    simp only [Option.some_or, Option.map_some, Option.some.injEq] at hrec
    subst hrec
    have hv : p.view c.id = some (p.viewOf e) := by
      rw [(hlive c hc).1, hK.sound.view_idOf, he]
      rfl
    exact hroom c hc _ hv fun x u hu => by
      rw [(hlive c hc).1]
      exact hK.sound.not_child_of_head hh' hu

theorem run_create_ok {kind : Nat} {payload : List UInt8} {id : NodeId}
    (hp : h.pools[k]? = some p) (hrun : (Pool.create kind payload).run p = .ok id p') :
    (Heap.create k kind payload).run h = .ok ⟨some k, id⟩ ⟨h.pools.setIfInBounds k p'⟩ := by
  unfold Heap.create
  rw [run_bind_ok (run_onPool_ok hp hrun)]
  rfl

theorem run_operator {h₁ : Heap} {Q : Unit → Heap → Prop}
    (hc : (Heap.create k t []).run h = .ok r h₁) (hall : Returns (Expr.installAll r 0 cs) h₁ Q) :
    ∃ h₂, (Expr.operator k t cs).run h = .ok r h₂ ∧ Q () h₂ := by
  obtain ⟨⟨⟩, h₂, hrun, hq⟩ := hall
  refine ⟨h₂, ?_, hq⟩
  unfold Expr.operator
  rw [run_bind_ok hc, run_bind_ok hrun]
  rfl

end Start

/-! ### The constructor -/

section Operator

variable {p p' : Pool} {cs : List Handle}

/-- When the node cannot be allocated, the constructor hands out the failure node and gives every
operand back. -/
theorem operator_refused (hE : h.Exact (cs ++ base)) (hp : h.pools[k]? = some p)
    (hK : p.Kept (addUnit (units (cs ++ base) k) p.failure.slot) ts)
    (hrunc : (Pool.create t []).run p = .ok p.failure p') (hf : p.Follows (fun _ => False) p')
    (hK' : p'.Kept (addUnit (units (cs ++ base) k) p.failure.slot) ts)
    (hhome : ∀ c ∈ cs, c.home = some k) (hnd : (cs.map Handle.id).Nodup) :
    ∃ h₂ q ts', (Expr.operator k t cs).run h = .ok ⟨some k, p.failure⟩ h₂ ∧
      Releasing k ⟨some k, p.failure⟩ base p' ts h₂ q ts' [] [] cs := by
  have hall := Releasing.installAll rfl cs [] 0 (Releasing.start hE hp hf hK')
    (fun c hc => ⟨hhome c hc, List.not_mem_nil,
      hE.slot_ne_failure (List.mem_append_left _ hc) hp (hhome c hc) hK⟩)
    (hE.slots_nodup hp hhome hnd)
  obtain ⟨h₂, hrun₂, q, ts', hR⟩ := run_operator (run_create_ok hp hrunc) hall
  exact ⟨h₂, q, ts', hrun₂, by simpa only [List.nil_append] using hR⟩

/-- When the node is allocated, the constructor takes the operands over one by one: it ends with
all of them its children when none is a failure, and as a failure otherwise. -/
theorem operator_allocated (hE : h.Exact (cs ++ base)) (hp : h.pools[k]? = some p)
    (hK : p.Kept (addUnit (units (cs ++ base) k) p.failure.slot) ts) (htf : t ≠ failureKind)
    {s : Nat} (hrunc : (Pool.create t []).run p = .ok (p.slots.idOf s) p')
    (hs : p.slots.isFree s = true) (hf : p.Follows (fun _ => False) p')
    (hK' : p'.Kept (addUnit (addUnit (units (cs ++ base) k) p.failure.slot) s)
      (ts ++ [node (made s t []) []]))
    (hid : p'.slots.idOf s = p.slots.idOf s)
    (hhome : ∀ c ∈ cs, c.home = some k) (hnd : (cs.map Handle.id).Nodup)
    (hroom : ∀ c ∈ cs, ∀ v, p.view c.id = some v →
      (∀ x u, p.view x = some u → c.id ∉ u.children) → v.retain < maxCount) :
    ∃ h₂ q ts', (Expr.operator k t cs).run h = .ok ⟨some k, p.slots.idOf s⟩ h₂ ∧
      ((Installing k t ⟨some k, p.slots.idOf s⟩ base p' (ts ++ [node (made s t []) []]) h₂ q ts'
          cs [] ∧ ∀ c ∈ cs, h.isFailure c = false) ∨
        (Releasing k ⟨some k, p.slots.idOf s⟩ base p' (ts ++ [node (made s t []) []]) h₂ q ts'
          [⟨some k, p.slots.idOf s⟩] [] cs ∧ ∃ c ∈ cs, h.isFailure c = true)) := by
  have hO := Operands.start (t := t) hE hp hK hs hf hhome hnd hroom
  have hall := Installing.installAll htf cs [] (Installing.start hE hp hK hs hf hK' hid)
    (by simpa only [List.nil_append] using hO)
  obtain ⟨h₂, hrun₂, hh⟩ := run_operator (run_create_ok hp hrunc) hall
  have hfail : ∀ c ∈ cs, h.isFailure c = true ↔
      ∃ nd, recordAt c.slot (ts ++ [node (made s t []) []]) = some nd ∧ nd.kind = failureKind :=
    fun c hc => hE.isFailure_iff_recordAt (List.mem_append_left _ hc) hp (hhome c hc) hK _
  rcases hh with ⟨⟨q, ts', hI⟩, hok⟩ | ⟨⟨q, ts', hR⟩, c, hc, hcf⟩
  · refine ⟨h₂, q, ts', hrun₂, .inl ⟨by simpa only [List.nil_append] using hI, fun c hc => ?_⟩⟩
    rw [← Bool.not_eq_true, hfail c hc]
    rintro ⟨nd, hnd, hk⟩
    exact hok c hc nd hnd hk
  · exact ⟨h₂, q, ts', hrun₂, .inr ⟨by simpa only [List.nil_append] using hR, c, hc,
      (hfail c hc).mpr hcf⟩⟩

end Operator

end Heap

end TreeArena
