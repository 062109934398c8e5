import TreeArena.Proofs.EditEntries
import TreeArena.Proofs.FailureEdits

/-!
# The steps of a constructor

A constructor creates its node and then, operand by operand, installs the operand as the node's
last child and gives the operand's handle back. An operand that is a failure degrades the node
instead; once the node is a failure the operands' handles are only given back.

Each of these steps is stated here on the forest the pool lays out: installing an operand
(`Pool.Kept.install_last`), degrading the node on a failure operand (`Pool.Kept.degrade_release`),
and the heap runs that reach the pool's attaching (`Heap.run_addChild_attach`).
-/

namespace TreeArena

namespace SlotTable

variable {P : Nat → Prop} {t t' : SlotTable}

theorem Frees.isFree_of_isFree (hf : t.Frees P t') {s : Nat} (hs : t.isFree s = true) :
    t'.isFree s = true := by
  rcases hf.slot s with ⟨h, -⟩ | ⟨-, h, -⟩
  · rw [h, hs]
  · rw [hs] at h
    cases h

theorem Frees.idOf_eq (hf : t.Frees P t') {s : Nat} (hs : t'.isFree s = false) :
    t'.idOf s = t.idOf s := by
  rcases hf.slot s with ⟨-, hg⟩ | ⟨-, -, h, -⟩
  · simp [idOf, hg]
  · rw [hs] at h
    cases h

theorem idOf_of_resolve {id : NodeId} (h : (t.resolve id).isSome) : t.idOf id.slot = id := by
  obtain ⟨-, -, hg, -⟩ := (resolve_isSome_iff t id).mp h
  cases id
  simp only [idOf] at hg ⊢
  rw [hg]

theorem resolve_eq_none_of_isFree {id : NodeId} (h : t.isFree id.slot = true) :
    t.resolve id = none := by
  cases hr : t.resolve id with
  | none => rfl
  | some i =>
    have := ((resolve_isSome_iff t id).mp (by simp [hr])).2.2.2
    rw [h] at this
    cases this

end SlotTable

namespace Pool

open TreeArena.Tree

variable {p : Pool} {w : Nat → Nat} {ts : List Tree}

/-- An entry of the forest heads the subtree at a hole. -/
theorem Sound.hole_of_lookup (hS : p.Sound w ts) {s : Nat} {nd : Node} {kids : List Nat}
    (hl : lookup s ts = some (nd, kids)) :
    ∃ (c : Ctx) (ks : List Tree), ts = c.fill [node nd ks] ∧ nd.slot = s ∧ kids = heads ks := by
  obtain ⟨hm, hs⟩ := mem_of_lookup hl
  obtain ⟨c, h, ks, rfl, hh⟩ :=
    hS.exists_hole (hS.isFree_of_mem (List.mem_map_of_mem (fst_mem_layout hm)))
  have hhead := lookup_fill_head hS.laid.nodup
  rw [hh, hs, hl] at hhead
  obtain ⟨rfl, rfl⟩ := Prod.mk.inj (Option.some.inj hhead)
  exact ⟨c, ks, rfl, hs, rfl⟩

theorem mem_kidSlots_of_lookup {s x : Nat} {nd : Node} {kids : List Nat}
    (hl : lookup s ts = some (nd, kids)) (hx : x ∈ kids) : x ∈ kidSlots ts :=
  List.mem_flatMap.mpr ⟨_, (mem_of_lookup hl).1, hx⟩

/-- A record of the failure type is a childless root of the forest. -/
theorem Kept.root_of_failure (hK : p.Kept w ts) {s : Nat} {nd : Node} {kids : List Nat}
    (hl : lookup s ts = some (nd, kids)) (hk : nd.kind = failureKind) :
    s ∈ heads ts ∧ kids = [] := by
  obtain ⟨c, ks, rfl, rfl, rfl⟩ := hK.sound.hole_of_lookup hl
  have hP := hK.every_fill.head
  obtain ⟨hroot, hc, -⟩ := hP.bare hk
  have hup : c.up = [] := List.isEmpty_iff.mp hroot
  have hks : ks = [] := List.eq_nil_of_length_eq_zero (hK.sound.children_eq.symm.trans hc)
  subst hks
  exact ⟨by rw [Ctx.heads_fill_of_up_eq_nil hup]; simp, rfl⟩

/-- Installing an operand that is no failure as the last child of a root, then giving back the
operand's unit: the root lists it last, the other records keep their entries apart from
children counts, and the roots stay the roots but the operand's. -/
theorem Kept.install_last {c r : Nat} (hK : p.Kept (addUnit w c) ts)
    (hf : 0 < w p.failure.slot) (hroot : r ∈ heads ts) {nr : Node} {kids : List Nat}
    (hr : lookup r ts = some (nr, kids)) (hkr : nr.kind ≠ failureKind) {cn : Node}
    {ckids : List Nat} (hc : lookup c ts = some (cn, ckids)) (hkc : cn.kind ≠ failureKind)
    (hcr : c ≠ r) (hkid : c ∉ kids) (hroom : c ∈ heads ts → cn.retain < maxCount) :
    ∃ p₁ p₂ ts', (Pool.attach r c kids.length).run p = .ok () p₁ ∧
      (Pool.release c).run p₁ = .ok () p₂ ∧ p₂.Kept w ts' ∧ p₂.failure = p.failure ∧
      p.slots.Frees (fun _ => True) p₂.slots ∧
      lookup r ts' = some ({ nr with children := kids.length + 1 }, kids ++ [c]) ∧
      (∀ s, s ≠ c → (s ∈ heads ts' ↔ s ∈ heads ts)) ∧
      ∀ s, s ≠ r → s ≠ c → recordAt s ts' = recordAt s ts := by
  obtain ⟨d, ks, rfl, rfl, -⟩ := hK.sound.hole_of_lookup hc
  have hroom' : d.up = [] → cn.pinned = false → cn.retain < maxCount := fun hup _ =>
    hroom (by rw [Ctx.heads_fill_of_up_eq_nil hup]; simp)
  obtain ⟨p₁, ts₁, hrun₁, hK₁, hst₁, hr₁, hheads₁, hrec₁⟩ :=
    hK.attach_last hroot hr hkr hkc hcr hkid hroom'
  -- the operand now hangs below `r`, so it is no root
  have hnd₁ := hK₁.sound.laid.nodup
  have hkid₁ : cn.slot ∈ kidSlots ts₁ := mem_kidSlots_of_lookup hr₁ (by simp)
  have hc₁ : cn.slot ∈ (layout ts₁).map Node.slot :=
    (perm_heads_kids ts₁).subset (List.mem_append_right _ hkid₁)
  have hroot₁ : cn.slot ∉ heads ts₁ := fun h => not_mem_kidSlots_of_mem_heads hnd₁ h hkid₁
  have hf₁ : 0 < w p₁.failure.slot := by rw [hst₁.follows.failure_eq]; exact hf
  obtain ⟨p₂, ts₂, hrun₂, hK₂, hst₂, hheads₂, hlook₂, -⟩ := hK₁.release_child hf₁ hc₁ hroot₁
  refine ⟨p₁, p₂, ts₂, hrun₁, hrun₂, hK₂,
    hst₂.follows.failure_eq.trans hst₁.follows.failure_eq,
    (hst₁.frees.mono fun _ h => h.elim).trans (hst₂.frees.mono fun _ _ => trivial), ?_,
    fun s hs => ?_, fun s hsr hsc => ?_⟩
  · rw [hlook₂ r (Ne.symm hcr)]
    exact hr₁
  · rw [hheads₂]
    exact hheads₁ s hs
  · rw [recordAt_eq_of_lookup (hlook₂ s hsc)]
    exact hrec₁ s hsr hsc

/-- Degrading a root that is no failure on a failure operand, then giving back the operand's
unit: the root becomes a childless failure root, every other root keeps its entry, and a child
owed nothing but its edge is reclaimed, as is the operand when it held one unit only. -/
theorem Kept.degrade_release {c r : Nat} (hK : p.Kept (addUnit w c) ts)
    (hf : 0 < w p.failure.slot) (hroot : r ∈ heads ts) {nr : Node} {kids : List Nat}
    (hr : lookup r ts = some (nr, kids)) (hkr : nr.kind ≠ failureKind) {cn : Node}
    {ckids : List Nat} (hc : lookup c ts = some (cn, ckids)) (hkc : cn.kind = failureKind)
    (hcr : c ≠ r) :
    ∃ p₁ p₂ ts', (Pool.degrade r).run p = .ok () p₁ ∧ (Pool.release c).run p₁ = .ok () p₂ ∧
      p₂.Kept w ts' ∧ p₂.failure = p.failure ∧ p.slots.Frees (fun _ => True) p₂.slots ∧
      r ∈ heads ts' ∧
      lookup r ts' = some (failed nr, []) ∧
      (∀ x ∈ heads ts, x ≠ r → x ≠ c → x ∈ heads ts' ∧ lookup x ts' = lookup x ts) ∧
      (∀ z ∈ kids, z ≠ p.failure.slot → w z = 0 → p₂.slots.isFree z = true) ∧
      (cn.pinned = false → cn.retain = 1 → p₂.slots.isFree c = true) := by
  have hcroot := (hK.root_of_failure hc hkc).1
  have hnd := hK.sound.laid.nodup
  obtain ⟨p₁, ts₁, hrun₁, hK₁, hst₁, -, hr₁, hroot₁, hkeep₁, hfree₁⟩ :=
    hK.degrade_root hroot hr hkr
  obtain ⟨hc₁, hlc₁⟩ := hkeep₁ c hcroot hcr
  have hfe₁ : p₁.failure = p.failure := hst₁.follows.failure_eq
  have hf₁ : 0 < w p₁.failure.slot := by
    rw [hfe₁]
    exact hf
  obtain ⟨p₂, ts₂, hrun₂, hK₂, hst₂, hkeep₂, hlone₂⟩ :=
    hK₁.release_roots hf₁ (mem_slots_of_mem_heads hc₁)
  have hfr₂ := hst₂.frees
  obtain ⟨hr₂, hlr₂⟩ := hkeep₂ r hroot₁ (Ne.symm hcr)
  refine ⟨p₁, p₂, ts₂, hrun₁, hrun₂, hK₂, hst₂.follows.failure_eq.trans hfe₁,
    (hst₁.frees.mono fun _ _ => trivial).trans (hfr₂.mono fun _ _ => trivial), hr₂,
    by rw [hlr₂, hr₁], fun x hx hxr hxc => ?_, fun z hz hzf hw => ?_, fun hpin hone => ?_⟩
  · obtain ⟨hx₁, hl₁⟩ := hkeep₁ x hx hxr
    obtain ⟨hx₂, hl₂⟩ := hkeep₂ x hx₁ hxc
    exact ⟨hx₂, hl₂.trans hl₁⟩
  · -- a child owed nothing but its edge went with the degraded record's children
    have hzc : z ≠ c := fun h =>
      not_mem_kidSlots_of_mem_heads hnd hcroot (h ▸ mem_kidSlots_of_lookup hr hz)
    have hgone := hfree₁ z hz hzf (by rw [addUnit_of_ne w hzc]; exact hw)
    refine hfr₂.isFree_of_isFree ?_
    rw [← Bool.not_eq_false, hK₁.sound.isFree_eq_false_iff]
    exact hgone
  · -- the failure operand held nothing but its handle's unit
    have hrec : (recordAt c ts₁).map (fun nd => (nd.pinned, nd.retain)) = some (false, 1) := by
      rw [recordAt_eq_of_lookup hlc₁, recordAt, hc]
      simp [hpin, hone]
    rw [← Bool.not_eq_false, hK₂.sound.isFree_eq_false_iff]
    exact hlone₂ hc₁ hrec

end Pool

namespace Heap

open Pool TreeArena.Tree

variable {h : Heap} {k : Nat} {q : Pool} {w : Nat → Nat} {ts : List Tree}

/-- A handle of the pool whose identifier is its slot's current one finds the record of the
slot's entry, at the hole the entry heads. -/
theorem finds_of_lookup (hS : q.Sound w ts) (hp : h.pools[k]? = some q) {x : Handle}
    (hhome : x.home = some k) (hid : x.id = q.slots.idOf x.slot) {nd : Node} {kids : List Nat}
    (hl : lookup x.slot ts = some (nd, kids)) :
    ∃ (c : Ctx) (ks : List Tree), ts = c.fill [node nd ks] ∧ kids = heads ks ∧ h.Finds x k q c.pos := by
  obtain ⟨c, ks, rfl, hs, rfl⟩ := hS.hole_of_lookup hl
  refine ⟨c, ks, rfl, rfl, hhome, hp, ?_⟩
  rw [hid, ← hs]
  exact hS.resolve_idOf

/-- The ancestor query on two records of one pool, the first outside the second's subtree,
answers no. -/
theorem returns_hasAncestor_false {r t : Handle} {p : Pool} {off toff : Nat}
    (hr : h.Finds r k p off) (ht : h.Finds t k p toff) (hne : off ≠ toff)
    (hout : ¬ (toff < off ∧ off < p.nodes.subtreeEnd toff)) (self : Bool) :
    Returns (hasAncestor r t self) h fun b h' => b = false ∧ h' = h := by
  unfold hasAncestor
  refine returns_get_bind ?_
  rw [if_neg (by simp [isDefined_iff_finds.mpr ⟨k, p, toff, ht⟩])]
  refine (returns_locate hr).bind fun a h₁ hh => ?_
  obtain ⟨ha, hh⟩ := hh
  subst a h₁
  refine (returns_sibling hr.home ht).bind fun a h₁ hh => ?_
  obtain ⟨ha, hh⟩ := hh
  subst a h₁
  rw [if_neg hne]
  refine (returns_homeOf hr.home).bind fun a h₁ hh => ?_
  obtain ⟨ha, hh⟩ := hh
  subst a h₁
  refine (returns_readPool hr.pool id).bind fun a h₁ hh => ?_
  obtain ⟨ha, hh⟩ := hh
  subst a h₁
  exact returns_pure ⟨by simpa using hout, rfl⟩

/-- The cycle check passes a receiver outside the argument's subtree. -/
theorem returns_checkAcyclic {r t : Handle} {p : Pool} {off toff : Nat}
    (hr : h.Finds r k p off) (ht : h.Finds t k p toff) (hne : off ≠ toff)
    (hout : ¬ (toff < off ∧ off < p.nodes.subtreeEnd toff)) :
    Returns (checkAcyclic r t) h fun a h' => a = () ∧ h' = h := by
  unfold checkAcyclic
  refine (returns_hasAncestor_false hr ht hne hout true).bind fun b h₁ hh => ?_
  obtain ⟨hb, hh⟩ := hh
  subst b h₁
  exact returns_pure ⟨rfl, rfl⟩

/-- Adding a child that is no failure, outside the receiver's ancestors, with the receiver's own
children count as index and count, runs the pool's attaching at the end of the children. -/
theorem run_addChild_attach {r t : Handle} {p : Pool} {off toff : Nat}
    (hr : h.Finds r k p off) (hk : p.nodes.kindAt off ≠ failureKind) (ht : h.Finds t k p toff)
    (htk : p.nodes.kindAt toff ≠ failureKind) (hne : off ≠ toff)
    (hout : ¬ (toff < off ∧ off < p.nodes.subtreeEnd toff)) :
    (addChild r t (p.nodes.childrenAt off) (p.nodes.childrenAt off)).run h =
      (onPool k (Pool.attach r.slot t.slot (p.nodes.childrenAt off))).run h := by
  unfold addChild
  rw [run_bind_of_returns (returns_locate hr), run_bind_of_returns (returns_homeOf hr.home),
    run_bind_of_returns (returns_failureAt hr.pool _), if_neg (by simpa using hk),
    run_bind_of_returns (returns_sibling hr.home ht), run_get_bind,
    if_neg (by simp [isFailure_of_finds ht, htk]),
    run_bind_of_returns (returns_checkChildCount hr.pool _), if_neg (by omega),
    run_bind_of_returns (returns_checkAcyclic hr ht hne hout)]

section Entries

variable (hS : q.Sound w ts) (hp : h.pools[k]? = some q) {r c : Handle}
  (hrh : r.home = some k) (hrid : r.id = q.slots.idOf r.slot) {nr : Node} {kids : List Nat} (hr : lookup r.slot ts = some (nr, kids))
  (hkr : nr.kind ≠ failureKind) (hch : c.home = some k) (hcid : c.id = q.slots.idOf c.slot)
  {cn : Node} {ckids : List Nat} (hc : lookup c.slot ts = some (cn, ckids))
include hS hp hrh hrid hr hkr hch hcid hc

/-- Adding an operand that is no failure to a root that is none, with the root's children count
as index and count, attaches the operand at the end of the root's children. -/
theorem run_addChild_last (hroot : r.slot ∈ heads ts) (hkc : cn.kind ≠ failureKind)
    (hcr : c.slot ≠ r.slot) :
    (addChild r c kids.length kids.length).run h =
      (onPool k (Pool.attach r.slot c.slot kids.length)).run h := by
  obtain ⟨cr, ksr, rfl, hkids, hfr⟩ := finds_of_lookup hS hp hrh hrid hr
  obtain ⟨cc, ksc, htc, -, hfc⟩ := finds_of_lookup hS hp hch hcid hc
  have hSc : q.Sound w (cc.fill [node cn ksc]) := htc ▸ hS
  have hcount : q.nodes.childrenAt cr.pos = kids.length := by
    rw [hS.childrenAt_pos, hS.children_eq, hkids, heads, List.length_map]
  -- the root's record lies outside the operand's subtree, which starts at another position
  have hrs : nr.slot = r.slot := (mem_of_lookup hr).2
  have hout : nr ∉ (node cn ksc).records := by
    intro hm
    rw [htc] at hroot
    have := slot_eq_head_of_mem_heads hSc.laid.nodup hroot (hrs ▸ List.mem_map_of_mem hm)
    exact hcr (this.trans (mem_of_lookup hc).2).symm
  have hpos := (hSc.head_mem_records_iff htc).not.mp hout
  have hend := hSc.subtreeEnd_pos
  have hsize := size_pos (node cn ksc)
  rw [← hcount]
  exact run_addChild_attach hfr (by rw [hS.kindAt_pos]; exact hkr) hfc
    (by rw [hSc.kindAt_pos]; exact hkc) (by omega) (by omega)

/-- Adding a failure operand to a root that is no failure, with the root's children count,
degrades the root. -/
theorem run_addChild_degrade (hkc : cn.kind = failureKind) :
    (addChild r c kids.length kids.length).run h = (onPool k (Pool.degrade r.slot)).run h := by
  obtain ⟨cr, ksr, rfl, hkids, hfr⟩ := finds_of_lookup hS hp hrh hrid hr
  obtain ⟨cc, ksc, htc, -, hfc⟩ := finds_of_lookup hS hp hch hcid hc
  have hSc : q.Sound w (cc.fill [node cn ksc]) := htc ▸ hS
  have hk : q.nodes.kindAt cr.pos ≠ failureKind := by rw [hS.kindAt_pos]; exact hkr
  have hcount : q.nodes.childrenAt cr.pos = kids.length := by
    rw [hS.childrenAt_pos, hS.children_eq, hkids, heads, List.length_map]
  rw [run_addChild_failure hfr hk hfc (by rw [hSc.kindAt_pos]; exact hkc), ← hcount]
  unfold replaceWithFailure
  rw [run_bind_of_returns (returns_locate hfr), run_bind_of_returns (returns_homeOf hfr.home),
    run_bind_of_returns (returns_failureAt hfr.pool _), if_neg (by simpa using hk),
    run_bind_of_returns (returns_checkChildCount hfr.pool _)]

end Entries

end Heap

end TreeArena
