import TreeArena.Proofs.Copies
import TreeArena.Proofs.Edits

/-!
# Proper records and the pool invariant

`Node.Proper f root nd`: the record `nd`, a root of the forest when `root` is set, is one the
pool can hold, with `f` the slot of the pool's failure node: its type fits its byte and its
payload its field; it is pinned exactly when it is the failure node, which holds one unit and has
the failure type; and a record of the failure type is a root with no children and no payload, so
an allocation failure never sits inside a tree.

`Pool.Kept p w ts` is the invariant every pool keeps, with `w s` the units owned on slot `s`: the
pool lays out the sound forest `ts` of proper records, its unpinned roots are owned, and its
failure node is live and owned (by the pool itself). Its failure node is then a root of the
forest, pinned and bare (`Kept.failure_mem`).

The operations keep it, each through its own lemma below; what an operation does to the records'
types and payloads is read off the outcome its spec describes.
-/

namespace TreeArena

/-- A record the pool can hold, with `f` the failure node's slot and `root` whether the record is a
root of the forest. -/
structure Node.Proper (f : Nat) (root : Bool) (nd : Node) : Prop where
  kind_lt : nd.kind < 256
  payload_le : nd.payload.length ≤ maxPayload
  pinned_iff : nd.pinned = true ↔ nd.slot = f
  pinned_spec : nd.pinned = true → nd.kind = failureKind ∧ nd.retain = 1
  bare : nd.kind = failureKind → root = true ∧ nd.children = 0 ∧ nd.payload = []

namespace Node.Proper

variable {f : Nat} {r : Bool} {nd : Node}

theorem root (h : nd.Proper f false) : nd.Proper f true :=
  ⟨h.kind_lt, h.payload_le, h.pinned_iff, h.pinned_spec, fun hk => ⟨rfl, (h.bare hk).2⟩⟩

theorem unroot (h : nd.Proper f r) (hk : nd.kind ≠ failureKind) : nd.Proper f false :=
  ⟨h.kind_lt, h.payload_le, h.pinned_iff, h.pinned_spec, fun h' => absurd h' hk⟩

theorem pinned_eq_false (h : nd.Proper f r) (hk : nd.kind ≠ failureKind) : nd.pinned = false := by
  cases hp : nd.pinned
  · rfl
  · exact absurd (h.pinned_spec hp).1 hk

theorem kind_ne (h : nd.Proper f false) : nd.kind ≠ failureKind := fun hk => by
  cases (h.bare hk).1

theorem kind_ne_of_children (h : nd.Proper f r) (hc : nd.children ≠ 0) : nd.kind ≠ failureKind :=
  fun hk => hc (h.bare hk).2.1

theorem withChildren (h : nd.Proper f r) (hk : nd.kind ≠ failureKind) (n : Nat) :
    ({ nd with children := n } : Node).Proper f r :=
  ⟨h.kind_lt, h.payload_le, h.pinned_iff, h.pinned_spec, fun h' => absurd h' hk⟩

theorem withRetain (h : nd.Proper f r) (hp : nd.pinned = false) (n : Nat) :
    ({ nd with retain := n } : Node).Proper f r :=
  ⟨h.kind_lt, h.payload_le, h.pinned_iff, fun h' => absurd h' (by simp [hp]), h.bare⟩

theorem lasting : Pool.Lasting (Node.Proper f) :=
  ⟨fun _ _ n hp h => h.withRetain hp n, fun _ h => h.root⟩

/-- A degraded record is a proper root: childless, without payload. -/
theorem failed (h : nd.Proper f r) (hk : nd.kind ≠ failureKind) (n : Nat) :
    ({ Pool.failed nd with retain := n } : Node).Proper f true := by
  have hp := h.pinned_eq_false hk
  refine ⟨by simp [Pool.failed, failureKind], by simp [Pool.failed], ?_, ?_, ?_⟩
  · simp only [Pool.failed]
    rw [← h.pinned_iff, hp]
  · simp [Pool.failed, hp]
  · intro _
    simp [Pool.failed]

theorem lowerAt (h : nd.Proper f r) (s : Nat) : (Pool.lowerAt s nd).Proper f r := by
  unfold Pool.lowerAt
  split
  · refine ⟨h.kind_lt, h.payload_le, h.pinned_iff, h.pinned_spec, fun hk => ?_⟩
    obtain ⟨hr, hc, hpay⟩ := h.bare hk
    exact ⟨hr, by simp [hc], hpay⟩
  · exact h

end Node.Proper

namespace Tree

variable {f : Nat}

/-- A subtree whose root is no failure can hang from a parent. -/
theorem Every.unroot_proper {t : Tree} (h : Every (Node.Proper f) true t)
    (hk : t.head.kind ≠ failureKind) : Every (Node.Proper f) false t := by
  rw [← eta t] at h ⊢
  exact h.unroot (h.head.unroot hk)

theorem Every.recount {root : Bool} {h : Node} {ks : List Tree}
    (he : Every (Node.Proper f) root (Tree.node h ks)) (hp : h.pinned = false) (n : Nat) :
    Every (Node.Proper f) root (Tree.node { h with retain := n } ks) := by
  obtain ⟨hh, hks⟩ := every_node_iff.mp he
  exact every_node_iff.mpr ⟨hh.withRetain hp n, hks⟩

end Tree

namespace Pool

open TreeArena.Tree SlotTable

variable {p p' : Pool} {w : Nat → Nat} {ts : List Tree}

/-- The pool's invariant, `w s` the units owned on slot `s`: a sound forest of proper records
whose unpinned roots are owned, and a live failure node that is owned too. -/
structure Kept (p : Pool) (w : Nat → Nat) (ts : List Tree) : Prop where
  sound : p.Sound w ts
  owed : RootsOwed w ts
  proper : ∀ t ∈ ts, t.Every (Node.Proper p.failure.slot) true
  failure_live : (p.slots.resolve p.failure).isSome
  failure_owed : 0 < w p.failure.slot

/-- The subtree at a hole is proper, its root as a root exactly when the hole is at the top. -/
theorem Kept.every_fill {c : Ctx} {t : Tree} (hK : p.Kept w (c.fill [t])) :
    t.Every (Node.Proper p.failure.slot) c.up.isEmpty :=
  (Ctx.every_fill_iff.mp hK.proper).2 t (List.mem_singleton_self _)

/-- The record a pool's failure node is kept as. -/
theorem failureRecord_eq {nd : Node} (hp : nd.Proper nd.slot true) (hpin : nd.pinned = true)
    (hc : nd.children = 0) : nd = failureRecord nd.slot := by
  obtain ⟨hk, hr⟩ := hp.pinned_spec hpin
  obtain ⟨-, -, hpay⟩ := hp.bare hk
  cases nd
  simp_all [failureRecord]

/-- The failure node of a pool that keeps its invariant is a root of the forest: pinned, of the
failure type, holding one unit, with no children and no payload. -/
theorem Kept.failure_mem (hK : p.Kept w ts) : node (failureRecord p.failure.slot) [] ∈ ts := by
  have hlive : p.slots.isFree p.failure.slot = false :=
    ((resolve_isSome_iff _ _).mp hK.failure_live).2.2.2
  obtain ⟨c, h, ks, rfl, hs⟩ := hK.sound.exists_hole hlive
  have hQ := hK.every_fill
  have hh : h.Proper p.failure.slot c.up.isEmpty := hQ.head
  have hpin : h.pinned = true := hh.pinned_iff.mpr hs
  obtain ⟨hroot, hc, -⟩ := hh.bare (hh.pinned_spec hpin).1
  have hks : ks = [] := List.eq_nil_of_length_eq_zero (hK.sound.children_eq.symm.trans hc)
  have hup : c.up = [] := List.isEmpty_iff.mp hroot
  have hrec : h = failureRecord p.failure.slot := by
    rw [← hs]
    exact failureRecord_eq (hs ▸ hroot ▸ hh) hpin hc
  subst hks hrec
  simp [Ctx.fill, hup, Frame.closeAll]

end Pool

end TreeArena
