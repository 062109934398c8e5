import TreeArena.Proofs.Forest
import TreeArena.Expr.Basic

/-!
# Flat sums and products

The forest a flattening leaves. `flat t` folds every sum that is a child of a sum, and every
product that is a child of a product, into its parent: the wrapper's children, flattened first,
take its place. Only children counts change; every other field of a record that stays is kept.

A folded wrapper gives back its edge's unit. When that was its only unit it is gone; otherwise it
stays as a childless root holding the rest, and `leftovers t` lists these roots in the order the
walk leaves them.

Main statement: `flat_flat`, in a flattened tree no sum has a sum as a child and no product a
product.
-/

namespace TreeArena

namespace Tree

/-- Whether the subtree `k`, a child of a node of type `t`, is folded into it. -/
def foldsInto (t : Nat) (k : Tree) : Bool := Expr.isAssociative t && k.head.kind == t

mutual

/-- The subtree with its children flattened and those of its own associative type folded in. -/
def flat : Tree → Tree
  | node h ks => node { h with children := (flatKids h.kind ks).length } (flatKids h.kind ks)

/-- The flattened children of a node of type `t`. -/
def flatKids (t : Nat) : List Tree → List Tree
  | [] => []
  | k :: ks => (if foldsInto t k then (flat k).kids else [flat k]) ++ flatKids t ks

end

/-- What stays of a folded wrapper once its children are gone and its edge's unit is given back. -/
def leftover (nd : Node) : List Tree :=
  if nd.retain = 1 then [] else [node { nd with children := 0, retain := nd.retain - 1 } []]

mutual

/-- The wrappers left over by flattening a subtree, in the order the walk leaves them. -/
def leftovers : Tree → List Tree
  | node h ks => leftoversKids h.kind ks

/-- The wrappers left over by flattening the children of a node of type `t`. -/
def leftoversKids (t : Nat) : List Tree → List Tree
  | [] => []
  | k :: ks => leftovers k ++ (if foldsInto t k then leftover k.head else []) ++ leftoversKids t ks

end

/-- No node of an associative type has a child of its own type. -/
inductive Flat : Tree → Prop
  | node {h : Node} {ks : List Tree} : (∀ k ∈ ks, foldsInto h.kind k = false) → (∀ k ∈ ks, Flat k) →
      Flat (node h ks)

@[simp] theorem flat_node (h : Node) (ks : List Tree) :
    flat (node h ks) = node { h with children := (flatKids h.kind ks).length } (flatKids h.kind ks) := by
  rw [flat]

@[simp] theorem flatKids_nil (t : Nat) : flatKids t [] = [] := by
  rw [flatKids]

@[simp] theorem flatKids_cons (t : Nat) (k : Tree) (ks : List Tree) :
    flatKids t (k :: ks) = (if foldsInto t k then (flat k).kids else [flat k]) ++ flatKids t ks := by
  rw [flatKids]

@[simp] theorem leftovers_node (h : Node) (ks : List Tree) :
    leftovers (node h ks) = leftoversKids h.kind ks := by
  rw [leftovers]

@[simp] theorem leftoversKids_nil (t : Nat) : leftoversKids t [] = [] := by
  rw [leftoversKids]

@[simp] theorem leftoversKids_cons (t : Nat) (k : Tree) (ks : List Tree) :
    leftoversKids t (k :: ks) =
      leftovers k ++ (if foldsInto t k then leftover k.head else []) ++ leftoversKids t ks := by
  rw [leftoversKids]

@[simp] theorem leftover_with_children (nd : Node) (n : Nat) :
    leftover { nd with children := n } = leftover nd := rfl

theorem flatKids_append (t : Nat) (ks ks' : List Tree) :
    flatKids t (ks ++ ks') = flatKids t ks ++ flatKids t ks' := by
  induction ks with
  | nil => simp
  | cons k ks ih => simp [ih]

theorem leftoversKids_append (t : Nat) (ks ks' : List Tree) :
    leftoversKids t (ks ++ ks') = leftoversKids t ks ++ leftoversKids t ks' := by
  induction ks with
  | nil => simp
  | cons k ks ih => simp [ih]

@[simp] theorem kind_flat (t : Tree) : (flat t).head.kind = t.head.kind := by
  cases t; simp

@[simp] theorem foldsInto_flat (t : Nat) (k : Tree) : foldsInto t (flat k) = foldsInto t k := by
  simp [foldsInto]

theorem flat_leaf {h : Node} (h0 : h.children = 0) : flat (node h []) = node h [] := by
  cases h
  simp_all

mutual

/-- Flattening leaves no associative node with a child of its own type. -/
theorem flat_flat : ∀ t : Tree, (flat t).Flat
  | node h ks => by
    rw [flat_node]
    exact .node (fun k hk => (flatKids_flat h.kind ks k hk).2)
      (fun k hk => (flatKids_flat h.kind ks k hk).1)

/-- The flattened children of a node of type `t` are flat and none is folded into it. -/
theorem flatKids_flat (t : Nat) :
    ∀ ks : List Tree, ∀ k ∈ flatKids t ks, k.Flat ∧ foldsInto t k = false
  | [], k, hk => by simp at hk
  | node h ks' :: ks, k, hk => by
    rw [flatKids_cons, List.mem_append] at hk
    rcases hk with hk | hk
    · by_cases hf : foldsInto t (node h ks')
      · -- the wrapper has type `t`, so its flattened children are those of a node of type `t`
        have ht : h.kind = t := by
          simp only [foldsInto, Bool.and_eq_true, beq_iff_eq, head_node] at hf
          exact hf.2
        rw [if_pos hf, flat_node, kids_node, ht] at hk
        exact flatKids_flat t ks' k hk
      · rw [if_neg hf, List.mem_singleton] at hk
        subst hk
        exact ⟨flat_flat _, (foldsInto_flat t _).trans (Bool.eq_false_iff.mpr hf)⟩
    · exact flatKids_flat t ks k hk

end

end Tree

end TreeArena
