import TreeArena.Expr.Text

/-!
# Flattening sums and products

Flattening folds a sum nested directly in a sum, or a product in a product, into its parent:
`Add(Add(1,2),3)` becomes `Add(1,2,3)`. Operands are flattened first, then each operand of the
parent's own type has its children spliced into the parent in its place and is removed, so no
wrapper survives a fold. A failure node is left alone, and the walk stops if the node becomes one
on the way.
-/

namespace TreeArena

namespace Expr

mutual

/-- Flattens `r`'s subtree, descending at most `fuel` levels. -/
def flattenWithin : Nat → Handle → HeapM Unit
  | 0, _ => pure ()
  | fuel + 1, r => do
    if (← get).isFailure r then return
    flattenFrom fuel r 0 childBound
termination_by fuel => (fuel, 0)

/-- Flattens `r`'s operands from position `i` on, folding each of `r`'s own type. -/
def flattenFrom : Nat → Handle → Nat → Nat → HeapM Unit
  | _, _, _, 0 => pure ()
  | fuel, r, i, bound + 1 => do
    if i ≥ (← Heap.childCount r) then return
    let c ← Heap.childAt r i
    flattenWithin fuel c
    if (← get).isFailure r then
      let _ ← Heap.release c
      return
    let t ← Heap.kind r
    let folds ← if isAssociative t then (do return (← Heap.kind c) == t) else pure false
    let next ← if folds then
        (do
          let n ← Heap.childCount c
          Heap.merge r c i
          pure (i + n))
      else pure (i + 1)
    let _ ← Heap.release c
    flattenFrom fuel r next bound
termination_by fuel _ _ bound => (fuel, bound + 1)

end

/-- Folds nested sums into sums and nested products into products, throughout `r`'s subtree. -/
def flatten (r : Handle) : HeapM Unit := do
  flattenWithin (heapSize (← get) + 2) r

end Expr

end TreeArena
