import TreeArena.Expr.Basic

/-!
# Prefix text of an expression

An integer is written in decimal, a symbol as its name, a failure as `Fail`, and any other node as
its type name followed by its operands in parentheses, separated by commas: `Add(1,Mul(x,2))`.
Symbol names are payload bytes, so the text is a byte string.

Each operand is reached through an owning handle that is given back once written, so rendering
leaves every retain count as it found it.
-/

namespace TreeArena

namespace Expr

/-- Upper bound on the number of children of a node: counts are sixteen-bit. -/
def childBound : Nat := maxCount + 1

mutual

/-- The text of `r`'s subtree, descending at most `fuel` levels. -/
def renderWithin : Nat → Handle → HeapM (List UInt8)
  | 0, _ => pure []
  | fuel + 1, r => do
    let t ← Heap.kind r
    if t = integerKind then
      let (v, _) ← integerValue r
      return utf8 (toString v)
    else if t = symbolKind then
      let (name, _) ← symbolName r
      return name
    else if t = failureKind then
      return utf8 (typeName failureKind)
    else
      let body ← renderOperands fuel r 0 childBound
      return utf8 (typeName t) ++ utf8 "(" ++ body ++ utf8 ")"
termination_by fuel => (fuel, 0)

/-- The texts of `r`'s operands from `i` on, comma-separated. -/
def renderOperands : Nat → Handle → Nat → Nat → HeapM (List UInt8)
  | _, _, _, 0 => pure []
  | fuel, r, i, bound + 1 => do
    if i ≥ (← Heap.childCount r) then return []
    let c ← Heap.childAt r i
    let s ← renderWithin fuel c
    let _ ← Heap.release c
    let rest ← renderOperands fuel r (i + 1) bound
    return (if i > 0 then utf8 "," else []) ++ s ++ rest
termination_by fuel _ _ bound => (fuel, bound + 1)

end

/-- Records in all pools of the heap: no tree is deeper. -/
def heapSize (h : Heap) : Nat := total (h.pools.toList.map fun p => p.nodes.size)

/-- The prefix text of `r`'s subtree. -/
def render (r : Handle) : HeapM (List UInt8) := do
  renderWithin (heapSize (← get) + 2) r

end Expr

end TreeArena
