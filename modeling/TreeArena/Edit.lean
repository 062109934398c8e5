import TreeArena.Handle

/-!
# Tree edits

Edits attach, detach, replace and splice subtrees through handles. Each checks its arguments
first (handles live and of the receiver's pool, counts and positions as the caller expects, no
node placed below itself) and then rearranges records so that every subtree stays one contiguous
block: a subtree that gains a parent is rotated into place after its new siblings' blocks, and
one that loses its parent is rotated to the end of the arena.

Ownership moves with the edges: a node that gains a parent keeps its old parent's unit or gains a
new one, and a node that loses its parent gives that unit back. Handing an allocation failure to
an edit degrades the receiver instead.
-/

namespace TreeArena

namespace Pool

/-- Makes the node in slot `t` child `index` of the node in slot `r`, moving its subtree into
place. `t` is adopted first, and since it may have been one of `r`'s children, the index is
clamped to `r`'s count after that. -/
def attach (r t : Nat) (index : Int) : PoolM Unit := do
  adopt t
  let p ← get
  let off := p.position r
  let n := p.nodes.childrenAt off
  let at_ := min index.toNat n
  let toff := p.position t
  let _ ← move (p.nodes.childStart off at_) toff (p.nodes.subtreeEnd toff - toff)
  setChildren ((← get).position r) (n + 1)

/-- Detaches the child in slot `child` from the node in slot `parent` and gives back the edge's
unit. -/
def cut (parent child : Nat) : PoolM Unit := do
  detach parent child
  release child

/-- Puts the node in slot `new` in the place of the child in slot `old`, which goes to the end of
the arena and gives back its edge's unit. -/
def substitute (old new : Nat) : PoolM Unit := do
  -- new may sit under old, under old's parent, or anywhere else.
  adopt new
  let p ← get
  let noff := p.position new
  let _ ← move (p.position old) noff (p.nodes.subtreeEnd noff - noff)
  let p ← get
  let ooff := p.position old
  let _ ← move p.nodes.size ooff (p.nodes.subtreeEnd ooff - ooff)
  -- the parent's count is already right: one in, one out, and adopt took new off it if needed.
  release old

/-- Moves the children of the node at `toff` (in slot `t`) to position `i` among the `n` children
of the node at `off` (in slot `r`), and sets both counts. -/
def splice (off toff r t : Nat) (i : Int) (n : Nat) : PoolM Unit := do
  let p ← get
  let m := p.nodes.childrenAt toff
  if m > 0 then
    let first := p.nodes.next toff
    let _ ← move (p.nodes.childStart off i.toNat) first (p.nodes.subtreeEnd toff - first)
  setChildren ((← get).position t) 0
  setChildren ((← get).position r) (n + m)

end Pool

namespace Heap

/-- Fault unless the node at position `off` of pool `k` has `expected` children. -/
def checkChildCount (k off : Nat) (expected : Int) : HeapM Unit := do
  let p ← readPool k id
  let n := p.nodes.childrenAt off
  if (n : Int) ≠ expected then
    throw (.countMismatch (p.slots.idOf (p.nodes.slotAt off)) n expected)

/-- Fault if `t` is `r` or one of its ancestors. -/
def checkAcyclic (r t : Handle) : HeapM Unit := do
  if ← hasAncestor r t true then throw (.cycle t.id r.id)

/-- Whether the node at position `off` of pool `k` is an allocation failure. -/
def failureAt (k off : Nat) : HeapM Bool := readPool k fun p => p.nodes.kindAt off == failureKind

/-- Turns `r`'s node and its ancestors into failure nodes, releasing their children. The caller
states the children count; a node already a failure is left alone. -/
def replaceWithFailure (r : Handle) (count : Int) : HeapM Unit := do
  let off ← locate r
  let k ← homeOf r
  if ← failureAt k off then return
  checkChildCount k off count
  onPool k (Pool.degrade r.slot)

/-- Installs `t` as child `index` of `r`, which the caller says has `count` children. A `t`
already under a parent is moved with its identifier; adding a failure degrades `r`. -/
def addChild (r t : Handle) (index count : Int) : HeapM Unit := do
  let off ← locate r
  let k ← homeOf r
  if ← failureAt k off then return
  let _ ← sibling r t
  if (← get).isFailure t then
    replaceWithFailure r count
    return
  checkChildCount k off count
  if index < 0 ∨ index > count then throw (.indexOutOfRange index count)
  checkAcyclic r t
  onPool k (Pool.attach r.slot t.slot index)

/-- Removes child `i` of `r` and gives back the edge's unit. -/
def removeChildAt (r : Handle) (i : Int) : HeapM Unit := do
  let off ← locate r
  let k ← homeOf r
  let p ← readPool k id
  let n := p.nodes.childrenAt off
  if i < 0 ∨ i ≥ n then throw (.indexOutOfRange i n)
  let child := p.nodes.slotAt (p.nodes.childStart off i.toNat)
  onPool k (Pool.cut r.slot child)

/-- Removes `t`, a direct child of `r` with `count` children, and gives back the edge's unit. -/
def removeChild (r t : Handle) (count : Int) : HeapM Unit := do
  let toff ← sibling r t
  if !(← hasChild r t) then throw (.notAChild t.id r.id)
  let k ← homeOf r
  checkChildCount k toff count
  onPool k (Pool.cut r.slot t.slot)

/-- Removes and releases every child of `r`; `r` itself stays. -/
def removeChildren (r : Handle) : HeapM Unit := do
  let off ← locate r
  let k ← homeOf r
  onPool k do
    Pool.dropChildren Pool.release r.slot ((← get).nodes.childrenAt off)

/-- Puts `new` in the place of `old` among `r`'s children. The edge's unit moves from `old`,
which is released, to `new`; a failure as `new` degrades `r`. -/
def replaceChild (r old new : Handle) : HeapM Unit := do
  let off ← locate r
  let k ← homeOf r
  if old = new then return
  if ← failureAt k off then return
  let _ ← sibling r new
  if (← get).isFailure new then
    replaceWithFailure r ((← readPool k id).nodes.childrenAt off)
    return
  if !(← hasChild r old) then throw (.notAChild old.id r.id)
  checkAcyclic r new
  onPool k (Pool.substitute old.slot new.slot)

/-- Replaces child `i` of `r` with `new`; the handle taken on the old child is given back
whatever happens. -/
def replaceChildAt (r : Handle) (i : Int) (new : Handle) : HeapM Unit := do
  let n ← childCount r
  if i < 0 ∨ i ≥ n then throw (.indexOutOfRange i n)
  let old ← childAt r i
  tryCatch (replaceChild r old new) fun e => do
    let _ ← release old
    throw e
  let _ ← release old

/-- Puts `t` in the place of `r`: under `r`'s parent through `replaceChild`; when `r` is a root, a
root `t` that is not pinned is only moved in front of `r`. -/
def replaceWith (r t : Handle) : HeapM Unit := do
  let off ← locate r
  let toff ← sibling r t
  let k ← homeOf r
  let p ← readPool k id
  match p.nodes.parentOf off with
  | some q => replaceChild ⟨some k, p.slots.idOf (p.nodes.slotAt q)⟩ r t
  | none =>
    if r.id = t.id then return
    if (p.nodes.parentOf toff).isSome ∨ p.nodes.pinnedAt toff then return
    onPool k do
      let _ ← Pool.move off toff (p.nodes.subtreeEnd toff - toff)

/-- Splices the children of `t` into `r`'s children at `i`; their edge units move to `r`, `t`
keeps no children and, if it was a child of `r`, is removed. -/
def merge (r t : Handle) (i : Int) : HeapM Unit := do
  let off ← locate r
  let k ← homeOf r
  if ← failureAt k off then return
  let toff ← sibling r t
  if (← get).isFailure t then
    replaceWithFailure r ((← readPool k id).nodes.childrenAt off)
    return
  let n := (← readPool k id).nodes.childrenAt off
  if i < 0 ∨ i > n then throw (.indexOutOfRange i n)
  checkAcyclic r t
  onPool k (Pool.splice off toff r.slot t.slot i n)
  if ← hasChild r t then
    onPool k (Pool.cut r.slot t.slot)

end Heap

end TreeArena
