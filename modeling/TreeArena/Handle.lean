import TreeArena.Pool.Ownership
import TreeArena.Pool.Copy

/-!
# Handles and navigation

A handle names a node by its identifier, never by its position, so it stays valid while records
move. It also says which pool it belongs to; the zero handle belongs to none. Handles are plain
values: owning one is a matter of discipline (`copy` adds a unit, `release` gives one back).

The pools a client holds form a `Heap`, and handle operations run in `HeapM`, which stops at a
contract fault and keeps the effects made before it. Navigating through a handle that names no
node, or a destroyed one, is a fault; so is mixing handles of two pools.
-/

namespace TreeArena

/-- A handle: the pool it belongs to, if any, and the identifier it holds. -/
structure Handle where
  home : Option Nat
  id : NodeId
deriving DecidableEq, Repr, Inhabited

namespace Handle

/-- The blank handle: it belongs to no pool and holds the all-zero identifier, which no
navigation reaches since there is no pool to look in. -/
def zero : Handle := ⟨none, ⟨0, 0⟩⟩

/-- The handle of pool `k` that names no node. -/
def undefinedIn (k : Nat) : Handle := ⟨some k, NodeId.none⟩

/-- The same handle with its node given up: it keeps its pool. -/
def cleared (r : Handle) : Handle := ⟨r.home, NodeId.none⟩

/-- What an operand's holder keeps once the operand is taken over: its pool's handle naming no
node, or the blank handle when it had no pool. -/
def givenUp (r : Handle) : Handle :=
  match r.home with
  | none => zero
  | some k => undefinedIn k

/-- The slot the handle's identifier selects. -/
def slot (r : Handle) : Nat := r.id.slot

end Handle

/-- The pools of one client, numbered from zero. -/
structure Heap where
  pools : Array Pool
deriving Inhabited

/-- Handle operations over a heap of pools. -/
abbrev HeapM := EStateM Fault Heap

namespace Heap

/-- The pool and position of the node a handle names, if it is live. -/
def resolve (h : Heap) (r : Handle) : Option (Nat × Nat) :=
  match r.home with
  | none => none
  | some k => (h.pools[k]?).bind fun p => (p.slots.resolve r.id).map fun i => (k, i)

/-- Whether the handle names a live node. -/
def isDefined (h : Heap) (r : Handle) : Bool := (h.resolve r).isSome

/-- Whether the handle names a live allocation-failure node. -/
def isFailure (h : Heap) (r : Handle) : Bool :=
  match h.resolve r with
  | none => false
  | some (k, i) => ((h.pools[k]?).map fun p => p.nodes.kindAt i == failureKind).getD false

/-- Runs a pool operation on pool `k`; its changes stay, also when it stops at a fault. The pool
is taken out of the heap while the operation runs, so that the operation holds the only
reference to it and its tables are updated in place. -/
def onPool {α : Type} (k : Nat) (m : PoolM α) : HeapM α := fun h =>
  match h.pools[k]? with
  | none => .error .undefinedHandle h
  | some p =>
    let h := { h with pools := h.pools.setIfInBounds k default }
    match m.run p with
    | .ok a p' => .ok a { h with pools := h.pools.setIfInBounds k p' }
    | .error e p' => .error e { h with pools := h.pools.setIfInBounds k p' }

/-- Reads pool `k`. -/
def readPool {α : Type} (k : Nat) (f : Pool → α) : HeapM α := onPool k (do return f (← get))

/-- The pool a handle belongs to; a handle of no pool cannot be navigated. -/
def homeOf (r : Handle) : HeapM Nat :=
  match r.home with
  | none => throw .undefinedHandle
  | some k => pure k

/-- Position of the handle's node: a handle naming no node, or a destroyed one, is a fault. -/
def locate (r : Handle) : HeapM Nat := do
  let _ ← homeOf r
  if r.id = NodeId.none then throw .undefinedHandle
  match (← get).resolve r with
  | some (_, i) => return i
  | none => throw (.staleHandle r.id)

/-- Position of `o`, which must belong to the pool of `r` or to none. -/
def sibling (r o : Handle) : HeapM Nat := do
  if o.home.isSome ∧ o.home ≠ r.home then throw (.foreignHandle o.id)
  locate o

/-- A new owning handle on the same node; a handle naming no live node gives a handle of the
same pool naming none. -/
def copy (r : Handle) : HeapM Handle := do
  if !(← get).isDefined r then return r.cleared
  onPool (← homeOf r) (Pool.retain r.slot)
  return r

/-- Gives back the handle's unit, if its node is live, and returns the cleared handle. -/
def release (r : Handle) : HeapM Handle := do
  if (← get).isDefined r then
    onPool (← homeOf r) (Pool.release r.slot)
  return r.cleared

/-- Makes `r` name the node `o` names: `o`'s node gains a unit before `r`'s loses one. -/
def assign (r o : Handle) : HeapM Handle := do
  if r = o then return r
  let c ← copy o
  let _ ← release r
  return c

/-- Reads the pool and the node's position. -/
def inspect {α : Type} (r : Handle) (f : Pool → Nat → α) : HeapM α := do
  let i ← locate r
  readPool (← homeOf r) fun p => f p i

/-- The node's type tag. -/
def kind (r : Handle) : HeapM Nat := inspect r fun p i => p.nodes.kindAt i

/-- The node's payload. -/
def payload (r : Handle) : HeapM (List UInt8) := inspect r fun p i => p.nodes.payloadAt i

/-- The node's retain count. -/
def retainCount (r : Handle) : HeapM Nat := inspect r fun p i => p.nodes.retainAt i

/-- The node's children count. -/
def childCount (r : Handle) : HeapM Nat := inspect r fun p i => p.nodes.childrenAt i

/-- Nodes below the handle's node, and the node itself if `self` is set. -/
def descendants (r : Handle) (self : Bool) : HeapM Int :=
  inspect r fun p i => (p.nodes.countAt i : Int) - (if self then 0 else 1)

/-- An owning handle on the node in slot `s` of pool `k`. -/
def own (k s : Nat) : HeapM Handle := do
  onPool k (Pool.retain s)
  readPool k fun p => ⟨some k, p.slots.idOf s⟩

/-- An owning handle on child `i`. -/
def childAt (r : Handle) (i : Int) : HeapM Handle := do
  let off ← locate r
  let k ← homeOf r
  let p ← readPool k id
  let n := p.nodes.childrenAt off
  if i < 0 ∨ i ≥ n then throw (.indexOutOfRange i n)
  own k (p.nodes.slotAt (p.nodes.childStart off i.toNat))

/-- Position among `k` children starting at `pos` of the one starting at `target`, counting
from `i`. -/
def scanChildren (a : Arena) (target : Nat) : (pos i k : Nat) → Option Nat
  | _, _, 0 => none
  | pos, i, k + 1 =>
    if pos = target then some i else scanChildren a target (a.subtreeEnd pos) (i + 1) k

/-- Position of `t` among the children of `r`, or -1. -/
def indexOf (r t : Handle) : HeapM Int := do
  let off ← locate r
  let toff ← sibling r t
  let p ← readPool (← homeOf r) id
  match scanChildren p.nodes toff (p.nodes.next off) 0 (p.nodes.childrenAt off) with
  | some i => return i
  | none => return -1

/-- An owning handle on the parent, or the pool's handle naming no node for a root. -/
def parent (r : Handle) : HeapM Handle := do
  let off ← locate r
  let k ← homeOf r
  let p ← readPool k id
  match p.nodes.parentOf off with
  | none => return Handle.undefinedIn k
  | some q => own k (p.nodes.slotAt q)

/-- Whether `t` names a direct child of `r`'s node. -/
def hasChild (r t : Handle) : HeapM Bool := do
  if !(← get).isDefined t then return false
  return (← indexOf r t) ≥ 0

/-- Whether `t` names a child of the parent of `r`'s node; a node is its own sibling. -/
def hasSibling (r t : Handle) : HeapM Bool := do
  if !(← get).isDefined t then return false
  let off ← locate r
  let k ← homeOf r
  let p ← readPool k id
  match p.nodes.parentOf off with
  | none => return false
  | some q => hasChild ⟨some k, p.slots.idOf (p.nodes.slotAt q)⟩ t

/-- Whether `t`'s subtree holds `r`'s node; the node itself counts if `self` is set. -/
def hasAncestor (r t : Handle) (self : Bool) : HeapM Bool := do
  if !(← get).isDefined t then return false
  let off ← locate r
  let toff ← sibling r t
  if off = toff then return self
  let p ← readPool (← homeOf r) id
  return toff < off ∧ off < p.nodes.subtreeEnd toff

/-- A deep copy of `r`'s subtree as a new root, or the failure node if it does not fit. -/
def clone (r : Handle) : HeapM Handle := do
  let off ← locate r
  let k ← homeOf r
  let id ← onPool k (Pool.cloneAt off)
  return ⟨some k, id⟩

/-- The portable encoding of `r`'s subtree. -/
def encodeTree (r : Handle) : HeapM (List UInt8) := inspect r fun p i => p.exportAt i

/-- The handle of pool `k` on its failure node. -/
def failureOf (k : Nat) : HeapM Handle := readPool k fun p => ⟨some k, p.failure⟩

/-- Makes a childless node in pool `k`; the failure handle when it cannot. -/
def create (k : Nat) (kind : Nat) (payload : List UInt8) : HeapM Handle := do
  let id ← onPool k (Pool.create kind payload)
  return ⟨some k, id⟩

/-- Reads an encoded tree into pool `k`: a malformed one is an error and the pool's handle naming
no node. -/
def decodeInto (k : Nat) (data : List UInt8) : HeapM (Except DecodeError Handle) := do
  match ← onPool k (Pool.importTree data) with
  | .error e => return .error e
  | .ok (.root id) => return .ok ⟨some k, id⟩
  | .ok (.failure id) => return .ok ⟨some k, id⟩

end Heap

end TreeArena
