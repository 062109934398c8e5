import TreeArena.Pool.Basic
import TreeArena.Encoding.TreeCode

/-!
# Copying subtrees

A subtree is copied within a pool by appending a copy of its records, each with a fresh slot,
one unit and no pin, or carried between pools through the portable encoding (`exportAt`,
`importTree`). Both refuse, as a failed allocation, when the bytes up to the limit or the free
slots do not suffice, and then write nothing.
-/

namespace TreeArena

namespace Pool

/-- Gives each record from position `i` on a fresh slot, one unit and no pin, and reports it;
`k` records in all. -/
def stampCopies (i : Nat) : Nat → PoolM Unit
  | 0 => pure ()
  | k + 1 => do
    match (← get).slots.firstFree with
    | none => pure ()
    | some s =>
      let stamp := fun (nd : Node) => { nd with slot := s, pinned := false, retain := 1 }
      modify fun p => { p with nodes := p.nodes.modify i stamp,
                               slots := (p.slots.claim s).set s i }
      let p ← get
      if p.reports then
        let size := (p.nodes[i]?.map Node.size).getD 0
        note (.allocated p.tag (p.slots.idOf s) (p.nodes.offset i) size)
      stampCopies (i + 1) k

/-- Copies the subtree at position `i` to the end of the arena and returns the copy's root; a
failure node, or a copy that does not fit, gives the failure node. -/
def cloneAt (i : Nat) : PoolM NodeId := do
  let p ← get
  if p.nodes.kindAt i = failureKind then return p.failure
  let e := p.nodes.subtreeEnd i
  let block := p.nodes.extract i e
  let size := Arena.used block
  if p.used + size > p.limit ∨ p.slots.free < e - i then
    exhausted size
    return (← get).failure
  let start := p.nodes.size
  set { p with nodes := p.nodes ++ block }
  stampCopies start block.size
  let p ← get
  return p.slots.idOf (p.nodes.slotAt start)

/-- The nodes of the subtree at position `i` as encoding entries. -/
def entriesAt (p : Pool) (i : Nat) : List Entry :=
  (p.nodes.extract i (p.nodes.subtreeEnd i)).toList.map fun nd =>
    ⟨nd.kind, nd.children, nd.payload⟩

/-- The portable encoding of the subtree at position `i`. -/
def exportAt (p : Pool) (i : Nat) : List UInt8 := TreeCode.encode (p.entriesAt i)

/-- Appends decoded nodes, each with a fresh slot and one unit. -/
def appendEntries : List Entry → PoolM Unit
  | [] => pure ()
  | e :: es => do
    match (← get).slots.firstFree with
    | none => pure ()
    | some s =>
      let nd := Node.mk s e.kind false e.children 1 e.payload
      modify fun p => { p with nodes := p.nodes.push nd,
                               slots := (p.slots.claim s).set s p.nodes.size }
      appendEntries es

/-- Outcome of reading an encoded tree into a pool. -/
inductive Imported where
  /-- The tree was written; its root. -/
  | root (id : NodeId)
  /-- A node of the tree is an allocation failure, or the tree did not fit: the failure node. -/
  | failure (id : NodeId)
deriving DecidableEq, Repr

/-- Rebuilds an encoded tree at the end of the arena. Malformed bytes are an error; a tree that
holds a failure node gives the failure node without writing anything, and a tree that does not
fit gives it after recording the refusal. -/
def importTree (data : List UInt8) : PoolM (Except DecodeError Imported) := do
  match TreeCode.decode data with
  | .error e => return .error e
  | .ok es =>
    let p ← get
    if es.any (fun e => e.kind = failureKind) then return .ok (.failure p.failure)
    let size := TreeCode.arenaSize es
    if p.used + size > p.limit ∨ p.slots.free < es.length then
      exhausted size
      return .ok (.failure (← get).failure)
    let start := p.nodes.size
    appendEntries es
    let p ← get
    return .ok (.root (p.slots.idOf (p.nodes.slotAt start)))

end Pool

end TreeArena
