import TreeArena.Pool.Basic

/-!
# Ownership: retain, release, destroy, degrade

Every node but the pinned failure node carries a retain count: one unit for the edge from its
parent, if it has one, and one for each handle that owns it. Releasing the last unit destroys the
node: each child is first detached to the end of the arena and released, so a child owned
elsewhere survives as a root, and then the node's record is cut out and its slot freed.

Degrading turns a node into an allocation-failure node in place: its children are released, its
payload is cut, its identifier is kept, and the failure climbs to every ancestor.

Destruction nests at most once per record, so the depth bound `Pool.depth` computed from the
arena never runs out; the wrappers `release` and `degrade` supply it.
-/

namespace TreeArena

namespace Pool

/-- Adds one ownership unit to the node in slot `s`; a pinned node is not counted, and a full
count is a fault. -/
def retain (s : Nat) : PoolM Unit := do
  let p ← get
  let i := p.position s
  if p.nodes.pinnedAt i then return
  let c := p.nodes.retainAt i
  if c = maxCount then throw (.retainOverflow (p.slots.idOf s))
  setRetain i (c + 1)

/-- Moves the subtree of the node in slot `child` to the end of the arena and takes one from the
children count of the node in slot `parent`. The edge's unit is left to the caller. -/
def detach (parent child : Nat) : PoolM Unit := do
  let p ← get
  let i := p.position child
  let _ ← move p.nodes.size i (p.nodes.subtreeEnd i - i)
  let p ← get
  let j := p.position parent
  setChildren j ((p.nodes.childrenAt j : Int) - 1)

/-- Detaches and releases the first child of the node in slot `s` until it has none, at most
`bound` times; `rel` releases one node. -/
def dropChildren (rel : Nat → PoolM Unit) (s : Nat) : Nat → PoolM Unit
  | 0 => pure ()
  | k + 1 => do
    let p ← get
    let i := p.position s
    if p.nodes.childrenAt i = 0 then return
    let child := p.nodes.slotAt (p.nodes.next i)
    detach s child
    rel child
    dropChildren rel s k

/-- A count one lower, as a sixteen-bit field stores it: below zero it wraps to the top. -/
def lower (c : Nat) : Nat := if c = 0 then maxCount else c - 1

mutual

/-- Drops one ownership unit of the node in slot `s`, destroying it when none remain; nested
destruction goes at most `fuel` levels deep. -/
def releaseWithin : Nat → Nat → PoolM Unit
  | 0, _ => pure ()
  | fuel + 1, s => do
    let p ← get
    let i := p.position s
    if p.nodes.pinnedAt i then return
    let c := p.nodes.retainAt i
    setRetain i (lower c)
    if c = 1 then destroyWithin fuel s

/-- Reclaims the unowned node in slot `s`: its children are detached and released, then its
slot is freed and its record cut out. -/
def destroyWithin : Nat → Nat → PoolM Unit
  | 0, _ => pure ()
  | fuel + 1, s => do
    let p ← get
    dropChildren (releaseWithin fuel) s (p.nodes.childrenAt (p.position s))
    let i := (← get).position s
    modify fun p => { p with slots := p.slots.release s }
    excise i 1

end

/-- Nesting depth that destruction cannot exceed: each nested level reclaims a distinct record. -/
def depth (p : Pool) : Nat := 2 * p.nodes.size + 2

/-- Drops one ownership unit of the node in slot `s`. -/
def release (s : Nat) : PoolM Unit := do
  releaseWithin (← get).depth s

/-- Turns the node in slot `s` and then each ancestor into a failure node, stopping at one that
already is; at most `fuel` nodes. -/
def degradeWithin (s : Nat) : Nat → PoolM Unit
  | 0 => pure ()
  | fuel + 1 => do
    let p ← get
    let i := p.position s
    if p.nodes.kindAt i = failureKind then return
    dropChildren release s (p.nodes.childrenAt i)
    let p ← get
    let i := p.position s
    modifyAt i fun nd => { nd with kind := failureKind }
    if p.nodes.payloadAt i ≠ [] then
      modifyAt i fun nd => { nd with payload := [] }
      reindex (i + 1) (← get).nodes.size
    log .debug "node degraded to allocation failure" [("node", (p.slots.idOf s).text)]
    let p ← get
    match p.nodes.parentOf (p.position s) with
    | none => return
    | some q => degradeWithin (p.nodes.slotAt q) fuel

/-- Turns the node in slot `s` into a failure node in place and propagates the failure to its
ancestors. It never allocates. -/
def degrade (s : Nat) : PoolM Unit := do
  degradeWithin s ((← get).nodes.size + 1)

/-- Takes the node in slot `t` out of wherever it sits, leaving it a root that holds one unit for
the edge it is about to gain: an existing parent edge's unit is kept, a root gains a new one. -/
def adopt (t : Nat) : PoolM Unit := do
  let p ← get
  match p.nodes.parentOf (p.position t) with
  | none => retain t
  | some q => detach (p.nodes.slotAt q) t

end Pool

end TreeArena
