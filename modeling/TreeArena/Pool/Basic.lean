import TreeArena.Arena.Layout
import TreeArena.Slots
import TreeArena.Fault
import TreeArena.Level

/-!
# Pools

A pool owns one arena of fixed capacity and the identifier table that locates its nodes. Its
first node, made when the pool is built, is the pinned allocation-failure node: every allocation
that cannot be met hands out that node instead of a new one.

Pool operations run in `PoolM`, a state monad over the pool that stops at a contract fault and
keeps whatever was changed before it. What the pool reports while it works (allocations, log
lines) is appended to its journal.

This module holds the pool, building one, the primitive record moves (`move`, `excise`,
`reindex`) and allocation.
-/

namespace TreeArena

/-- Something a pool reports while it works. -/
inductive Notice where
  /-- A node was allocated: its identifier, byte offset and size, and the pool's number. -/
  | allocated (pool : Nat) (id : NodeId) (offset size : Nat)
  /-- A log line with its attributes, each value already in text. -/
  | logged (level : Level) (msg : String) (attrs : List (String × String))
deriving Repr, Inhabited

/-- How a pool is built: an optional identifier-table size, and whether it logs and reports
allocations. -/
structure PoolOptions where
  maxNodes : Option Int := none
  logs : Bool := false
  reports : Bool := false
deriving Repr, Inhabited

/-- An arena of nodes with its identifier table. -/
structure Pool where
  /-- The pool's number; handles carry it to say which pool they belong to. -/
  tag : Nat
  capacity : Nat
  limit : Nat
  nodes : Arena
  slots : SlotTable
  /-- The pinned allocation-failure node. -/
  failure : NodeId
  /-- Allocations refused so far. -/
  failures : Nat
  logs : Bool
  reports : Bool
  journal : Array Notice
deriving Repr, Inhabited

/-- Pool operations: state over the pool, stopped by a contract fault that keeps the effects
made before it. -/
abbrev PoolM := EStateM Fault Pool

/-- Smallest arena a pool manages: room for one header. -/
def minCapacity : Nat := headerSize

/-- Largest arena a pool manages. -/
def maxCapacity : Nat := 16777216

/-- Why a pool could not be built. -/
inductive SetupError where
  | capacity (c : Int)
  | tableLength (n : Int)
  | tableSize (n : Int)
  | noRoomForFailure
deriving DecidableEq, Repr

/-- Text of a setup error. A table length that cannot even be allocated crashes the setup; the
others are capacity errors. -/
def SetupError.message : SetupError → String
  | .tableLength _ => "runtime error: makeslice: len out of range"
  | .capacity c =>
    "capacity out of range: " ++ toString c ++ " not in [" ++ toString minCapacity ++ ", " ++
      toString maxCapacity ++ "]"
  | .tableSize n =>
    "capacity out of range: max nodes " ++ toString n ++ " not in [1, " ++ toString maxSlots ++ "]"
  | .noRoomForFailure => "capacity out of range: no room for the allocation-failure node"

namespace Pool

/-- Bytes in use: the high-water mark of the arena. -/
def used (p : Pool) : Nat := p.nodes.used

/-- Position of the node in slot `s` (zero for a free slot, which no caller asks about). -/
def position (p : Pool) (s : Nat) : Nat := (p.slots.position s).getD 0

/-- Appends a notice to the journal. -/
def note (n : Notice) : PoolM Unit :=
  modify fun p => { p with journal := p.journal.push n }

/-- Logs a line if the pool logs. -/
def log (level : Level) (msg : String) (attrs : List (String × String)) : PoolM Unit := do
  if (← get).logs then note (.logged level msg attrs)

/-- Points the table entry of each of the `n` records from position `pos` at its position;
positions past the last record are skipped. -/
def reindexNodes (a : Arena) : SlotTable → (pos n : Nat) → SlotTable
  | t, _, 0 => t
  | t, pos, n + 1 =>
    let t := match a[pos]? with
      | some nd => t.set nd.slot pos
      | none => t
    reindexNodes a t (pos + 1) n

/-- Rewrites the table entries of the records in positions `[lo, hi)`. -/
def reindex (lo hi : Nat) : PoolM Unit :=
  modify fun p => { p with slots := reindexNodes p.nodes p.slots lo (hi - lo) }

/-- The array `s` rotated left by `k`, in three reversals: of its first `k` elements, of the
rest, and then of the whole. -/
def turn {α : Type} (s : Array α) (k : Nat) : Array α :=
  ((s.extract 0 k).reverse ++ (s.extract k s.size).reverse).reverse

/-- Rotating left by `k` moves the first `k` elements to the end. -/
theorem toList_turn {α : Type} (s : Array α) (k : Nat) :
    (turn s k).toList = s.toList.drop k ++ s.toList.take k := by
  simp [turn, List.take_of_length_le]

theorem size_turn {α : Type} (s : Array α) (k : Nat) : (turn s k).size = s.size := by
  rw [← Array.length_toList, toList_turn, List.length_append, List.length_drop, List.length_take,
    Array.length_toList]
  omega

/-- Rotates positions `[lo, hi)` of the arena left by `k` records. -/
def turnRange (a : Arena) (lo hi k : Nat) : Arena :=
  a.extract 0 lo ++ turn (a.extract lo hi) k ++ a.extract hi a.size

/-- Rotating a range inside the arena keeps its number of records. -/
theorem size_turnRange (a : Arena) (lo hi k : Nat) (h : lo ≤ hi) (h' : hi ≤ a.size) :
    (turnRange a lo hi k).size = a.size := by
  simp only [turnRange, size_turn, Array.size_append, Array.size_extract]
  omega

/-- Moves the `n` records at `src` so that they start where `dst` was before, shifting the
records in between, and returns their new start. The table follows every record that moved. -/
def move (dst src n : Nat) : PoolM Nat := do
  if n = 0 ∨ dst = src ∨ dst = src + n then return src
  if dst < src then
    modify fun p => { p with nodes := turnRange p.nodes dst (src + n) (src - dst) }
    reindex dst (src + n)
    return dst
  else
    modify fun p => { p with nodes := turnRange p.nodes src dst n }
    reindex src dst
    return dst - n

/-- Removes `n` records at `i`; the records after them close the gap. -/
def excise (i n : Nat) : PoolM Unit := do
  modify fun p => { p with nodes := p.nodes.extract 0 i ++ p.nodes.extract (i + n) p.nodes.size }
  reindex i (← get).nodes.size

/-- Rewrites the record at position `i`. -/
def modifyAt (i : Nat) (f : Node → Node) : PoolM Unit :=
  modify fun p => { p with nodes := p.nodes.modify i f }

/-- Sets a children count; one outside the sixteen-bit field is a fault. -/
def setChildren (i : Nat) (n : Int) : PoolM Unit := do
  if n < 0 ∨ n > maxCount then throw (.countOutOfRange n)
  modifyAt i fun nd => { nd with children := n.toNat }

/-- Sets a retain count. -/
def setRetain (i : Nat) (n : Nat) : PoolM Unit :=
  modifyAt i fun nd => { nd with retain := n }

/-- Records a refused allocation of `requested` bytes. -/
def exhausted (requested : Nat) : PoolM Unit := do
  modify fun p => { p with failures := p.failures + 1 }
  let p ← get
  log .warn "allocation failed"
    [("requested", toString requested), ("used", toString p.used), ("limit", toString p.limit),
     ("live_nodes", toString p.slots.live)]

/-- Appends a childless node with a zero retain count and returns its slot, or none (after
recording the refusal) when the payload is too large, the bytes up to the limit do not suffice,
or no slot is free. -/
def allocate (kind : Nat) (payload : List UInt8) : PoolM (Option Nat) := do
  let p ← get
  let size := headerSize + payload.length
  let offset := p.used
  if payload.length > maxPayload ∨ offset + size > p.limit then
    exhausted size
    return none
  match p.slots.firstFree with
  | none =>
    exhausted size
    return none
  | some s =>
    let i := p.nodes.size
    let notice := if p.reports then some (Notice.allocated p.tag (p.slots.idOf s) offset size)
      else none
    modify fun p => { p with nodes := p.nodes.push (Node.mk s kind false 0 0 payload),
                             slots := (p.slots.claim s).set s i }
    if let some n := notice then note n
    return some s

/-- A pool of `cap` bytes numbered `tag` with no records and a table of `n` free slots. -/
def blank (tag cap n : Nat) (opts : PoolOptions) : Pool :=
  { tag, capacity := cap, limit := cap, nodes := #[], slots := SlotTable.empty n,
    failure := NodeId.none, failures := 0, logs := opts.logs, reports := opts.reports,
    journal := #[] }

/-- Allocates the pinned failure node, holding one unit, and returns its identifier; none when
it does not fit. -/
def placeFailure : PoolM (Option NodeId) := do
  match ← allocate failureKind [] with
  | none => return none
  | some s =>
    let i := (← get).position s
    modifyAt i fun nd => { nd with pinned := true, retain := 1 }
    return some ((← get).slots.idOf s)

/-- Builds a pool of `capacity` bytes numbered `tag`: the table has the given size, or one slot
per header that fits (at most `maxSlots`), and the pinned failure node is allocated first. -/
def new (tag : Nat) (capacity : Int) (opts : PoolOptions) : Except SetupError Pool := do
  if capacity < minCapacity ∨ capacity > maxCapacity then throw (.capacity capacity)
  let cap := capacity.toNat
  let n : Int := opts.maxNodes.getD (min (cap / headerSize) maxSlots : Nat)
  if n < 0 ∨ n > (Nat.pow 2 46 : Nat) then throw (.tableLength n)
  if n < 1 ∨ n > maxSlots then throw (.tableSize n)
  match placeFailure.run (blank tag cap n.toNat opts) with
  | .ok (some id) p => return { p with failure := id }
  | _ => throw .noRoomForFailure

/-- Makes a childless node owned once and returns its identifier. The failure type, and any
allocation that cannot be met, give the failure node instead. -/
def create (kind : Nat) (payload : List UInt8) : PoolM NodeId := do
  if kind = failureKind then return (← get).failure
  match ← allocate kind payload with
  | none => return (← get).failure
  | some s =>
    let p ← get
    setRetain (p.position s) 1
    return p.slots.idOf s

/-- The pool with `n` bytes usable for allocation, clamped to the bytes in use and the
capacity. -/
def withLimit (p : Pool) (n : Int) : Pool :=
  { p with limit := (max (p.used : Int) (min n p.capacity)).toNat }

/-- Changes the bytes usable for allocation. -/
def setLimit (n : Int) : PoolM Unit := modify fun p => p.withLimit n

/-- A snapshot of arena and table usage. -/
structure Stats where
  capacity : Nat
  limit : Nat
  used : Nat
  live : Nat
  maxNodes : Nat
  failures : Nat
deriving Repr, DecidableEq

/-- Bytes still available for allocation. -/
def Stats.free (s : Stats) : Int := (s.limit : Int) - s.used

/-- Current usage; the failure node counts as live. -/
def stats (p : Pool) : Stats :=
  ⟨p.capacity, p.limit, p.used, p.slots.live, p.slots.size, p.failures⟩

/-- Every node in arena order, with its identifier and type. -/
def listing (p : Pool) : List (NodeId × Nat) :=
  p.nodes.toList.map fun nd => (p.slots.idOf nd.slot, nd.kind)

/-- Takes the journal, leaving it empty. -/
def drain (p : Pool) : Array Notice × Pool := (p.journal, { p with journal := #[] })

end Pool

end TreeArena
