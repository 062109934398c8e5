import TreeArena.Records.Store
import TreeArena.Handle
import TreeArena.Arena.Image

/-!
# Models and model stores

A model is a record whose value is an encoded expression tree. Its tree is read into a pool on
first use and kept (memoized) until the model is evicted; an evicted model reads a fresh tree on
every use.

A model store presents the records of one extension as a numbered list of models. It memoizes a
window of consecutive models: asking for a model outside the window slides it, evicting the models
that fall off the far end, and any change of the store's checksum evicts them all.

Models, model stores, record stores and pools live together in a `Workspace`; models and stores
are numbered in the order they were made, and a model or model store refers to its record store
and pool by number. Numbers are what clients hold, so two holders of one number share the model.
-/

namespace TreeArena

/-- A model: its record (null for a null model), the record store and pool it uses, its memoized
tree, and whether it was evicted from its window. -/
structure Model where
  record : Record
  store : Nat
  pool : Nat
  expression : Handle
  evicted : Bool
deriving Repr, Inhabited

/-- A model store: record store, pool and extension, the memo window (model numbers) starting at
record `first`, and the checksum the window was filled under. -/
structure ModelStore where
  store : Nat
  pool : Nat
  extension : String
  memo : Array (Option Nat)
  first : Int64
  checksum : UInt64
deriving Repr, Inhabited

/-- Record stores, pools, models and model stores of one client. -/
structure Workspace where
  heap : Heap
  stores : Array Backend
  models : Array Model
  modelStores : Array ModelStore
deriving Inhabited

/-- Why a workspace operation stopped: a pool contract fault, a store error, or a read outside
an arena's buffer. -/
inductive WorkError where
  | fault (f : Fault)
  | store (e : StoreError)
  | crash (e : BoundsError)
deriving Repr

/-- Workspace operations, keeping the effects made before an error. -/
abbrev WorkM := EStateM WorkError Workspace

/-- Window size used when none is given. -/
def defaultMemoized : Nat := 5

namespace Workspace

/-- Runs a handle operation on the heap, taken out of the workspace while it runs so that it is
updated in place. -/
def heapOp {α : Type} (m : HeapM α) : WorkM α := fun w =>
  let h := w.heap
  let w := { w with heap := default }
  match m.run h with
  | .ok a h => .ok a { w with heap := h }
  | .error e h => .error (.fault e) { w with heap := h }

/-- Runs a store operation on record store `k`, returning its error as a value. -/
def tryStore {α : Type} (k : Nat) (m : StoreM α) : WorkM (Except StoreError α) := fun w =>
  match w.stores[k]? with
  | none => .ok (.error .closed) w
  | some b =>
    let w := { w with stores := w.stores.setIfInBounds k default }
    match m.run b with
    | .ok a b' => .ok (.ok a) { w with stores := w.stores.setIfInBounds k b' }
    | .error e b' => .ok (.error e) { w with stores := w.stores.setIfInBounds k b' }

/-- Runs a store operation on record store `k`; its error stops the workspace operation. -/
def onStore {α : Type} (k : Nat) (m : StoreM α) : WorkM α := do
  match ← tryStore k m with
  | .ok a => return a
  | .error e => throw (.store e)

/-- Model number `j`. -/
def model (j : Nat) : WorkM Model := do
  return ((← get).models[j]?).getD default

/-- Rewrites model number `j`. -/
def setModel (j : Nat) (m : Model) : WorkM Unit :=
  modify fun w => { w with models := w.models.setIfInBounds j m }

/-- Adds a model and returns its number. -/
def addModel (m : Model) : WorkM Nat := do
  let w ← get
  set { w with models := w.models.push m }
  return w.models.size

/-- Model store number `s`. -/
def modelStore (s : Nat) : WorkM ModelStore := do
  return ((← get).modelStores[s]?).getD default

/-- Rewrites model store number `s`. -/
def setModelStore (s : Nat) (ms : ModelStore) : WorkM Unit :=
  modify fun w => { w with modelStores := w.modelStores.setIfInBounds s ms }

/-- Adds a model store over record store `store` and pool `pool`; a window size of zero or less
selects the default. -/
def addModelStore (store pool : Nat) (ext : String) (memoized : Int) : WorkM Nat := do
  let k := if memoized ≤ 0 then defaultMemoized else memoized.toNat
  let w ← get
  let ms : ModelStore := ⟨store, pool, ext, Array.replicate k none, 0, 0⟩
  set { w with modelStores := w.modelStores.push ms }
  return w.modelStores.size

/-! ## Models -/

/-- Whether model `j` has a record whose value is present and non-empty. -/
def isDefined (j : Nat) : WorkM Bool := do
  let m ← model j
  if m.record.isNull then return false
  match ← tryStore m.store (Store.value m.record) with
  | .ok v => return !v.isEmpty
  | .error _ => return false

/-- Gives back the memoized tree's unit, if the tree is live. -/
def tidy (j : Nat) : WorkM Unit := do
  let m ← model j
  if (← get).heap.isDefined m.expression then
    let e ← heapOp (Heap.release m.expression)
    setModel j { m with expression := e }

/-- Gives back the memoized tree and marks the model evicted. -/
def evict (j : Nat) : WorkM Unit := do
  tidy j
  let m ← model j
  setModel j { m with evicted := true }

/-- An owning handle on model `j`'s tree, read into its pool on first use. A null model, or a
record that is missing or empty, gives the pool's handle naming no node. The handle and, if the
store failed, its error. -/
def expression (j : Nat) : WorkM (Handle × Option StoreError) := do
  let m ← model j
  if (← get).heap.isDefined m.expression then
    return (← heapOp (Heap.copy m.expression), none)
  let undefined := Handle.undefinedIn m.pool
  if m.record.isNull then return (undefined, none)
  match ← tryStore m.store (Store.value m.record) with
  | .error e => return (undefined, if e.isNotFound then none else some e)
  | .ok [] => return (undefined, none)
  | .ok v =>
    match ← heapOp (Heap.decodeInto m.pool v) with
    | .error e => return (undefined, some (.malformed m.record.text e))
    | .ok r =>
      if (← get).heap.isFailure r ∨ m.evicted then return (r, none)
      let c ← heapOp (Heap.copy r)
      setModel j { (← model j) with expression := c }
      return (r, none)

/-- The encoding of the subtree at position `i` of pool `k`, read from the bytes of pool
`target`. In its own pool this is the subtree's encoding; in another pool the subtree's byte
offset is read in that pool's buffer, whatever lies there. -/
def exportInto (target k i : Nat) : WorkM (List UInt8) := do
  if k = target then return ← heapOp (Heap.readPool target fun p => p.exportAt i)
  let off ← heapOp (Heap.readPool k fun p => p.nodes.offset i)
  let buf ← heapOp (Heap.readPool target fun p => p.nodes.image p.capacity)
  match Arena.exportFrom buf off with
  | .ok bytes => return bytes
  | .error e => throw (.crash e)

/-- Stores the encoding of `r`'s subtree as model `j`'s value and gives back its memoized tree.
A null model and an allocation failure are refused. The subtree is found through `r` and read
from the model's pool (`exportInto`). -/
def setExpression (j : Nat) (r : Handle) : WorkM Unit := do
  let m ← model j
  if m.record.isNull then throw (.store .nullRecord)
  if (← get).heap.isFailure r then throw (.store (.incomplete m.record.text))
  let i ← heapOp (Heap.locate r)
  let bytes ← exportInto m.pool (r.home.getD m.pool) i
  onStore m.store (Store.put m.record bytes)
  tidy j

/-! ## Model stores -/

/-- A new null model of model store `s`. -/
def nullModel (s : Nat) : WorkM Nat := do
  let ms ← modelStore s
  addModel ⟨Record.null, ms.store, ms.pool, Handle.zero, true⟩

/-- Evicts the models of the slots `slots`, first to last; empty slots are skipped. -/
def evictAll : List (Option Nat) → WorkM Unit
  | [] => pure ()
  | none :: slots => evictAll slots
  | some j :: slots => do
    evict j
    evictAll slots

/-- Evicts every memoized model and empties the window. -/
def invalidate (s : Nat) : WorkM Unit := do
  let ms ← modelStore s
  evictAll ms.memo.toList
  setModelStore s { ms with memo := Array.replicate ms.memo.size none }

/-- Shift that brings record `i` into a window of `k` starting at `first`, if it is outside; the
arithmetic wraps at sixty-four bits. -/
def shiftFor (i first : Int64) (k : Nat) : Option Int64 :=
  let k64 := k.toInt64
  if i < first then some (i - first)
  else if i ≥ first + k64 then some (i - (first + k64 - 1))
  else none

/-- Moves the models of the slots `js` of `memo`, a window of `k`, by `delta` into `next`, evicting
in slot order those that leave the window. -/
def shiftSlots (memo : Array (Option Nat)) (k : Nat) (delta : Int64) :
    List Nat → Array (Option Nat) → WorkM (Array (Option Nat))
  | [], next => pure next
  | j :: js, next =>
    match memo[j]?.getD none with
    | none => shiftSlots memo k delta js next
    | some mj =>
      let dst := j.toInt64 - delta
      if 0 ≤ dst ∧ dst < k.toInt64 then
        shiftSlots memo k delta js (next.setIfInBounds dst.toNatClampNeg (some mj))
      else do
        evict mj
        shiftSlots memo k delta js next

/-- Slides the window of model store `s` to hold record `i`, evicting the models that leave it. -/
def slide (s : Nat) (i : Int64) : WorkM Unit := do
  let ms ← modelStore s
  let k := ms.memo.size
  match shiftFor i ms.first k with
  | none => return
  | some delta =>
    let next ← shiftSlots ms.memo k delta (List.range k) (Array.replicate k none)
    setModelStore s { ms with memo := next, first := ms.first + delta }

/-- Empties the window of model store `s` if its record store's checksum changed since the window
was filled, and records the new checksum. -/
def refresh (s : Nat) : WorkM Unit := do
  let ms ← modelStore s
  let cs ← onStore ms.store Store.checksum
  if cs ≠ ms.checksum then
    invalidate s
    setModelStore s { (← modelStore s) with checksum := cs }

/-- The model of record `i` through a window that holds it: the one memoized in its slot, or a new
one memoized there; a record out of range gives a new null model. -/
def lookup (s : Nat) (i : Int) : WorkM Nat := do
  let ms ← modelStore s
  let slot := (i.toInt64 - ms.first).toInt
  if slot < 0 then return ← nullModel s
  match ms.memo[slot.toNat]? with
  | none => nullModel s
  | some (some j) => return j
  | some none =>
    let found ← onStore ms.store (Store.atIndex ms.extension i)
    if found.isNull then return ← nullModel s
    let j ← addModel ⟨found, ms.store, ms.pool, Handle.zero, false⟩
    let ms ← modelStore s
    setModelStore s { ms with memo := ms.memo.setIfInBounds slot.toNat (some j) }
    return j

/-- The model of record `i` with the store's extension, through the window; a negative or
out-of-range index gives a new null model. -/
def modelAt (s : Nat) (i : Int) : WorkM Nat := do
  if i < 0 then return ← nullModel s
  slide s i.toInt64
  refresh s
  lookup s i

/-- Number of records with the store's extension. -/
def modelCount (s : Nat) : WorkM Nat := do
  let ms ← modelStore s
  onStore ms.store (Store.countWithExtension ms.extension)

/-- Counts the defined models among models `j` to `j + n - 1`. -/
def countDefinedFrom (s : Nat) (j : Nat) : Nat → WorkM Nat
  | 0 => pure 0
  | n + 1 => do
    let m ← modelAt s j
    let here := if ← isDefined m then 1 else 0
    return here + (← countDefinedFrom s (j + 1) n)

/-- Number of models with a non-empty value. -/
def definedCount (s : Nat) : WorkM Nat := do
  countDefinedFrom s 0 (← modelCount s)

/-- The `i`-th defined model among models `j` to `j + n - 1`, `seen` defined ones having been
passed. -/
def definedFrom (s : Nat) (i : Int) (seen j : Nat) : Nat → WorkM (Option Nat)
  | 0 => pure none
  | n + 1 => do
    let m ← modelAt s j
    if !(← isDefined m) then return ← definedFrom s i seen (j + 1) n
    if seen = i then return some m
    definedFrom s i (seen + 1) (j + 1) n

/-- The `i`-th defined model, or a new null model when there are not that many. -/
def definedModelAt (s : Nat) (i : Int) : WorkM Nat := do
  match ← definedFrom s i 0 0 (← modelCount s) with
  | some m => return m
  | none => nullModel s

/-- The first record named `name`'s position among `rs`, counting from `i`. -/
def positionOf (name : String) : List Record → Nat → Option Nat
  | [], _ => none
  | r :: rs, i => if r.name = name then some i else positionOf name rs (i + 1)

/-- An owning handle on the tree stored under `name`, and whether it names a node. Any error
gives the pool's handle naming no node. -/
def resolve (s : Nat) (name : String) : WorkM (Handle × Bool) := do
  let ms ← modelStore s
  let undefined := Handle.undefinedIn ms.pool
  match ← tryStore ms.store (Store.withExtension ms.extension) with
  | .error _ => return (undefined, false)
  | .ok rs =>
    match positionOf name rs 0 with
    | none => return (undefined, false)
    | some i =>
      let m ← tryCatch (do return some (← modelAt s i)) fun e =>
        match e with
        | .store _ => pure none
        | e => throw e
      match m with
      | none => return (undefined, false)
      | some m =>
        let (r, err) ← expression m
        if err.isSome then return (undefined, false)
        return (r, (← get).heap.isDefined r)

/-- Evicts the window and deletes every record with the store's extension. -/
def removeAll (s : Nat) : WorkM Unit := do
  invalidate s
  let ms ← modelStore s
  onStore ms.store (Store.destroyWithExtension ms.extension)

/-- Evicts the window; the model store stays usable. -/
def closeModels (s : Nat) : WorkM Unit := invalidate s

end Workspace

end TreeArena
