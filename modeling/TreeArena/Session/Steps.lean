import TreeArena.Session.Basic
import TreeArena.Expr.Flatten
import TreeArena.Text.Utf8

/-!
# What each step does

Each step reads its variables, calls the library and stores what it made. A contract fault or a
store error ends the step with a failed reply; whatever the step changed before that stays,
variables included. Expression constructors take their operands over: the operand variables are
cleared before the call, keeping their pool.
-/

namespace TreeArena

namespace Session

/-- The handle a variable holds; the zero handle if it was never assigned. -/
def handle (name : String) : SessionM Handle := do
  return ((← get).handles.lookup name).getD Handle.zero

/-- Stores a handle in a variable. -/
def setHandle (name : String) (h : Handle) : SessionM Unit :=
  modify fun s => { s with handles := (name, h) :: s.handles.filter (·.1 != name) }

/-- The model a variable holds. -/
def model (name : String) : SessionM Nat := do
  match (← get).models.lookup name with
  | some j => return j
  | none => throw (.failed .badInput ("no model " ++ Quoted.quote name))

/-- Stores a model in a variable. -/
def setModel (name : String) (j : Nat) : SessionM Unit :=
  modify fun s => { s with models := (name, j) :: s.models.filter (·.1 != name) }

/-- The model store a variable holds. -/
def modelStore (name : String) : SessionM Nat := do
  match (← get).modelStores.lookup name with
  | some j => return j
  | none => throw (.failed .badInput ("no model store " ++ Quoted.quote name))

/-- Stores a model store in a variable. -/
def setModelStore (name : String) (j : Nat) : SessionM Unit :=
  modify fun s => { s with modelStores := (name, j) :: s.modelStores.filter (·.1 != name) }

/-- The failed reply of a fault. -/
def faultReply (f : Fault) : Reply := .failed f.cause f.message

/-- The failed reply of a workspace error. -/
def workReply : WorkError → Reply
  | .fault f => faultReply f
  | .store e => .failed e.cause e.message
  | .crash e => .failed .crash e.message

/-- Runs a workspace operation, returning its error as a value. -/
def tryWork {α : Type} (m : WorkM α) : SessionM (Except WorkError α) := fun s =>
  let w := s.work
  let s := { s with work := default }
  match m.run w with
  | .ok a w => .ok (.ok a) { s with work := w }
  | .error e w => .ok (.error e) { s with work := w }

/-- Runs a workspace operation; its error ends the step. -/
def onWork {α : Type} (m : WorkM α) : SessionM α := do
  match ← tryWork m with
  | .ok a => return a
  | .error e => throw (workReply e)

/-- Runs a handle operation; a fault ends the step. -/
def onHeap {α : Type} (m : HeapM α) : SessionM α := onWork (Workspace.heapOp m)

/-- Runs a handle operation, returning a fault as a value. -/
def tryHeap {α : Type} (m : HeapM α) : SessionM (Except WorkError α) :=
  tryWork (Workspace.heapOp m)

/-- Runs an operation of the current record store. -/
def onStore {α : Type} (m : StoreM α) : SessionM α := do
  onWork (Workspace.onStore (← get).current m)

/-- Refuses a pool number the session does not have. -/
def checkPool (k : Nat) : SessionM Unit := do
  if k ≥ (← get).work.heap.pools.size then
    throw (.failed .badInput ("pool " ++ toString k ++ " out of range"))

/-- A children count given by the caller, or else the node's own, or zero if it cannot be read. -/
def countOr (given : Option Int) (r : Handle) : SessionM Int := do
  match given with
  | some n => return n
  | none =>
    match ← tryHeap (Heap.childCount r) with
    | .ok n => return n
    | .error _ => return 0

/-- Wraps to a signed sixty-four-bit value. -/
def wrap64 (x : Int) : Int := x.toInt64.toInt

/-- Adds integer terms `start + i` at the end of `r` while fewer than `count` were tried and `r`
is no failure; returns how many were added. A failed allocation degrades `r`, so the loop runs
at most once per slot beyond the first. -/
def appendInts (r : Handle) (start : Int) : (fuel : Nat) → (i added : Nat) → HeapM Nat
  | 0, _, added => pure added
  | fuel + 1, i, added => do
    if (← get).isFailure r then return added
    let n ← Heap.childCount r
    let term ← Expr.integer (r.home.getD 0) (wrap64 (start + i))
    Heap.addChild r term n n
    let _ ← Heap.release term
    let added := if (← get).isFailure r then added else added + 1
    appendInts r start fuel (i + 1) added

/-- Copies `r` up to `n` more times into variable `dst`; a fault keeps the last copy made. -/
def copyInto (dst : String) (r : Handle) : Nat → SessionM Unit
  | 0 => pure ()
  | n + 1 => do
    let c ← onHeap (Heap.copy r)
    setHandle dst c
    copyInto dst r n

/-- Wraps the opposite around `r` `n` times. -/
def nestOpposites (k : Nat) (r : Handle) : Nat → HeapM Handle
  | 0 => pure r
  | n + 1 => do nestOpposites k (← Expr.opposite k r) n

/-- Runs one step. -/
def perform : Step → SessionM Reply
  | .create dst k kind payload => do
    checkPool k
    let h ← onHeap (Heap.create k kind payload)
    setHandle dst h
    return .node h.id
  | .integer dst k v => do
    checkPool k
    let h ← onHeap (Expr.integer k v)
    setHandle dst h
    return .node h.id
  | .symbol dst k name => do
    checkPool k
    let h ← onHeap (Expr.symbol k name)
    setHandle dst h
    return .node h.id
  | .operator dst k kind args => do
    checkPool k
    let hs ← args.mapM handle
    for a in args do setHandle a (← handle a).givenUp
    let h ← onHeap (Expr.operator k kind hs)
    setHandle dst h
    return .node h.id
  | .opposite dst k arg => do
    checkPool k
    let c ← handle arg
    setHandle arg c.givenUp
    let h ← onHeap (Expr.opposite k c)
    setHandle dst h
    return .node h.id
  | .failure dst k => do
    checkPool k
    let h ← onHeap (Heap.failureOf k)
    setHandle dst h
    return .node h.id
  | .undefined dst k => do
    checkPool k
    setHandle dst (Handle.undefinedIn k)
    return .node NodeId.none
  | .zero dst => do
    setHandle dst Handle.zero
    return .node Handle.zero.id
  | .alias dst src => do
    let h ← handle src
    setHandle dst h
    return .node h.id
  | .copy dst src times => do
    let r ← handle src
    if times < 0 then return .node Handle.zero.id
    if times = 0 then
      setHandle dst Handle.zero
    else
      copyInto dst r times.toNat
    return .node (← handle dst).id
  | .assign ref src => do
    let h ← onHeap (Heap.assign (← handle ref) (← handle src))
    setHandle ref h
    return .node h.id
  | .release ref => do
    let h ← onHeap (Heap.release (← handle ref))
    setHandle ref h
    return .done
  | .nest dst k depth => do
    checkPool k
    let h ← onHeap (do nestOpposites k (← Expr.integer k 0) depth.toNat)
    setHandle dst h
    return .node h.id
  | .appendInts ref count start => do
    let r ← handle ref
    let fuel := min count.toNat (maxSlots + 2)
    return .number (← onHeap (appendInts r start fuel 0 0))
  | .isDefined ref => do return .flag ((← get).work.heap.isDefined (← handle ref))
  | .isFailure ref => do return .flag ((← get).work.heap.isFailure (← handle ref))
  | .equal ref other => do return .flag ((← handle ref) == (← handle other))
  | .identifier ref => do return .text (← handle ref).id.text
  | .kind ref => do return .number (← onHeap (Heap.kind (← handle ref)))
  | .payload ref => do return .bytes (← onHeap (Heap.payload (← handle ref)))
  | .retainCount ref => do return .number (← onHeap (Heap.retainCount (← handle ref)))
  | .children ref => do return .number (← onHeap (Heap.childCount (← handle ref)))
  | .descendants ref self => do return .number (← onHeap (Heap.descendants (← handle ref) self))
  | .indexOf ref other => do
    return .number (← onHeap (Heap.indexOf (← handle ref) (← handle other)))
  | .hasChild ref other => do
    return .flag (← onHeap (Heap.hasChild (← handle ref) (← handle other)))
  | .hasSibling ref other => do
    return .flag (← onHeap (Heap.hasSibling (← handle ref) (← handle other)))
  | .hasAncestor ref other self => do
    return .flag (← onHeap (Heap.hasAncestor (← handle ref) (← handle other) self))
  | .child dst ref i => do
    let h ← onHeap (Heap.childAt (← handle ref) i)
    setHandle dst h
    return .node h.id
  | .parent dst ref => do
    let h ← onHeap (Heap.parent (← handle ref))
    setHandle dst h
    return .node h.id
  | .addChild ref child i count => do
    let r ← handle ref
    let n ← countOr count r
    onHeap (Heap.addChild r (← handle child) i n)
    return .done
  | .removeChildAt ref i => do
    onHeap (Heap.removeChildAt (← handle ref) i)
    return .done
  | .removeChild ref child count => do
    let c ← handle child
    let n ← countOr count c
    onHeap (Heap.removeChild (← handle ref) c n)
    return .done
  | .removeChildren ref => do
    onHeap (Heap.removeChildren (← handle ref))
    return .done
  | .replaceWith ref t => do
    onHeap (Heap.replaceWith (← handle ref) (← handle t))
    return .done
  | .replaceChild ref old new => do
    onHeap (Heap.replaceChild (← handle ref) (← handle old) (← handle new))
    return .done
  | .replaceChildAt ref i new => do
    onHeap (Heap.replaceChildAt (← handle ref) i (← handle new))
    return .done
  | .replaceWithFailure ref count => do
    let r ← handle ref
    let n ← countOr count r
    onHeap (Heap.replaceWithFailure r n)
    return .done
  | .merge ref tree i => do
    onHeap (Heap.merge (← handle ref) (← handle tree) i)
    return .done
  | .flatten ref => do
    onHeap (Expr.flatten (← handle ref))
    return .done
  | .clone dst ref => do
    let h ← onHeap (Heap.clone (← handle ref))
    setHandle dst h
    return .node h.id
  | .encode ref => do return .bytes (← onHeap (Heap.encodeTree (← handle ref)))
  | .decode dst k data => do
    checkPool k
    match ← onHeap (Heap.decodeInto k data) with
    | .error e =>
      setHandle dst (Handle.undefinedIn k)
      return .failedWith .malformedTree e.message NodeId.none
    | .ok h =>
      setHandle dst h
      return .node h.id
  | .setLimit k n => do
    checkPool k
    onHeap (Heap.onPool k (Pool.setLimit n))
    return .done
  | .stats k => do
    checkPool k
    return .usage (← onHeap (Heap.readPool k Pool.stats))
  | .audit k => do
    checkPool k
    return .audit (← onHeap (Heap.readPool k Pool.audit))
  | .render ref => do
    return .text (Utf8.decodeLossy (← onHeap (Expr.render (← handle ref))))
  | .integerValue ref => do
    let (v, ok) ← onHeap (Expr.integerValue (← handle ref))
    return .integer v ok
  | .symbolName ref => do
    let (name, ok) ← onHeap (Expr.symbolName (← handle ref))
    return .symbol (Utf8.decodeLossy name) ok
  | .put name ext src => do
    let bytes ← match src with
      | .bytes b => pure b
      | .tree ref => do onHeap (Heap.encodeTree (← handle ref))
    onStore (Store.put ⟨name, ext⟩ bytes)
    return .done
  | .get name ext => do return .bytes (← onStore (Store.value ⟨name, ext⟩))
  | .destroy name ext => do
    onStore (Store.destroy ⟨name, ext⟩)
    return .done
  | .list ext => do return .names ((← onStore (Store.withExtension ext)).map Record.text)
  | .count ext => do return .number (← onStore (Store.countWithExtension ext))
  | .recordAt ext i => do
    let r ← onStore (Store.atIndex ext i)
    return .record r.text r.isNull
  | .destroyExtension ext => do
    onStore (Store.destroyWithExtension ext)
    return .done
  | .checksum => do return .checksum (← onStore Store.checksum)
  | .rawSet key v => do
    onStore (Backend.put key v)
    return .done
  | .rawGet key => do return .bytes (← onStore (Backend.get? key))
  | .rawDelete key => do
    onStore (Backend.erase key)
    return .done
  | .rawKeys pre => do
    match ← onStore (Backend.listing pre) with
    | some ks => return .names ks
    | none => return .noNames
  | .closeStore => do
    onStore Backend.close
    return .done
  | .reopen => do
    let s ← get
    if !s.reopenable then throw (.failed .badInput "reopen needs the badger_dir backend")
    onStore Backend.close
    let s ← get
    let entries := ((s.work.stores[s.current]?).map Backend.entries).getD []
    let w := s.work
    set { s with work := { w with stores := w.stores.push ⟨.database false, entries, false⟩ },
                 current := w.stores.size }
    return .done
  | .modelStore dst ext memoized k => do
    checkPool k
    let j ← onWork (Workspace.addModelStore (← get).current k ext memoized)
    setModelStore dst j
    return .text ext
  | .modelCount st => do return .number (← onWork (Workspace.modelCount (← modelStore st)))
  | .definedCount st => do return .number (← onWork (Workspace.definedCount (← modelStore st)))
  | .modelAt st i dst => do
    let j ← onWork (Workspace.modelAt (← modelStore st) i)
    setModel dst j
    let m ← onWork (Workspace.model j)
    return .model m.record.text m.record.isNull
  | .definedModelAt st i dst => do
    let j ← onWork (Workspace.definedModelAt (← modelStore st) i)
    setModel dst j
    let m ← onWork (Workspace.model j)
    return .model m.record.text m.record.isNull
  | .sameModel a b => do
    match (← get).models.lookup b with
    | none => return .flag false
    | some j => return .flag ((← model a) == j)
  | .modelDefined m => do return .flag (← onWork (Workspace.isDefined (← model m)))
  | .modelExpression m dst => do
    let (h, err) ← onWork (Workspace.expression (← model m))
    setHandle dst h
    match err with
    | none => return .node h.id
    | some e => return .failedWith e.cause e.message h.id
  | .setModelExpression m ref => do
    onWork (Workspace.setExpression (← model m) (← handle ref))
    return .done
  | .resolve st name dst => do
    let (h, ok) ← onWork (Workspace.resolve (← modelStore st) name)
    setHandle dst h
    return .resolved h.id ok
  | .removeAll st => do
    onWork (Workspace.removeAll (← modelStore st))
    return .done
  | .closeModels st => do
    onWork (Workspace.closeModels (← modelStore st))
    return .done

end Session

end TreeArena
