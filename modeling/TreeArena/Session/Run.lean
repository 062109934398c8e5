import TreeArena.Session.Steps

/-!
# Running a script

The pools are built in order, numbered from zero, each with its limit applied; the first that
cannot be built ends the script. Then each step runs in turn, a step that could not be read
answering as a malformed request. After each step the pools' journals are collected, pool by
pool, and when tracing the state of every pool is reported.
-/

namespace TreeArena

namespace Session

/-- Builds pools `k, k+1, …` from the specs, stopping at the first that cannot be built. -/
def buildPools : Nat → List PoolSpec → Except (Nat × SetupError) (List Pool)
  | _, [] => .ok []
  | k, spec :: rest => do
    let p ← match Pool.new k spec.capacity ⟨spec.maxNodes, spec.logs, spec.reports⟩ with
      | .ok p => pure p
      | .error e => throw (k, e)
    let p := match spec.limit with
      | none => p
      | some n => p.withLimit n
    return p :: (← buildPools (k + 1) rest)

/-- Takes every pool's journal, pool by pool. -/
def collect (s : Session) : List Notice × Session :=
  let h := s.work.heap
  let notices := h.pools.toList.flatMap fun p => p.journal.toList
  let pools := h.pools.map fun p => { p with journal := #[] }
  (notices, { s with work := { s.work with heap := ⟨pools⟩ } })

/-- The states of all pools. -/
def snapshots (s : Session) : List Snapshot := s.work.heap.pools.toList.map Pool.snapshot

/-- Runs one step, or answers a step that could not be read. -/
def answer (trace : Bool) (s : Session) (step : Except String Step) : StepAnswer × Session :=
  let (reply, s) := match step with
    | .error msg => (Reply.failed .badInput msg, s)
    | .ok st =>
      match (perform st).run s with
      | .ok r s' => (r, s')
      | .error r s' => (r, s')
  let (notices, s) := collect s
  (⟨reply, notices, if trace then some (snapshots s) else none⟩, s)

/-- Runs the steps in order. -/
def answerAll (trace : Bool) : Session → List (Except String Step) → List StepAnswer × Session
  | s, [] => ([], s)
  | s, st :: rest =>
    let (a, s) := answer trace s st
    let (as, s) := answerAll trace s rest
    (a :: as, s)

/-- The engine of a store choice. -/
def engineOf : StoreChoice → Engine
  | .memory => .memory
  | .database => .database true
  | .databaseDir => .database false

/-- Runs a script. A table length that cannot be allocated crashes it. -/
def runScript (script : Script) : ScriptAnswer :=
  match buildPools 0 script.pools with
  | .error (_, .tableLength n) => .crashed (SetupError.tableLength n).message
  | .error (k, e) => .refused k e
  | .ok pools =>
    let s0 : Session :=
      { work := ⟨⟨pools.toArray⟩, #[Backend.empty (engineOf script.store)], #[], #[]⟩,
        current := 0, reopenable := script.store == .databaseDir, handles := [], models := [],
        modelStores := [] }
    let (created, s1) := collect s0
    let (steps, s2) := answerAll script.trace s1 script.steps
    .ran created steps (snapshots s2)

end Session

end TreeArena
