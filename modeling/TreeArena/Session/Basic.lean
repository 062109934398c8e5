import TreeArena.Records.Models
import TreeArena.Pool.Audit

/-!
# Sessions

A session drives pools, a record store and model stores through a list of steps. It keeps named
variables: handles, models and model stores. A handle variable never assigned holds the zero
handle; a model or model-store variable never assigned cannot be used.

This module holds the steps, the replies, what a script asks for and what it answers.
-/

namespace TreeArena

/-- Where a `put` takes its value from. -/
inductive Source where
  | bytes (b : List UInt8)
  | tree (ref : String)
deriving Repr, Inhabited

/-- One step of a session. Names are variables; `pool` is a pool number. -/
inductive Step where
  | create (dst : String) (pool : Nat) (kind : Nat) (payload : List UInt8)
  | integer (dst : String) (pool : Nat) (value : Int)
  | symbol (dst : String) (pool : Nat) (name : String)
  | operator (dst : String) (pool : Nat) (kind : Nat) (args : List String)
  | opposite (dst : String) (pool : Nat) (arg : String)
  | failure (dst : String) (pool : Nat)
  | undefined (dst : String) (pool : Nat)
  | zero (dst : String)
  | alias (dst src : String)
  | copy (dst src : String) (times : Int)
  | assign (ref src : String)
  | release (ref : String)
  | nest (dst : String) (pool : Nat) (depth : Int)
  | appendInts (ref : String) (count start : Int)
  | isDefined (ref : String)
  | isFailure (ref : String)
  | equal (ref other : String)
  | identifier (ref : String)
  | kind (ref : String)
  | payload (ref : String)
  | retainCount (ref : String)
  | children (ref : String)
  | descendants (ref : String) (self : Bool)
  | indexOf (ref other : String)
  | hasChild (ref other : String)
  | hasSibling (ref other : String)
  | hasAncestor (ref other : String) (self : Bool)
  | child (dst ref : String) (index : Int)
  | parent (dst ref : String)
  | addChild (ref child : String) (index : Int) (count : Option Int)
  | removeChildAt (ref : String) (index : Int)
  | removeChild (ref child : String) (count : Option Int)
  | removeChildren (ref : String)
  | replaceWith (ref with_ : String)
  | replaceChild (ref old new : String)
  | replaceChildAt (ref : String) (index : Int) (new : String)
  | replaceWithFailure (ref : String) (count : Option Int)
  | merge (ref tree : String) (index : Int)
  | flatten (ref : String)
  | clone (dst ref : String)
  | encode (ref : String)
  | decode (dst : String) (pool : Nat) (data : List UInt8)
  | setLimit (pool : Nat) (n : Int)
  | stats (pool : Nat)
  | audit (pool : Nat)
  | render (ref : String)
  | integerValue (ref : String)
  | symbolName (ref : String)
  | put (name ext : String) (value : Source)
  | get (name ext : String)
  | destroy (name ext : String)
  | list (ext : String)
  | count (ext : String)
  | recordAt (ext : String) (index : Int)
  | destroyExtension (ext : String)
  | checksum
  | rawSet (key : String) (value : List UInt8)
  | rawGet (key : String)
  | rawDelete (key : String)
  | rawKeys (pre : String)
  | closeStore
  | reopen
  | modelStore (dst ext : String) (memoized : Int) (pool : Nat)
  | modelCount (store : String)
  | definedCount (store : String)
  | modelAt (store : String) (index : Int) (dst : String)
  | definedModelAt (store : String) (index : Int) (dst : String)
  | sameModel (model other : String)
  | modelDefined (model : String)
  | modelExpression (model dst : String)
  | setModelExpression (model ref : String)
  | resolve (store name dst : String)
  | removeAll (store : String)
  | closeModels (store : String)
deriving Repr, Inhabited

/-- Answer to one step. -/
inductive Reply where
  | done
  | node (id : NodeId)
  | flag (b : Bool)
  | number (n : Int)
  | text (s : String)
  | bytes (b : List UInt8)
  | usage (s : Pool.Stats)
  | audit (findings : Option String)
  | integer (v : Int) (ok : Bool)
  | symbol (name : String) (ok : Bool)
  | names (l : List String)
  /-- No list at all. -/
  | noNames
  | record (text : String) (isNull : Bool)
  | model (text : String) (isNull : Bool)
  | checksum (c : UInt64)
  | resolved (id : NodeId) (ok : Bool)
  | failed (cause : Cause) (message : String)
  /-- A failure that still names the handle the step stored. -/
  | failedWith (cause : Cause) (message : String) (id : NodeId)
deriving Repr, Inhabited

/-- The observable state of a pool after a step. -/
structure Snapshot where
  limit : Nat
  used : Nat
  live : Nat
  failures : Nat
  nodes : List (NodeId × Nat)
  findings : Option String
deriving Repr, Inhabited

/-- What the record store of a session runs on: memory, an in-memory database, or a database in a
directory that can be closed and opened again. -/
inductive StoreChoice where
  | memory
  | database
  | databaseDir
deriving DecidableEq, Repr, Inhabited

/-- How to build one pool of a session. -/
structure PoolSpec where
  capacity : Int
  maxNodes : Option Int := none
  limit : Option Int := none
  logs : Bool := false
  reports : Bool := false
deriving Repr, Inhabited

/-- A session script; a step that could not be read carries the reason. -/
structure Script where
  pools : List PoolSpec
  steps : List (Except String Step)
  trace : Bool
  store : StoreChoice
deriving Repr, Inhabited

/-- Answer to one step with what was reported during it and, when tracing, the pools' states. -/
structure StepAnswer where
  reply : Reply
  notices : List Notice
  state : Option (List Snapshot)
deriving Repr, Inhabited

/-- Answer to a script: a pool that could not be built, a setup that crashed, or the steps'
answers and final states. -/
inductive ScriptAnswer where
  | refused (pool : Nat) (e : SetupError)
  | crashed (message : String)
  | ran (created : List Notice) (steps : List StepAnswer) (final : List Snapshot)
deriving Repr, Inhabited

/-- A session: the workspace, the current record store, whether it can be reopened, and the
variables. -/
structure Session where
  work : Workspace
  current : Nat
  reopenable : Bool
  handles : List (String × Handle)
  models : List (String × Nat)
  modelStores : List (String × Nat)
deriving Inhabited

/-- Session steps; an error stops the step with its reply, keeping the effects made before. -/
abbrev SessionM := EStateM Reply Session

namespace Pool

/-- The observable state of the pool. -/
def snapshot (p : Pool) : Snapshot :=
  ⟨p.limit, p.used, p.slots.live, p.failures, p.listing, p.audit⟩

end Pool

end TreeArena
