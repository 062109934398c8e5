import TreeArena.Text.Quoted
import TreeArena.Text.Utf8
import TreeArena.Pool.Basic
import TreeArena.Records.Models

/-!
# Configuration

The configuration has three sections: the pool (arena size and identifier-table size), the
records (store backend, its directory, the extension of model records and how many models stay
memoized) and the log (level and format).

Text values are bytes: a value written in base64 under `!!binary` may decode to bytes that are
not UTF-8, and they are kept as they are. Rules compare them byte for byte, and error texts
quote them byte for byte.
-/

namespace TreeArena

/-- The bytes of a text. -/
def textBytes (s : String) : List UInt8 := s.toUTF8.toList

/-- The pool section: arena size in bytes and identifier-table size (zero derives it). -/
structure PoolSettings where
  capacity : Int
  maxNodes : Int
deriving Repr, Inhabited, DecidableEq

/-- The records section: backend (`memory` or `badger`), its directory (empty keeps it in
memory), the extension of model records and how many models stay memoized. -/
structure RecordSettings where
  backend : List UInt8
  dir : List UInt8
  extension : List UInt8
  memoized : Int
deriving Repr, Inhabited, DecidableEq

/-- The log section: level and format. -/
structure LogSettings where
  level : List UInt8
  format : List UInt8
deriving Repr, Inhabited, DecidableEq

/-- The whole configuration. -/
structure Config where
  pool : PoolSettings
  records : RecordSettings
  log : LogSettings
deriving Repr, Inhabited, DecidableEq

/-- Why a configuration text was refused: it could not be read, it breaks a rule, or reading it
crashed. -/
inductive ConfigError where
  | unreadable (message : String)
  | invalid (detail : String)
  | crashed (message : String)
deriving Repr, Inhabited, DecidableEq

namespace ConfigError

/-- The error text. -/
def message : ConfigError → String
  | .unreadable m => "parse config: " ++ m
  | .invalid d => "invalid configuration: " ++ d
  | .crashed m => m

end ConfigError

namespace Config

/-- The configuration used when no file is given. -/
def default : Config :=
  ⟨⟨32 * 1024, 0⟩, ⟨textBytes "memory", [], textBytes "exp", defaultMemoized⟩,
    ⟨textBytes "info", textBytes "text"⟩⟩

/-- Whether bytes spell one of the words. -/
def isOneOf (bs : List UInt8) (words : List String) : Bool :=
  words.any fun w => textBytes w == bs

/-- The first rule the configuration breaks, if any: the capacity lies within the pool's range,
the table size is not negative, the backend is known, the extension is not empty, at least one
model stays memoized, and level and format are known. -/
def validate (c : Config) : Option String :=
  let capacity := c.pool.capacity
  let maxNodes := c.pool.maxNodes
  if capacity < (minCapacity : Int) || capacity > (maxCapacity : Int) then
    some s!"pool.capacity {capacity} outside [{minCapacity}, {maxCapacity}]"
  else if maxNodes < 0 then some s!"pool.max_nodes {maxNodes} is negative"
  else if !(isOneOf c.records.backend ["memory", "badger"]) then
    some ("records.backend " ++ Quoted.quoteBytes c.records.backend)
  else if c.records.extension.isEmpty then some "records.extension is empty"
  else if c.records.memoized < 1 then some "records.memoized_models must be positive"
  else if !(isOneOf c.log.level ["debug", "info", "warn", "error"]) then
    some ("log.level " ++ Quoted.quoteBytes c.log.level)
  else if !(isOneOf c.log.format ["text", "json"]) then
    some ("log.format " ++ Quoted.quoteBytes c.log.format)
  else none

/-- The pool options the configuration asks for: a table size only when it is positive. -/
def poolOptions (c : Config) : PoolOptions :=
  { maxNodes := if c.pool.maxNodes > 0 then some c.pool.maxNodes else none }

/-- Whether the records live in the database backend. -/
def usesDatabase (c : Config) : Bool := c.records.backend == textBytes "badger"

end Config

end TreeArena
