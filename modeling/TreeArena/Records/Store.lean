import TreeArena.Text.Quoted
import TreeArena.Hash.Xxh64
import TreeArena.Encoding.Varint
import TreeArena.Encoding.TreeCode
import TreeArena.Cause
import TreeArena.Text.HexDump

/-!
# The record store

Records are values named `name.ext`: both parts non-empty and free of the separator. They are
kept in a key/value backend whose keys are listed in ascending order. Two engines are modelled:
an in-memory map that takes any key, and an embedded database that refuses the empty key, keys
under its reserved prefix and keys over `maxKeySize` bytes, and that refuses everything once
closed. The database runs in memory or in a directory; in memory it also refuses values over
`maxMemoryValue` bytes. A size it refuses is reported with a hex dump of the first kibibyte.

The store checks names before it touches the backend and wraps each backend error with what it
was doing. Its checksum is XXH64 over every entry in key order, each written as the key's length,
the key, the value's length and the value, lengths as unsigned varints.
-/

namespace TreeArena

/-- A record name: name and extension. Both empty is the null record. -/
structure Record where
  name : String
  ext : String
deriving DecidableEq, Repr, Inhabited

namespace Record

/-- The null record. -/
def null : Record := ⟨"", ""⟩

/-- Whether this is the null record. -/
def isNull (r : Record) : Bool := r.name == "" && r.ext == ""

/-- The separator between name and extension. -/
def separator : Char := '.'

/-- The backend key: name, separator, extension. -/
def key (r : Record) : String := r.name ++ "." ++ r.ext

/-- Text of a record; the null record reads `<null>`. -/
def text (r : Record) : String := if r.isNull then "<null>" else r.key

/-- Both parts non-empty and without the separator. -/
def isValid (r : Record) : Bool :=
  r.name != "" && r.ext != "" && !(r.name.toList.contains separator) &&
    !(r.ext.toList.contains separator)

/-- Splits a key at its first separator; the parts must form a valid record. -/
def ofKey (k : String) : Option Record :=
  let cs := k.toList
  if cs.contains separator then
    let r : Record :=
      ⟨String.ofList (cs.takeWhile (· != separator)),
       String.ofList ((cs.dropWhile (· != separator)).drop 1)⟩
    if r.isValid then some r else none
  else none

end Record

/-- Why a store operation failed. -/
inductive StoreError where
  | notFound
  | invalidName (name ext : String)
  | nullRecord
  | closed
  | emptyKey
  | reservedKey
  /-- An expression that is an allocation failure cannot be stored. -/
  | incomplete (record : String)
  /-- A stored value that is not an encoded tree. -/
  | malformed (record : String) (e : DecodeError)
  /-- A key or value (`what`) of `size` bytes over the database's `limit`, with its first
  bytes. -/
  | tooLarge (what : String) (size limit : Nat) (head : List UInt8)
  /-- An error met while doing what the context says. -/
  | within (context : String) (inner : StoreError)
deriving Repr

/-- Text of a store error: contexts first, each followed by a colon. -/
def StoreError.message : StoreError → String
  | .notFound => "record not found"
  | .invalidName n e => "invalid record name: " ++ Quoted.quote n ++ "." ++ Quoted.quote e
  | .nullRecord => "invalid record name: null record"
  | .closed => "DB Closed"
  | .emptyKey => "Key cannot be empty"
  | .reservedKey => "Key is using a reserved !badger! prefix"
  | .incomplete r => "store " ++ r ++ ": expression is incomplete"
  | .malformed r e => "import " ++ r ++ ": " ++ e.message
  | .tooLarge w n l head =>
    w ++ " with size " ++ toString n ++ " exceeded " ++ toString l ++ " limit. " ++ w ++ ":\n" ++
      hexDump head
  | .within c e => c ++ ": " ++ e.message

/-- The class of a store error: that of the error under its contexts. -/
def StoreError.cause : StoreError → Cause
  | .notFound => .notFound
  | .invalidName .. => .invalidName
  | .nullRecord => .invalidName
  | .incomplete _ => .incomplete
  | .malformed .. => .malformedTree
  | .within _ e => e.cause
  | _ => .other

/-- Whether the error, under its contexts, is a missing record. -/
def StoreError.isNotFound : StoreError → Bool
  | .notFound => true
  | .within _ e => e.isNotFound
  | _ => false

/-- The two key/value engines; the database runs in memory or in a directory. -/
inductive Engine where
  | memory
  | database (inMemory : Bool)
deriving DecidableEq, Repr, Inhabited

/-- Whether the engine is the database. -/
def Engine.isDatabase : Engine → Bool
  | .memory => false
  | .database _ => true

/-- A backend: its engine, its entries in ascending key order, and whether it was closed. -/
structure Backend where
  engine : Engine
  entries : List (String × List UInt8)
  closed : Bool
deriving Repr, Inhabited

/-- Backend and store operations: state over the backend, stopped by an error that keeps the
effects made before it. -/
abbrev StoreM := EStateM StoreError Backend

namespace Backend

/-- An empty open backend. -/
def empty (e : Engine) : Backend := ⟨e, [], false⟩

/-- The reserved key prefix of the database engine. -/
def reservedPrefix : String := "!badger!"

/-- Inserts or replaces an entry, keeping keys ascending. -/
def insertSorted (k : String) (v : List UInt8) :
    List (String × List UInt8) → List (String × List UInt8)
  | [] => [(k, v)]
  | (k', v') :: rest =>
    if k = k' then (k, v) :: rest
    else if k < k' then (k, v) :: (k', v') :: rest
    else (k', v') :: insertSorted k v rest

/-- Refuses everything once closed. -/
def checkOpen : StoreM Unit := do
  if (← get).closed then throw .closed

/-- Refuses the empty key on the database engine. -/
def checkKey (k : String) : StoreM Unit := do
  if (← get).engine.isDatabase ∧ k = "" then throw .emptyKey

/-- Longest key, in bytes, the database engine stores. -/
def maxKeySize : Nat := 65000

/-- Largest value, in bytes, the database engine stores when it runs in memory. -/
def maxMemoryValue : Nat := 1048576

/-- How much of a refused key or value its error shows. -/
def shownBytes : Nat := 1024

/-- Stores a value under a key. The database checks the key's prefix, then its size, then the
value's size. -/
def put (k : String) (v : List UInt8) : StoreM Unit := do
  checkOpen
  checkKey k
  let engine := (← get).engine
  if engine.isDatabase then
    if reservedPrefix.isPrefixOf k then throw .reservedKey
    let kb := k.toUTF8.toList
    if kb.length > maxKeySize then
      throw (.tooLarge "Key" kb.length maxKeySize (kb.take shownBytes))
    if engine = .database true ∧ v.length > maxMemoryValue then
      throw (.tooLarge "Value" v.length maxMemoryValue (v.take shownBytes))
  modify fun b => { b with entries := insertSorted k v b.entries }

/-- The value under a key. -/
def get? (k : String) : StoreM (List UInt8) := do
  checkOpen
  checkKey k
  match (← get).entries.lookup k with
  | some v => return v
  | none => throw .notFound

/-- Removes a key; a missing one is an error. -/
def erase (k : String) : StoreM Unit := do
  checkOpen
  checkKey k
  let b ← get
  if (b.entries.lookup k).isNone then throw .notFound
  set { b with entries := b.entries.filter fun e => e.1 != k }

/-- Every key starting with `pre`, ascending. -/
def keys (pre : String) : StoreM (List String) := do
  checkOpen
  return (← get).entries.map Prod.fst |>.filter fun k => pre.isPrefixOf k

/-- The keys starting with `pre` as the engine lists them: the database engine gives no list at
all when none match, the in-memory engine an empty one. -/
def listing (pre : String) : StoreM (Option (List String)) := do
  let ks ← keys pre
  return if ks.isEmpty && (← get).engine.isDatabase then none else some ks

/-- Closes the backend; the in-memory engine has nothing to close. -/
def close : StoreM Unit :=
  modify fun b => if b.engine.isDatabase then { b with closed := true } else b

end Backend

namespace Store

/-- Runs `m`, wrapping its error in a context. -/
def within {α : Type} (c : String) (m : StoreM α) : StoreM α :=
  tryCatch m fun e => throw (.within c e)

/-- Refuses an invalid record name. -/
def validate (r : Record) : StoreM Unit := do
  if !r.isValid then throw (.invalidName r.name r.ext)

/-- Creates or overwrites a record. -/
def put (r : Record) (v : List UInt8) : StoreM Unit := do
  validate r
  within ("put " ++ r.text) (Backend.put r.key v)

/-- A record's value. -/
def value (r : Record) : StoreM (List UInt8) := do
  validate r
  within ("get " ++ r.text) (Backend.get? r.key)

/-- Deletes a record. -/
def destroy (r : Record) : StoreM Unit := do
  validate r
  within ("destroy " ++ r.text) (Backend.erase r.key)

/-- The records with extension `ext`, in key order. Keys that are not record names are skipped. -/
def withExtension (ext : String) : StoreM (List Record) := do
  let ks ← within "list records" (Backend.keys "")
  return ks.filterMap fun k => (Record.ofKey k).filter fun r => r.ext == ext

/-- Number of records with extension `ext`. -/
def countWithExtension (ext : String) : StoreM Nat := do
  return (← withExtension ext).length

/-- The `i`-th record with extension `ext`, or the null record out of range. -/
def atIndex (ext : String) (i : Int) : StoreM Record := do
  let rs ← withExtension ext
  if i < 0 then return Record.null
  return (rs[i.toNat]?).getD Record.null

/-- Deletes every record with extension `ext`, stopping at the first error. -/
def destroyAll (rs : List Record) : StoreM Unit := rs.forM destroy

/-- Deletes every record with extension `ext`. -/
def destroyWithExtension (ext : String) : StoreM Unit := do
  destroyAll (← withExtension ext)

/-- The bytes the checksum covers for one entry. -/
def entryBytes (k : String) (v : List UInt8) : List UInt8 :=
  let kb := k.toUTF8.toList
  Varint.uvarint kb.length ++ kb ++ Varint.uvarint v.length ++ v

/-- Reads every key's value in turn, with the checksum's error context per key. -/
def gatherEntries : List String → StoreM (List UInt8)
  | [] => pure []
  | k :: ks => do
    let v ← within ("checksum " ++ k) (Backend.get? k)
    return entryBytes k v ++ (← gatherEntries ks)

/-- XXH64 of every entry in key order. -/
def checksum : StoreM UInt64 := do
  let ks ← within "checksum" (Backend.keys "")
  return Xxh64.hash (← gatherEntries ks)

end Store

end TreeArena
