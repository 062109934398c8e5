import TreeArena.Command.Args
import TreeArena.Command.Help
import TreeArena.Command.Scripts
import TreeArena.Command.Complete
import TreeArena.Command.Files
import TreeArena.Command.Metrics
import TreeArena.Settings.Decode
import TreeArena.Expr.Flatten
import TreeArena.Expr.Text
import TreeArena.Text.Utf8

/-!
# Running the program

A run finds the command, reads the flags, and answers with help if asked for it or if the
command does nothing by itself. Otherwise it sets up first: the configuration (the defaults, or
the file `--config` names), the capacity given by `--capacity` (validated again), and a pool
built from them. Then the command runs on that pool:

* `demo` builds `Add(Add(1,2),3)`, prints it, flattens it and prints it again, then the pool's
  usage;
* `records` stores two expressions as records, `f = Add(x,Mul(2,y))` and `g = Opp(3)`, then
  lists the defined models and resolves each back into the pool, printing it; then the usage;
* `stats` builds and flattens the demo sum and prints the pool's metrics;
* `exhaust` grows a sum one integer term at a time until the pool runs out, then prints how many
  terms it took and the usage.

A run answers what it printed on standard output and on standard error and, if it failed,
the error; output printed before the error stays. Help asked for an unknown topic goes to standard
error, with the program's usage.
-/

namespace TreeArena

namespace Command

/-- What a run printed on standard output and standard error, and the error it stopped with, if
any. -/
structure Outcome where
  stdout : String
  stderr : String
  error : Option String
deriving Repr, Inhabited

/-- The state of a running command: the workspace (one pool, pool 0) and what it printed on
standard output and standard error. -/
structure Run where
  work : Workspace
  out : String
  notes : String
deriving Inhabited

/-- Command steps; an error stops the command. -/
abbrev RunM := EStateM String Run

/-- The text of a workspace error. -/
def workErrorText : WorkError → String
  | .fault f => f.message
  | .store e => e.message
  | .crash e => e.message

/-- Prints text. -/
def say (s : String) : RunM Unit := modify fun r => { r with out := r.out ++ s }

/-- Prints text on standard error. -/
def note (s : String) : RunM Unit := modify fun r => { r with notes := r.notes ++ s }

/-- Runs a workspace operation. -/
def onWork {α : Type} (m : WorkM α) : RunM α := fun r =>
  let w := r.work
  let r := { r with work := default }
  match m.run w with
  | .ok a w => .ok a { r with work := w }
  | .error e w => .error (workErrorText e) { r with work := w }

/-- Runs a handle operation. -/
def onHeap {α : Type} (m : HeapM α) : RunM α := onWork (Workspace.heapOp m)

/-- Runs a handle operation whose fault is ignored. -/
def quietly (m : HeapM Unit) : HeapM Unit := tryCatch m fun _ => pure ()

/-- The text of an expression. -/
def format (r : Handle) : RunM String := do
  return Utf8.decodeLossy (← onHeap (Expr.render r))

/-- Prints the pool's usage. -/
def printStats : RunM Unit := do
  let s ← onHeap (Heap.readPool 0 Pool.stats)
  let used := s.used
  let limit := s.limit
  let live := s.live
  let most := s.maxNodes
  let failures := s.failures
  say s!"used {used}/{limit} bytes, {live}/{most} nodes, {failures} allocation failures\n"

/-- Builds `Add(Add(1,2),3)` in pool 0. -/
def buildDemo : HeapM Handle := do
  let one ← Expr.integer 0 1
  let two ← Expr.integer 0 2
  let inner ← Expr.addition 0 [one, two]
  let three ← Expr.integer 0 3
  Expr.addition 0 [inner, three]

/-- The `demo` command. -/
def demo : RunM Unit := do
  let sum ← onHeap buildDemo
  say ("built:     " ++ (← format sum) ++ "\n")
  onHeap (Expr.flatten sum)
  say ("flattened: " ++ (← format sum) ++ "\n")
  printStats
  let _ ← onHeap (Heap.release sum)

/-- The `stats` command. -/
def stats : RunM Unit := do
  let sum ← onHeap buildDemo
  onHeap (Expr.flatten sum)
  say (Metrics.exposition (← onHeap (Heap.readPool 0 Pool.stats)))
  let _ ← onHeap (Heap.release sum)

/-- Adds integer terms `terms, terms + 1, …` at the end of `sum` until it becomes the
allocation failure, counting those that left it defined. Every term that fits takes room the
pool does not get back, so the pool's capacity bounds the rounds. -/
def grow (sum : Handle) (terms : Nat) : Nat → HeapM Nat
  | 0 => pure terms
  | fuel + 1 => do
    if (← get).isFailure sum then return terms
    let n ← Heap.childCount sum
    let term ← Expr.integer 0 terms
    quietly (Heap.addChild sum term n n)
    let _ ← Heap.release term
    let terms := if (← get).isFailure sum then terms else terms + 1
    grow sum terms fuel

/-- The `exhaust` command. -/
def exhaust : RunM Unit := do
  let sum ← onHeap (Expr.addition 0 [])
  let capacity ← onHeap (Heap.readPool 0 (·.capacity))
  let terms ← onHeap (grow sum 0 (capacity + 2))
  let shown ← format sum
  say s!"added {terms} terms before the pool ran out; the sum is now {shown}\n"
  printStats
  let _ ← onHeap (Heap.release sum)

/-- A path held one character per byte, as printed: bytes that are not UTF-8 show as the
replacement character. -/
def shownPath (p : String) : String := Utf8.decodeLossy (bytesOfRaw p)

/-- Opens the record database in a directory, given as bytes: in memory when none is named.
The directory is looked at first: a missing one is made with the missing ones above it, and one
that cannot be looked at is refused. Then the lock file is written into it, at the clean
absolute form of its path, which fails when the directory is a file or a system directory.
Paths are quoted byte by byte, so bytes that are not UTF-8 show as hex escapes, and printed as
they are elsewhere. -/
def openDatabase (files : Files) (dirBytes : List UInt8) : Except String Backend :=
  let q := Quoted.quoteBytes dirBytes
  let dir := rawOfBytes dirBytes
  let refuse (m : String) : Except String Backend := .error ("open badger at " ++ q ++ ": " ++ m)
  if dirBytes.isEmpty then .ok (Backend.empty (.database true))
  else
    let made : Except String Files :=
      match files.resolve dir with
      | .ok _ => .ok files
      | .error .missing =>
        match files.makeAll dir with
        | .ok fs => .ok fs
        | .error (p, e) =>
          .error ("Error Creating Dir: " ++ q ++ " error: mkdir " ++ shownPath p ++ ": " ++
            e.text)
      | .error e =>
        .error ("Invalid Dir: " ++ q ++ " error: stat " ++ shownPath dir ++ ": " ++ e.text)
    match made with
    | .error m => refuse m
    | .ok fs =>
      let lock := fs.absolute (joinPath dir "LOCK")
      match fs.writeFile lock with
      | .ok _ => .ok (Backend.empty (.database false))
      | .error e =>
        refuse ("Cannot write pid file " ++ Quoted.quoteBytes (bytesOfRaw lock) ++
          " error: open " ++ shownPath lock ++ ": " ++ e.text)

/-- The `records` command. -/
def records (files : Files) (cfg : Config) : RunM Unit := do
  let backend ← if cfg.usesDatabase then
      match openDatabase files cfg.records.dir with
      | .ok b => pure b
      | .error e => throw e
    else pure (Backend.empty .memory)
  modify fun r => { r with work := { r.work with stores := #[backend] } }
  let ext := Utf8.decodeLossy cfg.records.extension
  let ms ← onWork (Workspace.addModelStore 0 0 ext cfg.records.memoized)
  let (f, g) ← onHeap do
    let x ← Expr.symbol 0 "x"
    let two ← Expr.integer 0 2
    let y ← Expr.symbol 0 "y"
    let product ← Expr.multiplication 0 [two, y]
    let f ← Expr.addition 0 [x, product]
    let three ← Expr.integer 0 3
    let g ← Expr.opposite 0 three
    return (f, g)
  for (name, ref) in [("f", f), ("g", g)] do
    let bytes ← onHeap (Heap.encodeTree ref)
    let stored ← onWork (Workspace.tryStore 0 (Store.put ⟨name, ext⟩ bytes))
    let _ ← onHeap (Heap.release ref)
    match stored with
    | .ok () => pure ()
    | .error (.invalidName n _) =>
      throw ("invalid record name: " ++ Quoted.quote n ++ "." ++
        Quoted.quoteBytes cfg.records.extension)
    | .error e => throw e.message
  let n ← onWork (Workspace.definedCount ms)
  say s!"{n} defined models\n"
  for i in List.range n do
    let j ← onWork (Workspace.definedModelAt ms i)
    let m ← onWork (Workspace.model j)
    let (ref, ok) ← onWork (Workspace.resolve ms m.record.name)
    if !ok then throw ("resolve " ++ m.record.text ++ ": record not found")
    say (m.record.text ++ " = " ++ (← format ref) ++ "\n")
    let _ ← onHeap (Heap.release ref)
  printStats
  onWork (Workspace.closeModels ms)

/-- Reads the configuration file at a path. -/
def loadConfig (files : Files) (path : String) : Except String Config :=
  match files.resolve (rawOfText path) with
  | .ok (_, .file text) =>
    match Config.parse text with
    | .ok c => .ok c
    | .error e => .error e.message
  | .ok _ => .error ("read config: read " ++ path ++ ": is a directory")
  | .error e => .error ("read config: open " ++ path ++ ": " ++ e.text)

/-- Sets up a run: the configuration, the capacity override and the pool. -/
def setup (files : Files) (flags : Flags) : Except String (Config × Pool) := do
  let cfg ← if flags.config.isEmpty then pure Config.default else loadConfig files flags.config
  let cfg ← if flags.capacity != 0 then
      let c := { cfg with pool := { cfg.pool with capacity := flags.capacity } }
      match c.validate with
      | some d => throw (ConfigError.invalid d).message
      | none => pure c
    else pure cfg
  match Pool.new 0 cfg.pool.capacity cfg.poolOptions with
  | .ok p => pure (cfg, p)
  | .error e => throw ("create pool: " ++ e.message)

/-- Whether a text can stand in backquotes: no backquote, byte-order mark or control character
other than tab. -/
def canBackquote (w : String) : Bool :=
  w.all fun c =>
    c != '\x60' && c != '\uFEFF' && (c == '\t' || (c.toNat ≥ 0x20 && c.toNat != 0x7F))

/-- A word list the way help shows unknown topics: each word in backquotes (or double quotes
when it cannot stand in backquotes), in brackets. -/
def topics (words : List String) : String :=
  "[" ++ " ".intercalate (words.map fun w =>
    if canBackquote w then "`" ++ w ++ "`" else Quoted.quote w) ++ "]"

/-- Runs a command that does something, after setup. -/
def perform (files : Files) (cfg : Config) (words : List String) : Name → RunM Unit
  | .demo => demo
  | .records => records files cfg
  | .stats => stats
  | .exhaust => exhaust
  | .help =>
    match locate false words with
    | .ok (target, _) => say (helpText target)
    | .error _ => note ("Unknown help topic " ++ topics words ++ "\n" ++ programUsage)
  | .completion => say (helpText (.command .completion))

/-- An outcome that only printed. -/
def printed (out : String) : Outcome := ⟨out, "", none⟩

/-- An outcome that failed before printing anything. -/
def failed (e : String) : Outcome := ⟨"", "", some e⟩

/-- Runs the program on its arguments. A completion request reads no flags and needs at least
one argument; a shell's script command takes no arguments, which is checked before setup. -/
def execute (files : Files) (args : List String) : Outcome :=
  match find args with
  | .error e => failed e
  | .ok (.request d, rest) =>
    if rest.isEmpty then failed "requires at least 1 arg(s), only received 0"
    else
      match setup files {} with
      | .error e => failed e
      | .ok _ => printed (completionAnswer d rest)
  | .ok (target, rest) =>
    match parseFlags target rest with
    | .error e => failed e
    | .ok (flags, words) =>
      if flags.help then printed (helpText target)
      else
        match target with
        | .program | .command .completion | .request _ => printed (helpText target)
        | .script s =>
          match words with
          | w :: _ =>
            failed ("unknown command " ++ Quoted.quote w ++ " for " ++ Quoted.quote target.path)
          | [] =>
            match setup files flags with
            | .error e => failed e
            | .ok _ => printed (s.script !flags.noDescriptions)
        | .command c =>
          match setup files flags with
          | .error e => failed e
          | .ok (cfg, pool) =>
            let start : Run := ⟨⟨⟨#[pool]⟩, #[], #[], #[]⟩, "", ""⟩
            match (perform files cfg words c).run start with
            | .ok _ r => ⟨r.out, r.notes, none⟩
            | .error e r => ⟨r.out, r.notes, some e⟩

/-- The flags the arguments give, if they parse; a completion request reads none. -/
def givenFlags (args : List String) : Option Flags :=
  match find args with
  | .ok (.request _, _) => none
  | .ok (t, rest) =>
    match parseFlags t rest with
    | .ok (flags, _) => some flags
    | .error _ => none
  | .error _ => none

/-- The configuration file the arguments name, if any. -/
def configPath (args : List String) : Option String :=
  match givenFlags args with
  | some flags => if flags.config.isEmpty then none else some flags.config
  | none => none

/-- The record directory a run would open, if its configuration names one, held one character
per byte: the paths a run reads are the configuration file and this directory. -/
def databasePath (files : Files) (args : List String) : Option String :=
  match givenFlags args with
  | some flags =>
    match setup files flags with
    | .ok (cfg, _) =>
      if cfg.usesDatabase && !cfg.records.dir.isEmpty then
        some (rawOfBytes cfg.records.dir)
      else none
    | .error _ => none
  | none => none

end Command

end TreeArena
