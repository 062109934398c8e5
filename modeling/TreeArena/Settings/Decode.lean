import TreeArena.Settings.Config
import TreeArena.Settings.Document
import TreeArena.Settings.Scalar

/-!
# Decoding a configuration document

A document is decoded over a configuration: a key that is present replaces its field, a null
value or an unknown key changes nothing. Decoding collects type errors (a value that does not
fit its field) and reports them together, each with its line; faults such as a tag that
contradicts its scalar stop it at once. A mapping with a repeated key is not decoded at all.

A merge key `<<` brings in the fields of another mapping, or of several, the earlier ones
first, that the mapping does not set itself. To know which those are, the mapping's keys are
decoded once more as plain values and gathered in a set; a key that is a list or a map cannot
be put in a set, and decoding crashes. While a merge runs, each merged mapping adds the names it
sets to that same set, so a later one leaves them alone.

An alias is decoded as the node it points at; following an alias from inside itself is a fault.
Every decoding step is counted, and so are the steps taken inside an alias: once more than a
hundred steps inside aliases make up nearly all of more than a thousand steps, the document is
refused for excessive aliasing. The share allowed is 99% up to 400,000 steps, falls evenly to
10% at 4,000,000 steps and stays there.
-/

namespace TreeArena

namespace Settings

/-- What stops decoding: a fault of the document, or a crash. -/
inductive DecodeStop where
  | fault (message : String)
  | crash (message : String)
deriving Inhabited

/-- A value decoded with no type to fit: null, a string (as bytes), another scalar under its
tag, a list, or a map, noting whether all its keys are strings. -/
inductive Generic where
  | null
  | text (bytes : List UInt8)
  | scalar (tag : String) (value : Resolved)
  | list (items : List Generic)
  | map (stringKeys : Bool) (entries : List (Generic × Generic))
deriving Inhabited

namespace Generic

/-- Whether a value can be a member of a set: lists and maps cannot. -/
def hashable : Generic → Bool
  | .list _ | .map .. => false
  | _ => true

/-- The name of a value's type, as a crash names it. -/
def typeName : Generic → String
  | .list _ => "[]interface \x7b\x7d"
  | .map true _ => "map[string]interface \x7b\x7d"
  | .map false _ => "map[interface \x7b\x7d]interface \x7b\x7d"
  | .null => "<nil>"
  | .text _ => "string"
  | .scalar .. => "scalar"

/-- Whether two members of a set are the same: equal strings, or scalars equal under the same
tag; not-a-number equals nothing. -/
def sameKey : Generic → Generic → Bool
  | .null, .null => true
  | .text a, .text b => a == b
  | .scalar t a, .scalar u b => t == u && a == b && a != .float .nan
  | _, _ => false

/-- The text of a scalar value in source form. -/
def scalarSource : Resolved → String
  | .bool b => toString b
  | .int v => if v ≥ (Nat.pow 2 63 : Int) then "0x" ++ String.ofList (Quoted.hex 16 v.toNat)
    else toString v
  | _ => "float64"

/-- A value written as source text: strings quoted, lists and maps with their type. -/
def source : Generic → String
  | .null => "interface \x7b\x7d(nil)"
  | .text b => Quoted.quoteBytes b
  | .scalar _ r => scalarSource r
  | .list items =>
    "[]interface \x7b\x7d\x7b" ++ ", ".intercalate (items.attach.map fun ⟨g, _⟩ => source g) ++
      "\x7d"
  | .map s entries =>
    (if s then "map[string]interface \x7b\x7d\x7b"
      else "map[interface \x7b\x7d]interface \x7b\x7d\x7b") ++
      ", ".intercalate (entries.attach.map fun ⟨(k, v), _⟩ => source k ++ ":" ++ source v) ++
      "\x7d"
termination_by g => sizeOf g
decreasing_by
  all_goals simp_wf
  all_goals first
    | (have h := List.sizeOf_lt_of_mem ‹_ ∈ _›; omega)
    | (have h := List.sizeOf_lt_of_mem ‹_ ∈ _›; simp_all; omega)

end Generic

/-- Where decoding stands: the errors so far, how many steps were taken and how many of them
inside aliases, how deep in aliases it is and which aliases it is following, and the set of
names a running merge leaves alone, if one runs. -/
structure Decoder where
  errors : Array String := #[]
  steps : Nat := 0
  aliasSteps : Nat := 0
  depth : Nat := 0
  following : List Nat := []
  merged : Option (List Generic) := none
deriving Inhabited

/-- Decoding steps: a fault or crash stops decoding; type errors are collected in order. -/
abbrev DecodeM := EStateM DecodeStop Decoder

/-- Whether `aliased` steps inside aliases out of `total` are too many: more than 99% up to
400,000 steps, more than 10% from 4,000,000, and in between a share falling evenly from one to
the other. -/
def excessive (aliased total : Nat) : Bool :=
  if total ≤ 400000 then 100 * aliased > 99 * total
  else if total ≥ 4000000 then 10 * aliased > total
  else 360000000 * aliased + 89 * total * total > 392000000 * total

/-- Counts a decoding step, refusing the document once aliases make up too much of it. -/
def step : DecodeM Unit := do
  let d ← get
  let steps := d.steps + 1
  let aliasSteps := if d.depth > 0 then d.aliasSteps + 1 else d.aliasSteps
  set { d with steps, aliasSteps }
  if aliasSteps > 100 && steps > 1000 && excessive aliasSteps steps then
    throw (.fault "document contains excessive aliasing")

/-- Starts following an alias; following it from inside itself is a fault. -/
def enterAlias (name : String) (serial : Nat) : DecodeM Unit := do
  let d ← get
  if d.following.contains serial then throw (.fault s!"anchor '{name}' value contains itself")
  set { d with following := serial :: d.following, depth := d.depth + 1 }

/-- Stops following an alias. -/
def leaveAlias (serial : Nat) : DecodeM Unit :=
  modify fun d => { d with following := d.following.erase serial, depth := d.depth - 1 }

/-- How a value appears in a type error: not at all for a collection, else in backquotes, cut
to seven bytes and an ellipsis when longer than ten bytes. -/
def shownValue (tag text : String) : String :=
  if tag == "!!seq" || tag == "!!map" then ""
  else
    let bytes := text.toUTF8.toList
    if bytes.length > 10 then " `" ++ Utf8.decodeLossy (bytes.take 7) ++ "...`"
    else " `" ++ text ++ "`"

/-- Records an error. -/
def report (e : String) : DecodeM Unit := modify fun d => { d with errors := d.errors.push e }

/-- Records that the value at `line` does not fit the type named `target`. -/
def typeError (line : Nat) (tag text target : String) : DecodeM Unit :=
  let shown := shownValue tag text
  report s!"line {line}: cannot unmarshal {tag}{shown} into {target}"

/-- The tag and value a scalar decodes as. With no tag, quoted and block scalars are strings, a
plain `<<` is a string under `!!merge`, and other plain ones are resolved; `!!str` is a string;
`!!binary` must be base64; a tag outside the standard scalar tags keeps the text under that tag.
Under a standard tag the text is resolved and must agree with it, except that an integer may be
read as a float. -/
def scalarValue (text : String) (tag : Option String) (style : ScalarStyle) :
    DecodeM (String × Resolved) :=
  match tag with
  | none => if style == .plain then
      if text == "<<" then pure ("!!merge", .str)
      else
        let r := resolvePlain none text
        pure (r.tag, r)
    else pure ("!!str", .str)
  | some t =>
    if t == "!!str" then pure (t, .str)
    else if t == "!!binary" then
      if (decodeBase64 text).isNone then
        throw (.fault "!!binary value contains invalid base64 data")
      else pure (t, .str)
    else if !(["!!bool", "!!int", "!!float", "!!null", "!!timestamp"].contains t) then
      pure (t, .str)
    else
      let r := resolvePlain tag text
      let rtag := r.tag
      if rtag == t then pure (t, r)
      else
        match t, r with
        | "!!float", .int v =>
          if v < (Nat.pow 2 63 : Int) then pure (t, .float (intDouble v))
          else throw (.fault s!"cannot decode {rtag} `{text}` as a {t}")
        | _, _ => throw (.fault s!"cannot decode {rtag} `{text}` as a {t}")

/-- The bytes a scalar gives a string: `!!binary` text is base64 and gives the bytes it
encodes. -/
def scalarBytes (text : String) (tag : Option String) : List UInt8 :=
  if tag == some "!!binary" then (decodeBase64 text).getD (textBytes text)
  else textBytes text

/-- The value a scalar gives when no type is asked for: null, a string for strings, timestamps
and texts under other tags, else the resolved scalar. -/
def genericScalar (text : String) (tag : Option String) (t : String) (r : Resolved) :
    Generic :=
  match r with
  | .null => .null
  | .str => .text (scalarBytes text tag)
  | .timestamp => .text (textBytes text)
  | _ => .scalar t r

/-- The kind of a node, as repeated keys are compared. -/
def Node.kindCode : Node → Nat
  | .scalar .. => 0
  | .sequence .. => 1
  | .mapping .. => 2
  | .alias .. => 3

/-- The text of a node, as repeated keys are compared: a scalar's text, an alias's name, or
nothing for a collection. -/
def Node.text : Node → String
  | .scalar t .. => t
  | .alias name .. => name
  | _ => ""

/-- The line of a node. -/
def Node.line : Node → Nat
  | .scalar _ _ _ l => l
  | .sequence _ _ l => l
  | .mapping _ _ l => l
  | .alias _ _ _ l => l

/-- The tag a node carries in short form, explicit or implied: quoted and block scalars are
strings, a plain `<<` is `!!merge`, other plain scalars take the tag they resolve to, and
collections are `!!seq` and `!!map`. An alias has none of its own. -/
def Node.ownTag : Node → String
  | .scalar text tag style _ =>
    match tag with
    | some t => t
    | none =>
      if style != .plain then "!!str"
      else if text == "<<" then "!!merge"
      else (resolvePlain none text).tag
  | .sequence _ tag _ => tag.getD "!!seq"
  | .mapping _ tag _ => tag.getD "!!map"
  | .alias .. => ""

/-- Records every key that repeats an earlier one of the same kind and text, each earlier key
before the later ones that repeat it; whether there was any. -/
def repeatedKeys (pairs : List (Node × Node)) : DecodeM Bool := do
  let keys := pairs.map (·.1)
  let mut found := false
  for (ki, i) in keys.zipIdx do
    for kj in keys.drop (i + 1) do
      if ki.kindCode == kj.kindCode && ki.text == kj.text then
        let name := Quoted.quote kj.text
        let l1 := kj.line
        let l2 := ki.line
        report s!"line {l1}: mapping key {name} already defined at line {l2}"
        found := true
  return found

/-- Where decoding reads from: the document's anchored nodes. -/
structure Trail where
  anchored : Array Node

/-- The node an alias points at; any other node is its own. -/
def Trail.target (tr : Trail) : Node → Node
  | .alias _ place _ _ => tr.anchored.getD place default
  | n => n

/-- The tag of a node, an alias taking its target's. -/
def Trail.tagOf (tr : Trail) (n : Node) : String := (tr.target n).ownTag

/-- Whether every key of a mapping is a string (or the merge key). -/
def Trail.stringKeys (tr : Trail) (pairs : List (Node × Node)) : Bool :=
  pairs.all fun (k, _) => tr.tagOf k == "!!str" || tr.tagOf k == "!!merge"

/-- Whether a key merges another mapping in: a plain `<<` or one tagged `!!merge`. -/
def isMergeKey (k : Node) : Bool :=
  match k with
  | .scalar "<<" tag style _ => (tag.isNone && style == .plain) || tag == some "!!merge"
  | _ => false

/-- The fault of merging something other than a mapping or a sequence of mappings. -/
def mergeFault {α : Type} : DecodeM α :=
  throw (.fault "map merge requires map or sequence of maps as the value")

/-- Checks that a node may be merged: a mapping, or an alias of one. -/
def checkMergeable (tr : Trail) (n : Node) : DecodeM Unit :=
  match tr.target n with
  | .mapping .. => pure ()
  | _ => mergeFault

/-- The nodes a merge value brings in, in order, each checked just before it is decoded: a
mapping or an alias of one brings itself, and a sequence its items. -/
def mergeSources (n : Node) : List Node :=
  match n with
  | .sequence items _ _ => items
  | _ => [n]

/-- Checks the merge value as a whole: a mapping, an alias of a mapping, or a sequence. -/
def checkMergeValue (tr : Trail) (n : Node) : DecodeM Unit :=
  match n with
  | .mapping .. => pure ()
  | .alias .. => checkMergeable tr n
  | .sequence .. => pure ()
  | _ => mergeFault

/-- Notes a key in the set `m` of merged names, if there is one, looking it up first when
`lookup` is set; the answer tells whether the key was there already. A list or map cannot be a
member, and decoding crashes: a lookup in the empty set fails before hashing the key, with the
runtime's plain text, and any other lookup or insertion fails hashing it. -/
def noteKey (lookup : Bool) (m : Option (List Generic)) (k : Generic) :
    DecodeM (Option (List Generic) × Bool) :=
  match m with
  | none => pure (none, false)
  | some keys =>
    if !k.hashable then
      if lookup && keys.isEmpty then throw (.crash ("hash of unhashable type: " ++ k.typeName))
      else throw (.crash ("runtime error: hash of unhashable type " ++ k.typeName))
    else if keys.any (Generic.sameKey k) then pure (m, true)
    else pure (some (k :: keys), false)

mutual

/-- Decodes a node with no type to fit; `none` if it gives nothing (a mapping with a repeated
key). -/
def decodeGeneric : Nat → Trail → Node → DecodeM (Option Generic)
  | 0, _, _ => pure none
  | fuel + 1, tr, n => do
    step
    match n with
    | .alias name _ serial _ =>
      enterAlias name serial
      let r ← decodeGeneric fuel tr (tr.target n)
      leaveAlias serial
      pure r
    | .scalar text tag style _ =>
      let (t, r) ← scalarValue text tag style
      pure (some (genericScalar text tag t r))
    | .sequence items _ _ =>
      let mut out : Array Generic := #[]
      for item in items do
        match ← decodeGeneric fuel tr item with
        | some g => out := out.push g
        | none => pure ()
      pure (some (.list out.toList))
    | .mapping pairs _ _ =>
      if ← repeatedKeys pairs then return none
      let entries ← mapEntries fuel tr pairs
      pure (some (.map (tr.stringKeys pairs) entries))

/-- Decodes a node into a map being filled: a mapping, or an alias of one, adds its entries. -/
def decodeIntoMap : Nat → Trail → Node → DecodeM (List (Generic × Generic))
  | 0, _, _ => pure []
  | fuel + 1, tr, n => do
    step
    match n with
    | .alias name _ serial _ =>
      enterAlias name serial
      let r ← decodeIntoMap fuel tr (tr.target n)
      leaveAlias serial
      pure r
    | .mapping pairs _ _ =>
      if ← repeatedKeys pairs then return []
      mapEntries fuel tr pairs
    | _ => pure []

/-- The entries of a mapping decoded with no type to fit, in order, then those its merge key
brings in. A key already in a running merge's set is skipped; a list or map key is a fault. -/
def mapEntries : Nat → Trail → List (Node × Node) → DecodeM (List (Generic × Generic))
  | 0, _, _ => pure []
  | fuel + 1, tr, pairs => do
    let mut m := (← get).merged
    modify fun d => { d with merged := none }
    let mut entries : Array (Generic × Generic) := #[]
    let mut mergeNode : Option Node := none
    for (k, v) in pairs do
      if isMergeKey k then mergeNode := some v
      else
        match ← decodeGeneric fuel tr k with
        | none => pure ()
        | some kg =>
          let (m', skip) ← noteKey true m kg
          m := m'
          if !skip then
            if !kg.hashable then throw (.fault ("invalid map key: " ++ kg.source))
            match ← decodeGeneric fuel tr v with
            | some e => entries := entries.push (kg, e)
            | none => pure ()
    modify fun d => { d with merged := m }
    match mergeNode with
    | none => pure entries.toList
    | some mn =>
      let saved := (← get).merged
      if saved.isNone then
        modify fun d => { d with merged := some [] }
        for (k, _) in pairs do
          match ← decodeGeneric fuel tr k with
          | some g =>
            let (m', _) ← noteKey false (← get).merged g
            modify fun d => { d with merged := m' }
          | none => pure ()
      checkMergeValue tr mn
      for src in mergeSources mn do
        checkMergeable tr src
        let more ← decodeIntoMap fuel tr src
        entries := entries ++ more.toArray
      if saved.isNone then modify fun d => { d with merged := none }
      pure entries.toList

end

/-- Decodes a string: a scalar other than null gives its bytes; null gives none, and so does
a collection, which does not fit. -/
def decodeText : Nat → Trail → Node → DecodeM (Option (List UInt8))
  | 0, _, _ => pure none
  | fuel + 1, tr, n => do
    step
    match n with
    | .alias name _ serial _ =>
      enterAlias name serial
      let r ← decodeText fuel tr (tr.target n)
      leaveAlias serial
      pure r
    | .scalar text tag style _ =>
      let (_, r) ← scalarValue text tag style
      pure (if r == .null then none else some (scalarBytes text tag))
    | .sequence _ tag line =>
      typeError line (tag.getD "!!seq") "" "string"
      pure none
    | .mapping pairs tag line =>
      if !(← repeatedKeys pairs) then typeError line (tag.getD "!!map") "" "string"
      pure none

/-- Decodes an integer field: integers within 64 bits, and floats truncated; null keeps it. -/
def decodeInt : Nat → Trail → Node → Int → DecodeM Int
  | 0, _, _, cur => pure cur
  | fuel + 1, tr, n, cur => do
    step
    match n with
    | .alias name _ serial _ =>
      enterAlias name serial
      let r ← decodeInt fuel tr (tr.target n) cur
      leaveAlias serial
      pure r
    | .scalar text tag style line =>
      let (t, r) ← scalarValue text tag style
      match r with
      | .null => pure cur
      | .int v =>
        if -(Nat.pow 2 63 : Int) ≤ v && v < (Nat.pow 2 63 : Int) then pure v
        else
          typeError line t text "int"
          pure cur
      | .float d =>
        match d.toInt64? with
        | some v => pure v
        | none =>
          typeError line t text "int"
          pure cur
      | _ =>
        typeError line t text "int"
        pure cur
    | .sequence _ tag line =>
      typeError line (tag.getD "!!seq") "" "int"
      pure cur
    | .mapping pairs tag line =>
      if !(← repeatedKeys pairs) then typeError line (tag.getD "!!map") "" "int"
      pure cur

/-- A field of a section: its key and how a node decodes into it. -/
structure Field (σ : Type) where
  key : String
  decode : Trail → Node → σ → DecodeM σ

/-- Decodes a node into a section named `target`. A mapping with a repeated key is not decoded.
Otherwise its keys decode in order, a key naming a field already set being an error, and a key
in a running merge's set being skipped (and added to it otherwise); then the value of its last
merge key, a mapping or a sequence of mappings, is decoded into the same section. A scalar
other than null, or a sequence, does not fit. -/
def decodeSection {σ : Type} (target : String) (fields : List (Field σ)) :
    Nat → Trail → Node → σ → DecodeM σ
  | 0, _, _, cur => pure cur
  | fuel + 1, tr, n, cur => do
    step
    match n with
    | .alias name _ serial _ =>
      enterAlias name serial
      let r ← decodeSection target fields fuel tr (tr.target n) cur
      leaveAlias serial
      pure r
    | .scalar text tag style line =>
      let (t, r) ← scalarValue text tag style
      if r != .null then typeError line t text target
      pure cur
    | .sequence _ tag line =>
      typeError line (tag.getD "!!seq") "" target
      pure cur
    | .mapping pairs _ _ =>
      if ← repeatedKeys pairs then return cur
      let mut m := (← get).merged
      modify fun d => { d with merged := none }
      let mut cur := cur
      let mut done : List (List UInt8) := []
      let mut mergeNode : Option Node := none
      for (k, v) in pairs do
        if isMergeKey k then mergeNode := some v
        else
          match ← decodeText fuel tr k with
          | none => pure ()
          | some name =>
            let (m', skip) ← noteKey true m (.text name)
            m := m'
            if !skip then
              match fields.find? (textBytes ·.key == name) with
              | none => pure ()
              | some f =>
                if done.contains name then
                  let line := k.line
                  let shown := Utf8.decodeLossy name
                  report s!"line {line}: field {shown} already set in type {target}"
                else
                  done := name :: done
                  cur ← f.decode tr v cur
      modify fun d => { d with merged := m }
      match mergeNode with
      | none => pure cur
      | some mn =>
        let saved := (← get).merged
        if saved.isNone then
          modify fun d => { d with merged := some [] }
          for (k, _) in pairs do
            match ← decodeGeneric fuel tr k with
            | some g =>
              let (m', _) ← noteKey false (← get).merged g
              modify fun d => { d with merged := m' }
            | none => pure ()
        checkMergeValue tr mn
        for src in mergeSources mn do
          checkMergeable tr src
          cur ← decodeSection target fields fuel tr src cur
        if saved.isNone then modify fun d => { d with merged := none }
        pure cur

/-- The pool section's fields. -/
def poolFields (fuel : Nat) : List (Field PoolSettings) :=
  [⟨"capacity", fun tr n s => do
      return { s with capacity := ← decodeInt fuel tr n s.capacity }⟩,
   ⟨"max_nodes", fun tr n s => do
      return { s with maxNodes := ← decodeInt fuel tr n s.maxNodes }⟩]

/-- A text field's new value: what the node gives, or the old value for null. -/
def decodeTextField (fuel : Nat) (tr : Trail) (n : Node) (cur : List UInt8) :
    DecodeM (List UInt8) := do
  return (← decodeText fuel tr n).getD cur

/-- The records section's fields. -/
def recordFields (fuel : Nat) : List (Field RecordSettings) :=
  [⟨"backend", fun tr n s => do
      return { s with backend := ← decodeTextField fuel tr n s.backend }⟩,
   ⟨"dir", fun tr n s => do return { s with dir := ← decodeTextField fuel tr n s.dir }⟩,
   ⟨"extension", fun tr n s => do
      return { s with extension := ← decodeTextField fuel tr n s.extension }⟩,
   ⟨"memoized_models", fun tr n s => do
      return { s with memoized := ← decodeInt fuel tr n s.memoized }⟩]

/-- The log section's fields. -/
def logFields (fuel : Nat) : List (Field LogSettings) :=
  [⟨"level", fun tr n s => do return { s with level := ← decodeTextField fuel tr n s.level }⟩,
   ⟨"format", fun tr n s => do
      return { s with format := ← decodeTextField fuel tr n s.format }⟩]

/-- The configuration's sections, each decoded with the given depth bound. -/
def configFields (fuel : Nat) : List (Field Config) :=
  [⟨"pool", fun tr n c => do
      let pool ← decodeSection "config.PoolConfig" (poolFields fuel) fuel tr n c.pool
      return { c with pool }⟩,
   ⟨"records", fun tr n c => do
      let records ←
        decodeSection "config.RecordsConfig" (recordFields fuel) fuel tr n c.records
      return { c with records }⟩,
   ⟨"log", fun tr n c => do
      let log ← decodeSection "config.LogConfig" (logFields fuel) fuel tr n c.log
      return { c with log }⟩]

/-- Decodes a text over a configuration: the document counts as one step before its root. Each
followed alias can open one more level of nesting, so the depth bound allows for every alias. -/
def decodeOver (text : String) (base : Config) : Except ConfigError Config :=
  match readDocument text with
  | .error e => .error (.unreadable ("yaml: " ++ e.message))
  | .ok none => .ok base
  | .ok (some doc) =>
    let fuel := (text.length + 2) * (text.length + 2)
    let tr : Trail := ⟨doc.anchored⟩
    let run : DecodeM Config := do
      step
      decodeSection "config.Config" (configFields fuel) fuel tr doc.root base
    match run.run {} with
    | .error (.fault m) _ => .error (.unreadable ("yaml: " ++ m))
    | .error (.crash m) _ => .error (.crashed m)
    | .ok c d =>
      if d.errors.isEmpty then .ok c
      else
        .error (.unreadable
          ("yaml: unmarshal errors:\n  " ++ "\n  ".intercalate d.errors.toList))

end Settings

namespace Config

/-- Reads a configuration text over the defaults and validates it. -/
def parse (text : String) : Except ConfigError Config :=
  match Settings.decodeOver text default with
  | .error e => .error e
  | .ok c =>
    match c.validate with
    | some d => .error (.invalid d)
    | none => .ok c

end Config

end TreeArena
