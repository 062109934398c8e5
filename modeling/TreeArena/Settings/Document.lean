import TreeArena.Settings.Scanner

/-!
# Reading a configuration document

The parser pulls tokens from the scanner as it needs them and builds the first document of the
text as a tree of nodes. It asks the scanner to stay three tokens ahead, and further while the
next token may still turn out to start a key; so of two errors close together, the one found
first by that schedule is the one reported.

Anchors name nodes and aliases repeat them. An alias stays a node of its own that points at
the anchored node, which the document keeps in a table: an anchor is registered when its node
starts, so an alias inside that node points at the node that contains it. Following such an
alias is left to the reader of the document, which must not follow one alias while already
inside it.
-/

namespace TreeArena

namespace Settings

/-- A node of a document: a scalar with its text, a sequence, a mapping, or an alias. Each
carries its line counted from one, and all but an alias their explicit tag, if any, in short
form. An alias names its anchor, the anchored node's place in the document's table, and its own
number among the document's aliases. -/
inductive Node where
  | scalar (text : String) (tag : Option String) (style : ScalarStyle) (line : Nat)
  | sequence (items : List Node) (tag : Option String) (line : Nat)
  | mapping (pairs : List (Node × Node)) (tag : Option String) (line : Nat)
  | alias (name : String) (target : Nat) (serial : Nat) (line : Nat)
deriving Inhabited

/-- A document: its root node and the nodes its anchors name, in the order the anchors
appear. -/
structure Document where
  root : Node
  anchored : Array Node
deriving Inhabited

/-- Why a text could not be read: a syntax error, or a fault found while building the tree. -/
inductive ReadError where
  | malformed (e : SyntaxError)
  | fatal (message : String)
deriving Inhabited

namespace ReadError

/-- The error text. -/
def message : ReadError → String
  | .malformed e => e.message
  | .fatal m => m

end ReadError

/-- The parser's state: the scanner, the position of the next token in its queue, the tag
handles in force with their prefixes, the anchors registered so far (latest first) with their
places in the table of anchored nodes, that table, how many aliases were read, and the position
of the next token when a look-ahead met a character that may not appear, if one did. -/
structure Reader where
  scan : Scanner
  head : Nat
  handles : List (String × String)
  anchors : List (String × Nat)
  anchored : Array Node
  aliases : Nat
  faultHead : Option Nat
deriving Inhabited

/-- Parsing steps. -/
abbrev ReadM := EStateM ReadError Reader

/-- Runs a scanning step inside the parser. -/
def liftScan {α : Type} (m : ScanM α) : ReadM α := fun r =>
  match m r.scan with
  | .ok a s => .ok a { r with scan := s }
  | .error e s => .error (.malformed e) { r with scan := s }

/-- The next token, scanning on as far as needed. A character that may not appear, met while
only looking ahead, lets the step that met it finish, and stops the parser once it has moved
past that step's token. -/
def peekToken : ReadM Token := do
  let r ← get
  if r.faultHead.any (· < r.head) then throw (.malformed readerFault)
  let before := r.scan.feed.softFault
  liftScan (fill r.head (r.scan.text.size + 4))
  let r ← get
  if !before && r.scan.feed.softFault then set { r with faultHead := some r.head }
  let r ← get
  match r.scan.tokens[r.head]? with
  | some t => pure t
  | none => pure ⟨.streamEnd, r.scan.mark⟩

/-- Moves past the next token. -/
def skipToken : ReadM Unit := modify fun r => { r with head := r.head + 1 }

/-- Fails with a parser error at `m`, naming where the construct being read started. -/
def parseFail {α : Type} (context : Option Mark) (problem : String) (m : Mark) : ReadM α :=
  throw (.malformed ⟨problem, m, context.getD ⟨0, 0, 0⟩, false⟩)

/-- The prefix of the standard tags. -/
def standardPrefix : String := "tag:yaml.org,2002:"

/-- A tag in short form: the standard prefix is written `!!`. -/
def shortTag (t : String) : String :=
  if t.startsWith standardPrefix then
    "!!" ++ String.ofList (t.toList.drop standardPrefix.length)
  else t

/-- The tag a handle and suffix name under the handles in force; `none` for an unknown
handle. A verbatim tag has no handle. -/
def fullTag (handles : List (String × String)) (handle suffix : String) : Option String :=
  if handle == "" then some suffix
  else (handles.lookup handle).map (· ++ suffix)

/-- The handles every document knows: `!` for local tags and `!!` for the standard ones. -/
def standardHandles : List (String × String) := [("!", "!"), ("!!", standardPrefix)]

/-- An empty scalar, standing for a missing node at a position. -/
def emptyAt (m : Mark) : Node := .scalar "" none .plain (m.line + 1)

/-- Reads the anchor and the tag before a node, in either order, with where the first starts. -/
def readProperties : ReadM (Option String × Option (String × String × Mark) × Option Mark) := do
  let t ← peekToken
  match t.kind with
  | .anchor name =>
    skipToken
    let t2 ← peekToken
    match t2.kind with
    | .tag h sfx =>
      skipToken
      pure (some name, some (h, sfx, t2.start), some t.start)
    | _ => pure (some name, none, some t.start)
  | .tag h sfx =>
    skipToken
    let t2 ← peekToken
    match t2.kind with
    | .anchor name =>
      skipToken
      pure (some name, some (h, sfx, t.start), some t.start)
    | _ => pure (none, some (h, sfx, t.start), some t.start)
  | _ => pure (none, none, none)

/-- Registers an anchor as its node starts, giving it the next place in the table. -/
def openAnchor (anchor : Option String) : ReadM (Option Nat) :=
  match anchor with
  | some a => modifyGet fun r =>
    (some r.anchored.size,
      { r with anchors := (a, r.anchored.size) :: r.anchors, anchored := r.anchored.push default })
  | none => pure none

/-- Stores a finished node at its anchor's place. -/
def closeAnchor (place : Option Nat) (n : Node) : ReadM Node := do
  match place with
  | some i => modify fun r => { r with anchored := r.anchored.setIfInBounds i n }
  | none => pure ()
  pure n

/-- An alias to the latest anchor of a name. -/
def lookupAlias (name : String) (line : Nat) : ReadM Node := do
  let r ← get
  match r.anchors.lookup name with
  | some i =>
    set { r with aliases := r.aliases + 1 }
    pure (.alias name i r.aliases line)
  | none => throw (.fatal s!"unknown anchor '{name}' referenced")

/-- Whether a token ends a block entry's or a block value's content. -/
def TokenKind.endsBlockValue (k : TokenKind) : Bool := k.isKey || k.isValue || k.isBlockEnd

mutual

/-- Reads a node. In block context block collections may start here; an indentless sequence
(entries `-` at the indentation of the enclosing mapping) is allowed as a mapping's key or
value. -/
def parseNode : Nat → Bool → Bool → ReadM Node
  | 0, _, _ => throw (.fatal "document nested too deeply")
  | fuel + 1, block, indentless => do
    let t ← peekToken
    match t.kind with
    | .alias name =>
      skipToken
      lookupAlias name (t.start.line + 1)
    | _ =>
      let (anchor, tagToken, propStart) ← readProperties
      let start := propStart.getD t.start
      let full ← match tagToken with
        | none => pure ""
        | some (h, sfx, m) =>
          match fullTag (← get).handles h sfx with
          | some full => pure full
          | none => parseFail (some start) "found undefined tag handle" m
      let tag := if full == "" || full == "!" then none else some (shortTag full)
      let t ← peekToken
      let line := start.line + 1
      let fallback : ReadM Node :=
        if anchor.isSome || full != "" then do
          let place ← openAnchor anchor
          closeAnchor place (.scalar "" tag .plain line)
        else parseFail (some start) "did not find expected node content" t.start
      if indentless && t.kind.isBlockEntry then
        let place ← openAnchor anchor
        let items ← indentlessSequence fuel
        closeAnchor place (.sequence items tag line)
      else
        match t.kind with
        | .scalar text style =>
          skipToken
          let place ← openAnchor anchor
          closeAnchor place (.scalar text tag style line)
        | .flowSequenceStart =>
          skipToken
          let place ← openAnchor anchor
          let items ← flowSequence fuel t.start true
          closeAnchor place (.sequence items tag line)
        | .flowMappingStart =>
          skipToken
          let place ← openAnchor anchor
          let pairs ← flowMapping fuel t.start true
          closeAnchor place (.mapping pairs tag line)
        | .blockSequenceStart =>
          if block then
            skipToken
            let place ← openAnchor anchor
            let items ← blockSequence fuel t.start
            closeAnchor place (.sequence items tag line)
          else fallback
        | .blockMappingStart =>
          if block then
            skipToken
            let place ← openAnchor anchor
            let pairs ← blockMapping fuel t.start
            closeAnchor place (.mapping pairs tag line)
          else fallback
        | _ => fallback

/-- Reads the entries of a block sequence up to its end. -/
def blockSequence : Nat → Mark → ReadM (List Node)
  | 0, _ => throw (.fatal "document nested too deeply")
  | fuel + 1, start => do
    let t ← peekToken
    if t.kind.isBlockEntry then
      skipToken
      let t2 ← peekToken
      let item ← if t2.kind.isBlockEntry || t2.kind.isBlockEnd then pure (emptyAt t.start)
        else parseNode fuel true false
      let rest ← blockSequence fuel start
      pure (item :: rest)
    else if t.kind.isBlockEnd then
      skipToken
      pure []
    else parseFail (some start) "did not find expected '-' indicator" t.start

/-- Reads the entries of an indentless sequence: `-` entries at a mapping's indentation. -/
def indentlessSequence : Nat → ReadM (List Node)
  | 0 => throw (.fatal "document nested too deeply")
  | fuel + 1 => do
    let t ← peekToken
    if t.kind.isBlockEntry then
      skipToken
      let t2 ← peekToken
      let item ← if t2.kind.isBlockEntry || t2.kind.endsBlockValue then pure (emptyAt t.start)
        else parseNode fuel true false
      let rest ← indentlessSequence fuel
      pure (item :: rest)
    else pure []

/-- Reads the pairs of a block mapping up to its end. -/
def blockMapping : Nat → Mark → ReadM (List (Node × Node))
  | 0, _ => throw (.fatal "document nested too deeply")
  | fuel + 1, start => do
    let t ← peekToken
    if t.kind.isKey then
      skipToken
      let t2 ← peekToken
      let key ← if t2.kind.endsBlockValue then pure (emptyAt t.start)
        else parseNode fuel true true
      let t3 ← peekToken
      let value ← if t3.kind.isValue then do
          skipToken
          let t4 ← peekToken
          if t4.kind.endsBlockValue then pure (emptyAt t3.start) else parseNode fuel true true
        else pure (emptyAt t3.start)
      let rest ← blockMapping fuel start
      pure ((key, value) :: rest)
    else if t.kind.isBlockEnd then
      skipToken
      pure []
    else parseFail (some start) "did not find expected key" t.start

/-- Reads the entries of a bracketed sequence up to `]`. An entry `key: value` is a mapping of
one pair. An entry `?` with no key before the `:`, `,` or `]` that follows takes that token as
its key's end and drops it, so the entry's value and the rest of the sequence are read after
it. -/
def flowSequence : Nat → Mark → Bool → ReadM (List Node)
  | 0, _, _ => throw (.fatal "document nested too deeply")
  | fuel + 1, start, first => do
    let t ← peekToken
    if t.kind.isFlowSequenceEnd then
      skipToken
      pure []
    else
      if !first then
        if t.kind.isFlowEntry then skipToken
        else parseFail (some start) "did not find expected ',' or ']'" t.start
      let t ← peekToken
      if t.kind.isKey then
        skipToken
        let t2 ← peekToken
        let key ← if t2.kind.isValue || t2.kind.isFlowEntry || t2.kind.isFlowSequenceEnd then do
            skipToken
            pure (emptyAt t.start)
          else parseNode fuel false false
        let t3 ← peekToken
        let value ← if t3.kind.isValue then do
            skipToken
            let t4 ← peekToken
            if t4.kind.isFlowEntry || t4.kind.isFlowSequenceEnd then pure (emptyAt t3.start)
            else parseNode fuel false false
          else pure (emptyAt t3.start)
        let rest ← flowSequence fuel start false
        pure (.mapping [(key, value)] none (t.start.line + 1) :: rest)
      else if t.kind.isFlowSequenceEnd then
        skipToken
        pure []
      else
        let item ← parseNode fuel false false
        let rest ← flowSequence fuel start false
        pure (item :: rest)

/-- Reads the pairs of a bracketed mapping up to `}`. A key without `:` has an empty value. -/
def flowMapping : Nat → Mark → Bool → ReadM (List (Node × Node))
  | 0, _, _ => throw (.fatal "document nested too deeply")
  | fuel + 1, start, first => do
    let t ← peekToken
    if t.kind.isFlowMappingEnd then
      skipToken
      pure []
    else
      if !first then
        if t.kind.isFlowEntry then skipToken
        else parseFail (some start) "did not find expected ',' or '\x7d'" t.start
      let t ← peekToken
      if t.kind.isKey then
        skipToken
        let t2 ← peekToken
        let key ← if t2.kind.isValue || t2.kind.isFlowEntry || t2.kind.isFlowMappingEnd then
            pure (emptyAt t.start)
          else parseNode fuel false false
        let t3 ← peekToken
        let value ← if t3.kind.isValue then do
            skipToken
            let t4 ← peekToken
            if t4.kind.isFlowEntry || t4.kind.isFlowMappingEnd then pure (emptyAt t3.start)
            else parseNode fuel false false
          else pure (emptyAt t3.start)
        let rest ← flowMapping fuel start false
        pure ((key, value) :: rest)
      else if t.kind.isFlowMappingEnd then
        skipToken
        pure []
      else
        let key ← parseNode fuel false false
        let t3 ← peekToken
        let rest ← flowMapping fuel start false
        pure ((key, emptyAt t3.start) :: rest)

end

/-- Reads the directives before a document: at most one `%YAML`, which must be version 1.1,
and `%TAG` handles, each defined once. The standard handles are added after them unless a
directive redefined one. -/
def readDirectives : Nat → Bool → ReadM Unit
  | 0, _ => pure ()
  | fuel + 1, versioned => do
    let t ← peekToken
    match t.kind with
    | .versionDirective major minor =>
      if versioned then parseFail none "found duplicate %YAML directive" t.start
      if major != 1 || minor != 1 then parseFail none "found incompatible YAML document" t.start
      skipToken
      readDirectives fuel true
    | .tagDirective handle pre =>
      if (← get).handles.any (·.1 == handle) then
        parseFail none "found duplicate %TAG directive" t.start
      modify fun r => { r with handles := r.handles ++ [(handle, pre)] }
      skipToken
      readDirectives fuel versioned
    | _ =>
      modify fun r =>
        { r with handles := r.handles ++ standardHandles.filter fun (h, _) =>
            !r.handles.any (·.1 == h) }

/-- Reads the first document: `none` if the text holds none. A document that starts with
directives must then start with `---`; an explicit document may be empty. After the document,
an explicit end marker is read. -/
def parseDocument (fuel : Nat) : ReadM (Option Node) := do
  let t ← peekToken
  let node ← match t.kind with
    | .streamEnd => pure none
    | .versionDirective .. | .tagDirective .. | .documentStart =>
      readDirectives fuel false
      let t ← peekToken
      if !t.kind.isDocumentStart then
        parseFail none "did not find expected <document start>" t.start
      skipToken
      let t2 ← peekToken
      if t2.kind.endsContent then pure (some (emptyAt t2.start))
      else some <$> parseNode fuel true false
    | _ =>
      readDirectives fuel false
      some <$> parseNode fuel true false
  if node.isSome then
    let t ← peekToken
    match t.kind with
    | .documentEnd => skipToken
    | _ => pure ()
  pure node

/-- Reads the first document of a text. A leading byte-order mark is dropped before decoding;
characters that may not appear are found as decoding reaches them. -/
def readDocument (text : String) : Except ReadError (Option Document) :=
  let (chars, offset) := match text.toList with
    | '\uFEFF' :: rest => (rest, 3)
    | cs => (cs, 0)
  let arr := chars.toArray
  let r : Reader := ⟨Scanner.start arr (Feed.start chars offset), 0, [], [], #[], 0, none⟩
  match (parseDocument (4 * arr.size + 16)).run r with
  | .ok n r => .ok (n.map fun root => ⟨root, r.anchored⟩)
  | .error e _ => .error e

end Settings

end TreeArena
