import TreeArena.Settings.Token
import TreeArena.Settings.Feed
import TreeArena.Text.Utf8

/-!
# Scanning a configuration text

The scanner reads characters and queues tokens. Three mechanisms make the block structure
explicit:

* an indentation stack: a line that starts to the right of the current block opens a block
  (a `blockMappingStart` or `blockSequenceStart`), a line that starts to its left closes blocks
  (`blockEnd`s) until the indentation fits;
* simple keys: where a key may start, the position is remembered; when a `:` follows on the same
  line, a `key` token is inserted there, and a mapping opened if needed. A remembered key at the
  block's own indentation is required: if no `:` comes, that is an error;
* flow levels: inside brackets, indentation does not count and keys are never required.

Each loop reads at least one character per round, so a fuel equal to the text's length bounds
it.
-/

namespace TreeArena

namespace Settings

/-- The character read past the end of the text. -/
def endChar : Char := '\x00'

/-- Whether a character breaks a line. -/
def isBreak (c : Char) : Bool :=
  c == '\n' || c == '\r' || c == '\u0085' || c == '\u2028' || c == '\u2029'

/-- Whether a character is a space or a tab. -/
def isBlank (c : Char) : Bool := c == ' ' || c == '\t'

/-- Whether a character is blank, breaks a line, or lies past the end. -/
def isBlankOrEnd (c : Char) : Bool := isBlank c || isBreak c || c == endChar

/-- Whether a character breaks a line or lies past the end. -/
def isBreakOrEnd (c : Char) : Bool := isBreak c || c == endChar

/-- Whether a character opens or closes a bracketed collection or separates its entries. -/
def isFlowIndicator (c : Char) : Bool :=
  c == ',' || c == '[' || c == ']' || c == '\x7b' || c == '\x7d'

/-- Whether a character may appear in a tag handle or an anchor name. -/
def isWordChar (c : Char) : Bool := c.isAlphanum || c == '_' || c == '-'

/-- Whether a character may appear in a tag: letters, digits and the punctuation of a URI, the
comma and the square brackets included, so that a tag inside brackets runs on over them. -/
def isTagChar (c : Char) : Bool :=
  isWordChar c || c == ';' || c == '/' || c == '?' || c == ':' || c == '@' || c == '&' ||
    c == '=' || c == '+' || c == '$' || c == ',' || c == '.' || c == '%' || c == '!' ||
    c == '~' || c == '*' || c == '\'' || c == '(' || c == ')' || c == '[' || c == ']'

/-- The value of a hexadecimal digit. -/
def hexValue (c : Char) : Option Nat :=
  if '0' ≤ c && c ≤ '9' then some (c.toNat - '0'.toNat)
  else if 'a' ≤ c && c ≤ 'f' then some (c.toNat - 'a'.toNat + 10)
  else if 'A' ≤ c && c ≤ 'F' then some (c.toNat - 'A'.toNat + 10)
  else none

/-- The number of bytes of a UTF-8 sequence that starts with byte `b`; zero if none starts
with it. -/
def utf8Width (b : Nat) : Nat :=
  if b < 0x80 then 1
  else if b / 32 == 6 then 2
  else if b / 16 == 14 then 3
  else if b / 8 == 30 then 4
  else 0

/-- Whether a character has a meaning of its own at the start of a token, so that it cannot
start a plain scalar. -/
def isIndicator (c : Char) : Bool :=
  c == '-' || c == '?' || c == ':' || isFlowIndicator c || c == '#' || c == '&' || c == '*' ||
    c == '!' || c == '|' || c == '>' || c == '\'' || c == '"' || c == '%' || c == '@' ||
    c == '\x60'

/-- A place where a key may start. It becomes a key when a `:` follows on the same line; a
required one must. `number` is the position its `key` token takes in the queue. -/
structure SimpleKey where
  possible : Bool
  required : Bool
  number : Nat
  mark : Mark
deriving Repr, Inhabited

namespace SimpleKey

/-- A candidate key goes stale once the line ends or it has grown past 1024 characters. -/
def stale (k : SimpleKey) (m : Mark) : Bool :=
  k.mark.line < m.line || k.mark.index + 1024 < m.index

end SimpleKey

/-- The scanner: the text, how far it is decoded, the position in it, the queued tokens, the
indentation stack, the depth of brackets, whether a key may start here, the candidate key of
each bracket level (innermost first, the block level last) and whether the end was reached. -/
structure Scanner where
  text : Array Char
  feed : Feed
  mark : Mark
  tokens : Array Token
  indent : Int
  indents : List Int
  flowLevel : Nat
  keyAllowed : Bool
  keys : List SimpleKey
  ended : Bool
deriving Inhabited

/-- Inserts an element at a position of an array, or appends it past the end. -/
def insertAt {α : Type} (a : Array α) (n : Nat) (x : α) : Array α :=
  (a.extract 0 n).push x ++ a.extract n a.size

/-- Scanning steps; an error keeps the state it was found in. -/
abbrev ScanM := EStateM SyntaxError Scanner

namespace Scanner

/-- A scanner at the start of a text, with nothing decoded. -/
def start (text : Array Char) (feed : Feed) : Scanner :=
  { text, feed, mark := ⟨0, 0, 0⟩, tokens := #[], indent := -1, indents := [], flowLevel := 0,
    keyAllowed := true, keys := [⟨false, false, 0, ⟨0, 0, 0⟩⟩], ended := false }

/-- The character `k` places ahead, or `endChar` past the end. -/
def peek (s : Scanner) (k : Nat) : Char := s.text.getD (s.mark.index + k) endChar

/-- Moves one character along a line. -/
def advance (s : Scanner) : Scanner :=
  { s with mark := ⟨s.mark.index + 1, s.mark.line, s.mark.column + 1⟩ }

/-- Moves `n` characters along a line. -/
def advanceBy : Nat → Scanner → Scanner
  | 0, s => s
  | n + 1, s => advanceBy n s.advance

/-- Reads a line break, as a scalar holds it: `\r\n`, `\r`, `\n` and the next-line character
become `\n`, the line and paragraph separators stay. Reads nothing if no break is here. -/
def readBreak (s : Scanner) : String × Scanner :=
  let c := s.peek 0
  let m := s.mark
  if c == '\r' && s.peek 1 == '\n' then ("\n", { s with mark := ⟨m.index + 2, m.line + 1, 0⟩ })
  else if c == '\r' || c == '\n' || c == '\u0085' then
    ("\n", { s with mark := ⟨m.index + 1, m.line + 1, 0⟩ })
  else if isBreak c then (c.toString, { s with mark := ⟨m.index + 1, m.line + 1, 0⟩ })
  else ("", s)

/-- Queues a token. -/
def push (s : Scanner) (kind : TokenKind) (m : Mark) : Scanner :=
  { s with tokens := s.tokens.push ⟨kind, m⟩ }

/-- Whether a document marker, `---` or `...` followed by a blank, starts here. -/
def atMarker (s : Scanner) (c : Char) : Bool :=
  s.mark.column == 0 && s.peek 0 == c && s.peek 1 == c && s.peek 2 == c &&
    isBlankOrEnd (s.peek 3)

/-- Skips characters while they satisfy `p`. -/
def skipWhile (p : Char → Bool) : Nat → Scanner → Scanner
  | 0, s => s
  | fuel + 1, s => if s.peek 0 != endChar && p (s.peek 0) then skipWhile p fuel s.advance else s

/-- Reads characters while they satisfy `p`, appending them to `acc`. -/
def takeWhile (p : Char → Bool) : Nat → Scanner → String → String × Scanner
  | 0, s, acc => (acc, s)
  | fuel + 1, s, acc =>
    let c := s.peek 0
    if c != endChar && p c then takeWhile p fuel s.advance (acc.push c) else (acc, s)

/-- Closes every block indented deeper than `column`. Brackets ignore indentation. -/
def unroll (s : Scanner) (column : Int) : Scanner :=
  if s.flowLevel > 0 then s else go s.indents s
where
  /-- Pops the stack `rest` while the current indentation is deeper than `column`. -/
  go : List Int → Scanner → Scanner
    | [], s => s
    | i :: rest, s =>
      if s.indent > column then
        let s := s.push .blockEnd s.mark
        go rest { s with indent := i, indents := rest }
      else s

/-- Opens a block at `column` if it lies right of the current indentation, queuing its start
token at `number` (or last). Brackets ignore indentation. -/
def roll (s : Scanner) (column : Int) (number : Option Nat) (kind : TokenKind) (m : Mark) :
    Scanner :=
  if s.flowLevel == 0 && s.indent < column then
    let tok : Token := ⟨kind, m⟩
    let tokens := match number with
      | some n => insertAt s.tokens n tok
      | none => s.tokens.push tok
    { s with indents := s.indent :: s.indents, indent := column, tokens }
  else s

/-- Moves over blanks and line breaks up to the character at `target`. -/
def skipTo (target : Nat) : Nat → Scanner → Scanner
  | 0, s => s
  | fuel + 1, s =>
    if s.mark.index ≥ target then s
    else skipTo target fuel (if isBreak (s.peek 0) then s.readBreak.2 else s.advance)

end Scanner

/-- Fails at the current position, naming where the construct being read started. -/
def scanFail {α : Type} (context : Mark) (problem : String) : ScanM α := do
  let s ← get
  throw ⟨problem, s.mark, context, true⟩

/-- The fault of a character that may not appear in a text. It names no line. -/
def readerFault : SyntaxError :=
  ⟨"control characters are not allowed", ⟨0, 0, 0⟩, ⟨0, 0, 0⟩, false⟩

/-- Asks for `k` characters from the position on; a character among them that may not appear
stops scanning. -/
def need (k : Nat) : ScanM Unit := do
  let s ← get
  let (feed, ok) := s.feed.request s.text s.mark.index k
  set { s with feed }
  if !ok then throw readerFault

/-- Asks for `k` characters at every position from `p` to `q`, the way a loop over them asks
before each step: only the first request past the decoded text at each block decodes. -/
def needAlong (k p q : Nat) : Nat → ScanM Unit
  | 0 => pure ()
  | fuel + 1 => do
    let s ← get
    let x := max p (s.feed.decoded + 1 - k)
    if x > q then pure ()
    else
      let (feed, ok) := s.feed.request s.text x k
      set { s with feed }
      if !ok then throw readerFault
      needAlong k (x + 1) q fuel

/-- Asks for `k` characters from the position on only to look ahead: a character among them
that may not appear ends the look-ahead, and is remembered. -/
def lookFor (k : Nat) : ScanM Bool := do
  let s ← get
  let (feed, ok) := s.feed.request s.text s.mark.index k
  set { s with feed := if ok then feed else { feed with softFault := true } }
  pure ok

/-- How far ahead, from `k` on and below 512 characters, the next character that is neither
blank nor a line break lies, if it starts a comment. The look-ahead stops where decoding meets a
character that may not appear. -/
def nextComment (k : Nat) : Nat → ScanM (Option Nat)
  | 0 => pure none
  | fuel + 1 => do
    if k ≥ 512 then return none
    if !(← lookFor (k + 1)) then return none
    let c := (← get).peek k
    if isBlank c || isBreak c then nextComment (k + 1) fuel
    else if c == '#' then return some k
    else return none

/-- Skips a comment and every comment that follows it after nothing but blanks and line breaks,
tabs included, as far as the look-ahead reaches. The position ends at the last comment's line
break. -/
def skipComments : Nat → ScanM Unit
  | 0 => pure ()
  | fuel + 1 => do
    let s ← get
    let p := s.mark.index
    let s := Scanner.skipWhile (fun c => !isBreak c) s.text.size s
    set s
    needAlong 1 p s.mark.index (s.mark.index - p + 2)
    match ← nextComment 1 512 with
    | some k =>
      let s ← get
      let q := s.mark.index
      set (Scanner.skipTo (q + k) (k + 1) s)
      needAlong 2 q (q + k - 1) (k + 2)
      skipComments fuel
    | none => pure ()

/-- Skips blanks, comments and line breaks up to the next token. At the start of a line, a
byte-order mark at the buffer's front makes the scanner pass over one character, whatever it
is. Tabs are skipped only inside brackets or where no key may start; a line break outside
brackets lets a key start. -/
def skipToToken : Nat → ScanM Unit
  | 0 => pure ()
  | fuel + 1 => do
    need 1
    let s ← get
    if s.mark.column == 0 && s.text.getD s.feed.front endChar == '\uFEFF' then set s.advance
    need 1
    let s ← get
    let tabs := s.flowLevel > 0 || !s.keyAllowed
    let p := s.mark.index
    let s := Scanner.skipWhile (fun c => c == ' ' || (tabs && c == '\t')) s.text.size s
    set s
    needAlong 1 (p + 1) s.mark.index (s.mark.index - p + 1)
    if (← get).peek 0 == '#' then skipComments (← get).text.size
    let s ← get
    if isBreak (s.peek 0) then
      need 2
      let s := (← get).readBreak.2
      set (if s.flowLevel == 0 then { s with keyAllowed := true } else s)
      skipToToken fuel

/-- Drops the candidate key of the current level; a required one is an error. -/
def removeKey : ScanM Unit := do
  let s ← get
  match s.keys with
  | k :: rest =>
    if k.possible then
      if k.required then scanFail k.mark "could not find expected ':'"
      else set { s with keys := { k with possible := false } :: rest }
    else pure ()
  | [] => pure ()

/-- Remembers the current position as the candidate key of the current level, if a key may
start here. It is required when it sits at the block's own indentation. -/
def saveKey : ScanM Unit := do
  let s ← get
  if s.keyAllowed then
    let key : SimpleKey :=
      ⟨true, s.flowLevel == 0 && s.indent == (s.mark.column : Int), s.tokens.size, s.mark⟩
    removeKey
    modify fun s => { s with keys := key :: s.keys.drop 1 }

/-- Queues the end of the text: the last line is closed, every block ends, and a pending
required key is an error. -/
def fetchStreamEnd : ScanM Unit := do
  modify fun s =>
    if s.mark.column != 0 then { s with mark := ⟨s.mark.index, s.mark.line + 1, 0⟩ } else s
  modify fun s => s.unroll (-1)
  removeKey
  modify fun s =>
    let s := s.push .streamEnd s.mark
    { s with keyAllowed := false, ended := true }

/-- Reads the `%XX` escapes that spell one character of a tag, adding its bytes to `acc` (last
first). `left` is how many bytes the character still needs, unknown before its first. -/
def uriEscapes (context : Mark) : Nat → Option Nat → List UInt8 → ScanM (List UInt8)
  | 0, _, acc => pure acc
  | fuel + 1, left, acc => do
    let s ← get
    match s.peek 0, hexValue (s.peek 1), hexValue (s.peek 2) with
    | '%', some hi, some lo =>
      let octet := hi * 16 + lo
      let need ← match left with
        | none =>
          let w := utf8Width octet
          if w == 0 then scanFail context "found an incorrect leading UTF-8 octet" else pure w
        | some w =>
          if octet / 64 != 2 then scanFail context "found an incorrect trailing UTF-8 octet"
          else pure w
      set (s.advanceBy 3)
      let acc := UInt8.ofNat octet :: acc
      if need ≤ 1 then pure acc else uriEscapes context fuel (some (need - 1)) acc
    | _, _, _ => scanFail context "did not find URI escaped octet"

/-- Reads the characters of a tag onto `acc` (as bytes, last first), decoding `%` escapes;
`seen` tells whether the tag has any character yet. -/
def tagChars (context : Mark) :
    Nat → List UInt8 → Bool → ScanM (List UInt8 × Bool)
  | 0, acc, seen => pure (acc, seen)
  | fuel + 1, acc, seen => do
    let s ← get
    let c := s.peek 0
    if c != endChar && isTagChar c then
      if c == '%' then
        let acc ← uriEscapes context 4 none acc
        tagChars context fuel acc true
      else
        set s.advance
        tagChars context fuel (c.toString.toUTF8.toList.reverse ++ acc) true
    else pure (acc, seen)

/-- Reads the URI of a tag after `head`, a handle that turned out to be part of it (its leading
`!` is dropped). A tag with no character at all is an error. -/
def tagUri (head : String) (context : Mark) : ScanM String := do
  let size := (← get).text.size
  let start := (String.ofList (head.toList.drop 1)).toUTF8.toList.reverse
  let (acc, seen) ← tagChars context size start (!head.isEmpty)
  if !seen then scanFail context "did not find expected tag URI"
  pure (Utf8.decodeLossy acc.reverse)

/-- Reads a tag handle: `!`, then letters, digits, `_` and `-`, then a closing `!` if one
follows. In a `%TAG` directive a handle other than `!` must be closed. -/
def tagHandle (directive : Bool) (context : Mark) : ScanM String := do
  let s ← get
  if s.peek 0 != '!' then scanFail context "did not find expected '!'"
  let (word, s1) := Scanner.takeWhile isWordChar s.text.size s.advance "!"
  if s1.peek 0 == '!' then
    set s1.advance
    pure (word.push '!')
  else
    set s1
    if directive && word != "!" then scanFail context "did not find expected '!'"
    pure word

/-- Reads one or two digits of a version number. -/
def versionNumber (context : Mark) : ScanM Nat := do
  let s ← get
  let (digits, s1) := Scanner.takeWhile (fun c => '0' ≤ c && c ≤ '9') 3 s ""
  if digits.length > 2 then
    set (s.advanceBy 2)
    scanFail context "found extremely long version number"
  if digits.isEmpty then scanFail context "did not find expected version number"
  set s1
  pure (digits.foldl (fun n c => n * 10 + (c.toNat - '0'.toNat)) 0)

/-- Queues a directive: `%YAML major.minor` or `%TAG handle prefix`, followed by blanks and a
comment up to the line break, which is read too. Every block ends first. -/
def fetchDirective : ScanM Unit := do
  modify fun s => s.unroll (-1)
  removeKey
  modify fun s => { s with keyAllowed := false }
  let s ← get
  let start := s.mark
  let size := s.text.size
  let (name, s1) := Scanner.takeWhile isWordChar size s.advance ""
  set s1
  if name.isEmpty then scanFail start "could not find expected directive name"
  if !isBlankOrEnd (s1.peek 0) then scanFail start "found unexpected non-alphabetical character"
  let kind ← if name == "YAML" then do
      modify fun s => Scanner.skipWhile isBlank size s
      let major ← versionNumber start
      if (← get).peek 0 != '.' then scanFail start "did not find expected digit or '.' character"
      modify fun s => s.advance
      let minor ← versionNumber start
      pure (TokenKind.versionDirective major minor)
    else if name == "TAG" then do
      modify fun s => Scanner.skipWhile isBlank size s
      let handle ← tagHandle true start
      if !isBlank ((← get).peek 0) then scanFail start "did not find expected whitespace"
      modify fun s => Scanner.skipWhile isBlank size s
      let pre ← tagUri "" start
      if !isBlankOrEnd ((← get).peek 0) then
        scanFail start "did not find expected whitespace or line break"
      pure (TokenKind.tagDirective handle pre)
    else scanFail start "found unknown directive name"
  let s2 := Scanner.skipWhile isBlank size (← get)
  let s2 := if s2.peek 0 == '#' then Scanner.skipWhile (fun c => !isBreak c) size s2 else s2
  set s2
  if !isBreakOrEnd (s2.peek 0) then scanFail start "did not find expected comment or line break"
  set ((s2.readBreak).2.push kind start)

/-- Queues a document marker `---` or `...`: every block ends. -/
def fetchDocumentMarker (kind : TokenKind) : ScanM Unit := do
  modify fun s => s.unroll (-1)
  removeKey
  modify fun s =>
    let s' := (s.advanceBy 3).push kind s.mark
    { s' with keyAllowed := false }

/-- Queues `[` or `{`: a key may start at the bracket and inside it. -/
def fetchFlowStart (kind : TokenKind) : ScanM Unit := do
  saveKey
  modify fun s =>
    { s with keys := ⟨false, false, s.tokens.size, s.mark⟩ :: s.keys,
             flowLevel := s.flowLevel + 1, keyAllowed := true }
  modify fun s => s.advance.push kind s.mark

/-- Queues `]` or `}`. -/
def fetchFlowEnd (kind : TokenKind) : ScanM Unit := do
  removeKey
  modify fun s =>
    if s.flowLevel > 0 then { s with flowLevel := s.flowLevel - 1, keys := s.keys.drop 1 } else s
  modify fun s =>
    let s' := s.advance.push kind s.mark
    { s' with keyAllowed := false }

/-- Queues `,`. -/
def fetchFlowEntry : ScanM Unit := do
  removeKey
  modify fun s =>
    let s' := s.advance.push .flowEntry s.mark
    { s' with keyAllowed := true }

/-- Queues `-`: outside brackets it may open a sequence, and only where a key could start. -/
def fetchBlockEntry : ScanM Unit := do
  let s ← get
  if s.flowLevel == 0 then
    if !s.keyAllowed then
      scanFail s.mark "block sequence entries are not allowed in this context"
    modify fun s => s.roll s.mark.column none .blockSequenceStart s.mark
  removeKey
  modify fun s =>
    let s' := s.advance.push .blockEntry s.mark
    { s' with keyAllowed := true }

/-- Queues `?`, an explicit key. -/
def fetchKey : ScanM Unit := do
  let s ← get
  if s.flowLevel == 0 then
    if !s.keyAllowed then scanFail s.mark "mapping keys are not allowed in this context"
    modify fun s => s.roll s.mark.column none .blockMappingStart s.mark
  removeKey
  modify fun s =>
    let s' := s.advance.push .key s.mark
    { s' with keyAllowed := s.flowLevel == 0 }

/-- The candidate key of the current level if it can still be used; a stale one is dropped, and
is an error if it was required. -/
def liveKey : ScanM (Option SimpleKey) := do
  let s ← get
  match s.keys with
  | k :: rest =>
    if k.possible then
      if k.stale s.mark then
        if k.required then scanFail k.mark "could not find expected ':'"
        else
          set { s with keys := { k with possible := false } :: rest }
          pure none
      else pure (some k)
    else pure none
  | [] => pure none

/-- Queues `:`. After a candidate key, the `key` token is inserted where it started, opening a
mapping at its column if needed; no second key may follow on the line. Without one, a value is
allowed only where a key could start. -/
def fetchValue : ScanM Unit := do
  match ← liveKey with
  | some k =>
    modify fun s =>
      let s := { s with tokens := insertAt s.tokens k.number ⟨.key, k.mark⟩ }
      let s := s.roll k.mark.column (some k.number) .blockMappingStart k.mark
      { s with keys := { k with possible := false } :: s.keys.drop 1, keyAllowed := false }
  | none =>
    let s ← get
    if s.flowLevel == 0 then
      if !s.keyAllowed then scanFail s.mark "mapping values are not allowed in this context"
      modify fun s => s.roll s.mark.column none .blockMappingStart s.mark
    modify fun s => { s with keyAllowed := s.flowLevel == 0 }
  modify fun s => s.advance.push .value s.mark

/-- Queues an anchor `&name` or an alias `*name`. -/
def fetchAnchor (isAlias : Bool) : ScanM Unit := do
  saveKey
  modify fun s => { s with keyAllowed := false }
  let s ← get
  let (name, s1) := Scanner.takeWhile isWordChar s.text.size s.advance ""
  set s1
  let c := s1.peek 0
  let follows := isBlankOrEnd c || c == '?' || c == ':' || c == ',' || c == ']' ||
    c == '\x7d' || c == '%' || c == '@' || c == '\x60'
  if name.isEmpty || !follows then
    scanFail s.mark "did not find expected alphabetic or numeric character"
  set (s1.push (if isAlias then .alias name else .anchor name) s.mark)

/-- Queues a tag: `!<uri>`, `!handle!suffix`, `!suffix` or a lone `!`. -/
def fetchTag : ScanM Unit := do
  saveKey
  modify fun s => { s with keyAllowed := false }
  let s ← get
  let start := s.mark
  let (handle, suffix) ←
    if s.peek 1 == '<' then do
      set (s.advanceBy 2)
      let uri ← tagUri "" start
      let s1 ← get
      if s1.peek 0 != '>' then scanFail start "did not find the expected '>'"
      set s1.advance
      pure ("", uri)
    else do
      let h ← tagHandle false start
      if h.length > 1 && h.endsWith "!" then pure (h, ← tagUri "" start)
      else
        let sfx ← tagUri h start
        pure (if sfx.isEmpty then ("", "!") else ("!", sfx))
  let s1 ← get
  let c := s1.peek 0
  if !isBlankOrEnd c && !(s1.flowLevel > 0 && c == ',') then
    scanFail start "did not find expected whitespace or line break"
  set (s1.push (.tag handle suffix) start)

/-- What joining the lines of a scalar has collected: the text so far, the blanks after its
last character, the first line break after it and the breaks after that, and whether a break
was read since the last character. -/
structure Folding where
  text : String := ""
  spaces : String := ""
  leadingBreak : String := ""
  trailingBreaks : String := ""
  afterBreak : Bool := false
deriving Inhabited

namespace Folding

/-- Joins what was skipped before the next character: blanks are kept, a single line break
becomes a space and further breaks are kept as they are. -/
def join (f : Folding) : Folding :=
  if f.afterBreak then
    let sep :=
      if f.leadingBreak.startsWith "\n" then
        if f.trailingBreaks.isEmpty then " " else f.trailingBreaks
      else f.leadingBreak ++ f.trailingBreaks
    { f with text := f.text ++ sep, leadingBreak := "", trailingBreaks := "", afterBreak := false }
  else { f with text := f.text ++ f.spaces, spaces := "" }

/-- Records blanks and line breaks between the words of a scalar. -/
def gap (f : Folding) (s : Scanner) : Folding × Scanner :=
  let c := s.peek 0
  if isBlank c then
    ((if f.afterBreak then f else { f with spaces := f.spaces.push c }), s.advance)
  else
    let (b, s') := s.readBreak
    if f.afterBreak then ({ f with trailingBreaks := f.trailingBreaks ++ b }, s')
    else ({ f with spaces := "", leadingBreak := b, afterBreak := true }, s')

end Folding

/-- Reads the characters of a plain scalar up to a blank or a character that ends it: a `:`
before a blank and, inside brackets, `,?[]{}`. A `:` before anything else stays in the word. -/
def plainWord : Nat → Scanner → Folding → Scanner × Folding
  | 0, s, f => (s, f)
  | fuel + 1, s, f =>
    let c := s.peek 0
    let c1 := s.peek 1
    let flow := s.flowLevel > 0
    if isBlankOrEnd c then (s, f)
    else if c == ':' && isBlankOrEnd c1 then (s, f)
    else if flow && (c == '?' || isFlowIndicator c) then (s, f)
    else
      let f := f.join
      plainWord fuel s.advance { f with text := f.text.push c }

/-- Reads the blanks and line breaks after a word of a plain scalar. A tab in the indentation
of a continuation line is an error. -/
def plainGap (indent : Int) (start : Mark) : Nat → Scanner → Folding →
    Except SyntaxError (Scanner × Folding)
  | 0, s, f => .ok (s, f)
  | fuel + 1, s, f =>
    let c := s.peek 0
    if isBlank c && f.afterBreak && (s.mark.column : Int) < indent && c == '\t' then
      .error ⟨"found a tab character that violates indentation", s.mark, start, true⟩
    else if isBlank c || isBreak c then
      let (f, s) := f.gap s
      plainGap indent start fuel s f
    else .ok (s, f)

/-- Reads a plain scalar word by word. It ends at a comment, a document marker, an indicator
that ends it, or, outside brackets, a line indented no deeper than the enclosing block. -/
def plainLines (indent : Int) (start : Mark) : Nat → Scanner → Folding →
    Except SyntaxError (Scanner × Folding)
  | 0, s, f => .ok (s, f)
  | fuel + 1, s, f =>
    if s.atMarker '-' || s.atMarker '.' || s.peek 0 == '#' then .ok (s, f)
    else
      let (s, f) := plainWord s.text.size s f
      let c := s.peek 0
      if !(isBlank c || isBreak c) then .ok (s, f)
      else
        match plainGap indent start s.text.size s f with
        | .error e => .error e
        | .ok (s, f) =>
          if s.flowLevel == 0 && (s.mark.column : Int) < indent then .ok (s, f)
          else plainLines indent start fuel s f

/-- Queues a plain scalar. A key may start after it only if it ended with a line break. -/
def fetchPlain : ScanM Unit := do
  saveKey
  modify fun s => { s with keyAllowed := false }
  let s ← get
  match plainLines (s.indent + 1) s.mark (s.text.size + 1) s {} with
  | .error e => throw e
  | .ok (s1, f) =>
    let s2 := s1.push (.scalar f.text .plain) s.mark
    set (if f.afterBreak then { s2 with keyAllowed := true } else s2)

/-- Reads `n` hexadecimal digits into a number. -/
def hexDigits (s : Scanner) : Nat → Nat → Option Nat
  | 0, acc => some acc
  | n + 1, acc =>
    match hexValue (s.peek 0) with
    | some d => hexDigits s.advance n (acc * 16 + d)
    | none => none

/-- The character a one-letter escape of a double-quoted scalar stands for. -/
def simpleEscape (c : Char) : Option Char :=
  if c == '0' then some '\x00'
  else if c == 'a' then some '\x07'
  else if c == 'b' then some '\x08'
  else if c == 't' || c == '\t' then some '\t'
  else if c == 'n' then some '\n'
  else if c == 'v' then some '\x0b'
  else if c == 'f' then some '\x0c'
  else if c == 'r' then some '\r'
  else if c == 'e' then some '\x1b'
  else if c == ' ' then some ' '
  else if c == '"' then some '"'
  else if c == '\'' then some '\''
  else if c == '\\' then some '\\'
  else if c == 'N' then some '\u0085'
  else if c == '_' then some '\u00A0'
  else if c == 'L' then some '\u2028'
  else if c == 'P' then some '\u2029'
  else none

/-- Reads an escape sequence of a double-quoted scalar, the backslash included. -/
def escape (start : Mark) (s : Scanner) (f : Folding) : Except SyntaxError (Scanner × Folding) :=
  let c1 := s.peek 1
  match simpleEscape c1 with
  | some e => .ok (s.advanceBy 2, { f with text := f.text.push e })
  | none =>
    let width := if c1 == 'x' then 2 else if c1 == 'u' then 4 else if c1 == 'U' then 8 else 0
    if width == 0 then .error ⟨"found unknown escape character", s.mark, start, true⟩
    else
      let s := s.advanceBy 2
      match hexDigits s width 0 with
      | none => .error ⟨"did not find expected hexdecimal number", s.mark, start, true⟩
      | some v =>
        if (0xD800 ≤ v && v ≤ 0xDFFF) || v > 0x10FFFF then
          .error ⟨"found invalid Unicode character escape code", s.mark, start, true⟩
        else .ok (s.advanceBy width, { f with text := f.text.push (Char.ofNat v) })

/-- Reads the characters of a quoted scalar up to a blank or its closing quote. A backslash
before a line break joins the lines without a space. -/
def quotedWord (single : Bool) (start : Mark) : Nat → Scanner → Folding →
    Except SyntaxError (Scanner × Folding)
  | 0, s, f => .ok (s, f)
  | fuel + 1, s, f =>
    let c := s.peek 0
    let c1 := s.peek 1
    if isBlankOrEnd c then .ok (s, f)
    else if single && c == '\'' && c1 == '\'' then
      quotedWord single start fuel (s.advanceBy 2) { f with text := f.text.push '\'' }
    else if c == (if single then '\'' else '"') then .ok (s, f)
    else if !single && c == '\\' && isBreak c1 then
      .ok (s.advance.readBreak.2, { f with afterBreak := true })
    else if !single && c == '\\' then
      match escape start s f with
      | .error e => .error e
      | .ok (s, f) => quotedWord single start fuel s f
    else quotedWord single start fuel s.advance { f with text := f.text.push c }

/-- Reads blanks and line breaks inside a quoted scalar. -/
def quotedGap : Nat → Scanner → Folding → Scanner × Folding
  | 0, s, f => (s, f)
  | fuel + 1, s, f =>
    let c := s.peek 0
    if isBlank c || isBreak c then
      let (f, s) := f.gap s
      quotedGap fuel s f
    else (s, f)

/-- Reads a quoted scalar up to its closing quote, which is left to read. -/
def quotedLines (single : Bool) (start : Mark) : Nat → Scanner → Folding →
    Except SyntaxError (Scanner × Folding)
  | 0, s, f => .ok (s, f)
  | fuel + 1, s, f =>
    if s.atMarker '-' || s.atMarker '.' then
      .error ⟨"found unexpected document indicator", s.mark, start, true⟩
    else if s.peek 0 == endChar then
      .error ⟨"found unexpected end of stream", s.mark, start, true⟩
    else
      match quotedWord single start s.text.size s { f with afterBreak := false } with
      | .error e => .error e
      | .ok (s, f) =>
        if s.peek 0 == (if single then '\'' else '"') then .ok (s, f)
        else
          let (s, f) := quotedGap s.text.size s f
          quotedLines single start fuel s f.join

/-- Queues a quoted scalar. -/
def fetchQuoted (single : Bool) : ScanM Unit := do
  saveKey
  modify fun s => { s with keyAllowed := false }
  let s ← get
  match quotedLines single s.mark (s.text.size + 1) s.advance {} with
  | .error e => throw e
  | .ok (s1, f) =>
    let style := if single then ScalarStyle.singleQuoted else .doubleQuoted
    set (s1.advance.push (.scalar f.text style) s.mark)

/-- Skips the spaces of a block scalar's indentation, up to `indent` if it is known. -/
def indentSpaces (indent : Nat) : Nat → Scanner → Scanner
  | 0, s => s
  | fuel + 1, s =>
    if (indent == 0 || s.mark.column < indent) && s.peek 0 == ' ' then
      indentSpaces indent fuel s.advance
    else s

/-- Reads the empty and indentation-only lines before a line of a block scalar, and fixes the
indentation from the deepest of them if no indicator gave it. -/
def blockBreaks (start : Mark) (indent : Nat) (floor : Nat) : Nat → Scanner → Nat → String →
    Except SyntaxError (Nat × String × Scanner)
  | 0, s, _, breaks => .ok (indent, breaks, s)
  | fuel + 1, s, deepest, breaks =>
    let within := fun (s : Scanner) => indent == 0 || s.mark.column < indent
    let s := indentSpaces indent s.text.size s
    let deepest := max deepest s.mark.column
    if within s && s.peek 0 == '\t' then
      .error ⟨"found a tab character where an indentation space is expected", s.mark, start,
        true⟩
    else if isBreak (s.peek 0) then
      let (b, s) := s.readBreak
      blockBreaks start indent floor fuel s deepest (breaks ++ b)
    else
      let indent := if indent == 0 then max (max deepest floor) 1 else indent
      .ok (indent, breaks, s)

/-- Reads the lines of a block scalar at its indentation. -/
def blockLines (literal : Bool) (start : Mark) (indent floor : Nat) : Nat → Scanner → String →
    String → String → Bool → Except SyntaxError (String × String × String × Scanner)
  | 0, s, text, leading, trailing, _ => .ok (text, leading, trailing, s)
  | fuel + 1, s, text, leading, trailing, leadingBlank =>
    if s.mark.column != indent || s.peek 0 == endChar then .ok (text, leading, trailing, s)
    else
      let trailingBlank := isBlank (s.peek 0)
      let text :=
        if !literal && leading.startsWith "\n" && !leadingBlank && !trailingBlank then
          (if trailing.isEmpty then text.push ' ' else text)
        else text ++ leading
      let text := text ++ trailing
      let leadingBlank := isBlank (s.peek 0)
      let (line, s) := Scanner.takeWhile (fun c => !isBreak c) s.text.size s ""
      let (leading, s) := s.readBreak
      match blockBreaks start indent floor s.text.size s 0 "" with
      | .error e => .error e
      | .ok (_, trailing, s) =>
        blockLines literal start indent floor fuel s (text ++ line) leading trailing leadingBlank

/-- Reads the header of a block scalar after `|` or `>`: the chomping indicator (`+` keeps
final line breaks, `-` strips them) and the indentation indicator, in either order. -/
def blockHeader (start : Mark) (s : Scanner) : Except SyntaxError (Int × Nat × Scanner) :=
  let chompOf := fun (c : Char) => if c == '+' then (1 : Int) else -1
  let digit := fun (c : Char) => '0' ≤ c && c ≤ '9'
  let zero : SyntaxError := ⟨"found an indentation indicator equal to 0", s.mark, start, true⟩
  let c := s.peek 0
  if c == '+' || c == '-' then
    let s := s.advance
    let d := s.peek 0
    if digit d then
      if d == '0' then .error zero else .ok (chompOf c, d.toNat - '0'.toNat, s.advance)
    else .ok (chompOf c, 0, s)
  else if digit c then
    if c == '0' then .error zero
    else
      let s := s.advance
      let d := s.peek 0
      if d == '+' || d == '-' then .ok (chompOf d, c.toNat - '0'.toNat, s.advance)
      else .ok (0, c.toNat - '0'.toNat, s)
  else .ok (0, 0, s)

/-- Queues a literal (`|`) or folded (`>`) block scalar. -/
def fetchBlockScalar (literal : Bool) : ScanM Unit := do
  removeKey
  modify fun s => { s with keyAllowed := true }
  let s ← get
  let start := s.mark
  let size := s.text.size
  match blockHeader start s.advance with
  | .error e => throw e
  | .ok (chomp, increment, s1) =>
    let s1 := Scanner.skipWhile isBlank size s1
    let s1 := if s1.peek 0 == '#' then Scanner.skipWhile (fun c => !isBreak c) size s1 else s1
    set s1
    if !isBreakOrEnd (s1.peek 0) then
      scanFail start "did not find expected comment or line break"
    let s1 := s1.readBreak.2
    let floor := (s.indent + 1).toNat
    let indent := if increment > 0 then (if s.indent ≥ 0 then s.indent.toNat + increment
      else increment) else 0
    match blockBreaks start indent floor size s1 0 "" with
    | .error e => throw e
    | .ok (indent, trailing, s2) =>
      match blockLines literal start indent floor (size + 1) s2 "" "" trailing false with
      | .error e => throw e
      | .ok (text, leading, trailing, s3) =>
        let text := if chomp != -1 then text ++ leading else text
        let text := if chomp == 1 then text ++ trailing else text
        let style := if literal then ScalarStyle.literal else .folded
        set (s3.push (.scalar text style) start)

/-- Whether a plain scalar starts here: any character that is not an indicator, or `-`, `?`
and `:` followed by something that does not end a token. -/
def startsPlain (s : Scanner) : Bool :=
  let c := s.peek 0
  let c1 := s.peek 1
  !(isBlankOrEnd c || isIndicator c) || (c == '-' && !isBlank c1) ||
    (s.flowLevel == 0 && (c == '?' || c == ':') && !isBlankOrEnd c1)

/-- Reads the token that starts at the position. -/
def fetchToken (s : Scanner) : ScanM Unit := do
  let c := s.peek 0
  let c1 := s.peek 1
  let flow := s.flowLevel > 0
  if c == endChar then fetchStreamEnd
  else if s.mark.column == 0 && c == '%' then fetchDirective
  else if s.atMarker '-' then fetchDocumentMarker .documentStart
  else if s.atMarker '.' then fetchDocumentMarker .documentEnd
  else if c == '[' then fetchFlowStart .flowSequenceStart
  else if c == '\x7b' then fetchFlowStart .flowMappingStart
  else if c == ']' then fetchFlowEnd .flowSequenceEnd
  else if c == '\x7d' then fetchFlowEnd .flowMappingEnd
  else if c == ',' then fetchFlowEntry
  else if c == '-' && isBlankOrEnd c1 then fetchBlockEntry
  else if c == '?' && (flow || isBlankOrEnd c1) then fetchKey
  else if c == ':' && (flow || isBlankOrEnd c1) then fetchValue
  else if c == '*' then fetchAnchor true
  else if c == '&' then fetchAnchor false
  else if c == '!' then fetchTag
  else if c == '|' && !flow then fetchBlockScalar true
  else if c == '>' && !flow then fetchBlockScalar false
  else if c == '\'' then fetchQuoted true
  else if c == '"' then fetchQuoted false
  else if startsPlain s then fetchPlain
  else scanFail s.mark "found character that cannot start any token"

/-- Reads the next token, after closing the blocks the position leaves. The characters a token
spans are asked for as it is read, so a character that may not appear there stops scanning
before any error found after it. -/
def fetchNext : ScanM Unit := do
  need 1
  skipToToken ((← get).text.size + 2)
  modify fun s => s.unroll s.mark.column
  need 4
  let s ← get
  let p := s.mark.index
  tryCatch (fetchToken s) fun e => do
    needAlong 2 p e.problemMark.index (e.problemMark.index + 2 - p)
    throw e
  let q := (← get).mark.index
  needAlong 2 p q (q + 2 - p)

/-- Whether the token at `head` may still turn out to start a key, so that the scanner must
read on. A stale candidate is dropped, and is an error if it was required. -/
def headIsKey (head : Nat) : ScanM Bool := do
  let s ← get
  match s.keys.find? (fun k => k.possible && k.number == head) with
  | none => pure false
  | some k =>
    if k.stale s.mark then
      if k.required then scanFail k.mark "could not find expected ':'"
      else
        set { s with keys := s.keys.map fun (j : SimpleKey) =>
          if j.possible && j.number == head then { j with possible := false } else j }
        pure false
    else pure true

/-- Reads tokens until three wait from `head` on and the first of them cannot start a key, or
the text has ended. -/
def fill (head : Nat) : Nat → ScanM Unit
  | 0 => pure ()
  | fuel + 1 => do
    let s ← get
    if s.ended then pure ()
    else
      let more ← if head + 3 > s.tokens.size then pure true else headIsKey head
      if more then
        fetchNext
        fill head fuel
      else pure ()

end Settings

end TreeArena
