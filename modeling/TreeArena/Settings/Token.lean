/-!
# Tokens of a configuration text

The configuration is YAML. It is read in the usual two layers: a scanner turns characters into
tokens, making indentation explicit as block starts and ends and recognising a key only once
its `:` is seen, and a parser turns tokens into a document tree. This module holds what the two
layers share: positions, tokens and syntax errors with the text they are reported by.
-/

namespace TreeArena

namespace Settings

/-- A position in the text, counted from zero: character index, line and column. -/
structure Mark where
  index : Nat
  line : Nat
  column : Nat
deriving Repr, Inhabited, DecidableEq

/-- How a scalar was written. Quoted and block scalars are strings; plain scalars are resolved
by their text. -/
inductive ScalarStyle where
  | plain
  | singleQuoted
  | doubleQuoted
  | literal
  | folded
deriving Repr, Inhabited, DecidableEq

/-- The kinds of token. A tag keeps its handle (`!`, `!!` or `!name!`) and its suffix; a `%TAG`
directive its handle and prefix. -/
inductive TokenKind where
  | versionDirective (major minor : Nat)
  | tagDirective (handle pre : String)
  | streamEnd
  | documentStart
  | documentEnd
  | blockSequenceStart
  | blockMappingStart
  | blockEnd
  | flowSequenceStart
  | flowSequenceEnd
  | flowMappingStart
  | flowMappingEnd
  | blockEntry
  | flowEntry
  | key
  | value
  | alias (name : String)
  | anchor (name : String)
  | tag (handle suffix : String)
  | scalar (text : String) (style : ScalarStyle)
deriving Repr, Inhabited

/-- A token and where it starts. -/
structure Token where
  kind : TokenKind
  start : Mark
deriving Repr, Inhabited

namespace TokenKind

/-- Whether the token is a `KEY`. -/
def isKey : TokenKind → Bool
  | .key => true
  | _ => false

/-- Whether the token is a `VALUE`. -/
def isValue : TokenKind → Bool
  | .value => true
  | _ => false

/-- Whether the token is a block end. -/
def isBlockEnd : TokenKind → Bool
  | .blockEnd => true
  | _ => false

/-- Whether the token is a `-` entry. -/
def isBlockEntry : TokenKind → Bool
  | .blockEntry => true
  | _ => false

/-- Whether the token is a `,`. -/
def isFlowEntry : TokenKind → Bool
  | .flowEntry => true
  | _ => false

/-- Whether the token is a `]`. -/
def isFlowSequenceEnd : TokenKind → Bool
  | .flowSequenceEnd => true
  | _ => false

/-- Whether the token is a `}`. -/
def isFlowMappingEnd : TokenKind → Bool
  | .flowMappingEnd => true
  | _ => false

/-- Whether the token is a `---`. -/
def isDocumentStart : TokenKind → Bool
  | .documentStart => true
  | _ => false

/-- Whether the token ends a document's content: a directive, a document marker or the end of
the text. -/
def endsContent : TokenKind → Bool
  | .versionDirective .. | .tagDirective .. | .documentStart | .documentEnd | .streamEnd => true
  | _ => false

end TokenKind

/-- A syntax error: the problem and where it was found, the start of what was being read (the
zero mark when nothing was), and whether the scanner rather than the parser found it. -/
structure SyntaxError where
  problem : String
  problemMark : Mark
  contextMark : Mark
  scanning : Bool
deriving Repr, Inhabited

namespace SyntaxError

/-- The line an error is reported at: the context's line if it is not the first, else the
problem's. The scanner reports lines counted from one, the parser lines counted from zero, and
line zero is not reported at all. -/
def line (e : SyntaxError) : Nat :=
  let bump := if e.scanning then 1 else 0
  if e.contextMark.line ≠ 0 then e.contextMark.line + bump
  else if e.problemMark.line ≠ 0 then e.problemMark.line + bump
  else 0

/-- The error text: `line N: problem`, or the problem alone when no line is reported. -/
def message (e : SyntaxError) : String :=
  let n := e.line
  let problem := e.problem
  if n = 0 then problem else s!"line {n}: {problem}"

end SyntaxError

end Settings

end TreeArena
