import TreeArena.Text.Quoted
import TreeArena.Text.Numeral
import TreeArena.Text.Case

/-!
# Command-line arguments

The program is `treepool` with the commands `demo`, `records`, `stats`, `exhaust`, `help` and
`completion`, and three flags valid everywhere: `--config FILE`, `--capacity N` and `-h`/`--help`.

Reading the arguments takes two passes, as the command-line library the tool was built with
does:

* finding the command: the first word that is neither a flag nor a flag's value names it. In
  this pass `--help` and `-h` are not yet known flags, so like `--config` they are taken to have
  a value; and a value-taking flag followed by at most one more word ends the search;
* reading the flags of the command found: `--name=value`, `--name value`, `-h` (with `-h=value`),
  and `--` ending the flags. A flag given twice keeps its last value.

`--capacity` reads an integer as a base-prefixed literal: an optional sign, `0b`, `0o`, `0x` or
a leading `0` for octal, and underscores between digits.
-/

namespace TreeArena

namespace Command

/-- The commands, in the order they are registered. -/
inductive Name where
  | demo
  | records
  | stats
  | exhaust
  | help
  | completion
deriving Repr, Inhabited, DecidableEq

namespace Name

/-- Every command, in registration order. -/
def all : List Name := [.demo, .records, .stats, .exhaust, .help, .completion]

/-- The word that names a command. -/
def word : Name → String
  | .demo => "demo"
  | .records => "records"
  | .stats => "stats"
  | .exhaust => "exhaust"
  | .help => "help"
  | .completion => "completion"

/-- The command a word names. -/
def ofWord (w : String) : Option Name := all.find? (·.word == w)

end Name

/-- The shells the completion command writes scripts for, in order of name. -/
inductive Shell where
  | bash
  | fish
  | powershell
  | zsh
deriving Repr, Inhabited, DecidableEq

namespace Shell

/-- Every shell, in order of name. -/
def all : List Shell := [.bash, .fish, .powershell, .zsh]

/-- The word that names a shell. -/
def word : Shell → String
  | .bash => "bash"
  | .fish => "fish"
  | .powershell => "powershell"
  | .zsh => "zsh"

/-- The shell a word names. -/
def ofWord (w : String) : Option Shell := all.find? (·.word == w)

end Shell

/-- The hidden command that answers completion requests: `__complete` gives candidates with
descriptions, its alias `__completeNoDesc` names only. -/
def requestWord (descriptions : Bool) : String :=
  if descriptions then "__complete" else "__completeNoDesc"

/-- What the arguments ask to run: the program itself, one of its commands, the completion
script for a shell, or a completion request (with or without descriptions). -/
inductive Target where
  | program
  | command (n : Name)
  | script (s : Shell)
  | request (descriptions : Bool)
deriving Repr, Inhabited, DecidableEq

namespace Target

/-- The command a word names under a target: the program's commands (and the completion
request command, if `requests` has it registered), and the shells under `completion`. -/
def child (requests : Bool) : Target → String → Option Target
  | .program, w =>
    match Name.ofWord w with
    | some n => some (.command n)
    | none =>
      if requests && w == requestWord true then some (.request true)
      else if requests && w == requestWord false then some (.request false)
      else none
  | .command .completion, w => (Shell.ofWord w).map .script
  | _, _ => none

/-- The long flags of a target that take no value: a shell's script has `--no-descriptions`. -/
def switches : Target → List String
  | .script _ => ["no-descriptions"]
  | _ => []

/-- The name of a target, as its help flag's summary gives it. -/
def name : Target → String
  | .program => "treepool"
  | .command n => n.word
  | .script s => s.word
  | .request _ => requestWord true

/-- The command path of a target, as usage lines and error texts show it. -/
def path : Target → String
  | .program => "treepool"
  | .command n => "treepool " ++ n.word
  | .script s => "treepool completion " ++ s.word
  | .request _ => "treepool " ++ requestWord true

end Target

/-- The values the flags were given, and the names of the flags that were given. -/
structure Flags where
  config : String := ""
  capacity : Int := 0
  help : Bool := false
  noDescriptions : Bool := false
  given : List String := []
deriving Repr, Inhabited, DecidableEq

/-- The name of the program, as error texts and help name it. -/
def program : String := "treepool"

/-- Whether an argument is a flag that takes the following word as its value, in the pass that
finds the command: `--name` without `=` unless the name is one of `switches`, or `-x` without
`=`, two bytes long. -/
def takesValue (switches : List String) (s : String) : Bool :=
  !s.contains '=' &&
    ((s.startsWith "--" && !switches.contains (String.ofList (s.toList.drop 2))) ||
      (s.startsWith "-" && s.utf8ByteSize == 2))

/-- The words of the arguments that are neither flags nor flag values, in the pass that finds
the command. A value-taking flag with at most one word after it ends the scan. -/
def commandWords (switches : List String) : List String → List String
  | [] => []
  | s :: rest =>
    if s == "--" then []
    else if takesValue switches s then
      match rest with
      | _ :: tail => if tail.isEmpty then [] else commandWords switches tail
      | [] => []
    else if s != "" && !s.startsWith "-" then s :: commandWords switches rest
    else commandWords switches rest

/-- The arguments without the first occurrence of the command word `x`, skipping flag values. -/
def withoutWord (switches : List String) (x : String) : List String → List String
  | [] => []
  | s :: rest =>
    if s == "--" then s :: rest
    else if takesValue switches s then
      match rest with
      | v :: more => s :: v :: withoutWord switches x more
      | [] => [s]
    else if !s.startsWith "-" && s == x then rest
    else s :: withoutWord switches x rest

/-- The edit distance between two lists: the fewest insertions, deletions and substitutions
that turn one into the other, computed row by row. -/
def editDistance {α : Type} [BEq α] (s t : List α) : Nat :=
  let first : List Nat := List.range (s.length + 1)
  let last := t.zipIdx.foldl (fun (prev : List Nat) (tc, j) =>
    let step := fun (acc : List Nat × Nat) (x : α × Nat) =>
      let (row, left) := acc
      let (sc, i) := x
      let diag := prev.getD i 0
      let up := prev.getD (i + 1) 0
      let cell := if sc == tc then diag else min (min up left) diag + 1
      (row ++ [cell], cell)
    (s.zipIdx.foldl step ([j + 1], j + 1)).1) first
  last.getD s.length 0

/-- A text in lower case, as bytes. -/
def foldedBytes (s : String) : List UInt8 := (Case.lowerText s).toUTF8.toList

/-- The edit distance between two texts compared without case, counted in bytes. -/
def distance (a b : String) : Nat := editDistance (foldedBytes a) (foldedBytes b)

/-- The commands to suggest for an unknown word: those within two edits of it, or that it
starts, in registration order. The help command is never suggested. -/
def suggestions (w : String) : List String :=
  (Name.all.filter (· != .help)).map Name.word |>.filter fun c =>
    distance w c ≤ 2 || (foldedBytes c).take (foldedBytes w).length == foldedBytes w

/-- The error for a word that names no command, with suggestions if there are any. -/
def unknownCommand (w : String) : String :=
  let base := "unknown command " ++ Quoted.quote w ++ " for " ++ Quoted.quote program
  match suggestions w with
  | [] => base
  | ss => base ++ "\n\nDid you mean this?\n" ++ String.join (ss.map fun c => "\t" ++ c ++ "\n")

/-- Follows the command words of the arguments down from a target, as far as they name
commands, with the arguments left for the last. -/
def descend (requests : Bool) : Nat → Target → List String → Target × List String
  | 0, t, args => (t, args)
  | fuel + 1, t, args =>
    match commandWords t.switches args with
    | [] => (t, args)
    | w :: _ =>
      match t.child requests w with
      | some c => descend requests fuel c (withoutWord t.switches w args)
      | none => (t, args)

/-- Finds what the arguments ask to run, with the arguments left for it; `requests` tells
whether the completion request command is registered. A word left over for the program itself
names no command, which is an error. -/
def locate (requests : Bool) (args : List String) : Except String (Target × List String) :=
  match descend requests 3 .program args with
  | (.program, rest) =>
    match commandWords [] rest with
    | w :: _ => .error (unknownCommand w)
    | [] => .ok (.program, rest)
  | found => .ok found

/-- Finds what the arguments ask to run, with the arguments left for it. The completion request
command is registered only when the arguments call it. -/
def find (args : List String) : Except String (Target × List String) :=
  match locate true args with
  | .ok (.request d, rest) => .ok (.request d, rest)
  | _ => locate false args

/-- Why a number could not be read. -/
inductive NumberError where
  | malformed
  | range
deriving Repr, Inhabited, DecidableEq

/-- Reads digits of a base into a 64-bit unsigned number, skipping underscores; the first
overflow is an error even if a bad digit follows. -/
def unsignedDigits (base : Nat) : List Char → Nat → Bool → Except NumberError (Nat × Bool)
  | [], n, u => .ok (n, u)
  | c :: cs, n, u =>
    if c == '_' then unsignedDigits base cs n true
    else
      let d := if '0' ≤ c && c ≤ '9' then c.toNat - '0'.toNat
        else if 'a' ≤ c.toLower && c.toLower ≤ 'z' then c.toLower.toNat - 'a'.toNat + 10
        else 36
      if d ≥ base then .error .malformed
      else
        let m := n * base + d
        if m ≥ Nat.pow 2 64 then .error .range else unsignedDigits base cs m u

/-- Reads an unsigned 64-bit number with its base prefix. -/
def readUnsigned (s : String) : Except NumberError Nat :=
  let cs := s.toList
  let (base, digits) := match cs with
    | '0' :: c :: d :: r =>
      let l := c.toLower
      if l == 'b' then (2, d :: r) else if l == 'o' then (8, d :: r)
      else if l == 'x' then (16, d :: r) else (8, c :: d :: r)
    | '0' :: r => (8, r)
    | _ => (10, cs)
  if cs.isEmpty then .error .malformed
  else
    match unsignedDigits base digits 0 false with
    | .error e => .error e
    | .ok (n, u) => if u && !Numeral.underscoresOk s then .error .malformed else .ok n

/-- Reads a signed 64-bit number: an optional sign before an unsigned one. -/
def readSigned (s : String) : Except NumberError Int :=
  let (negative, body) := match s.toList with
    | '+' :: r => (false, String.ofList r)
    | '-' :: r => (true, String.ofList r)
    | _ => (false, s)
  if s.isEmpty then .error .malformed
  else
    match readUnsigned body with
    | .error e => .error e
    | .ok n =>
      if negative then (if n ≤ Nat.pow 2 63 then .ok (-(n : Int)) else .error .range)
      else if n < Nat.pow 2 63 then .ok (n : Int) else .error .range

/-- The error text of a number that could not be read. -/
def NumberError.text (e : NumberError) (fn s : String) : String :=
  let why := match e with
    | .malformed => "invalid syntax"
    | .range => "value out of range"
  "strconv." ++ fn ++ ": parsing " ++ Quoted.quote s ++ ": " ++ why

/-- Reads a boolean flag value. -/
def readBool (s : String) : Option Bool :=
  if ["1", "t", "T", "TRUE", "true", "True"].contains s then some true
  else if ["0", "f", "F", "FALSE", "false", "False"].contains s then some false
  else none

/-- Sets the flag `name` to `value` and notes it as given; the error names the flag as usage
shows it. -/
def setFlag (f : Flags) (name value : String) : Except String Flags :=
  let invalid := fun (shown why : String) =>
    "invalid argument " ++ Quoted.quote value ++ " for " ++ Quoted.quote shown ++ " flag: " ++ why
  let boolError := fun (shown : String) =>
    invalid shown ("strconv.ParseBool: parsing " ++ Quoted.quote value ++ ": invalid syntax")
  let f' : Except String Flags :=
    if name == "config" then .ok { f with config := value }
    else if name == "capacity" then
      match readSigned value with
      | .ok n => .ok { f with capacity := n }
      | .error e => .error (invalid "--capacity" (e.text "ParseInt" value))
    else if name == "no-descriptions" then
      match readBool value with
      | some b => .ok { f with noDescriptions := b }
      | none => .error (boolError "--no-descriptions")
    else
      match readBool value with
      | some b => .ok { f with help := b }
      | none => .error (boolError "-h, --help")
  f'.map fun f => if f.given.contains name then f else { f with given := f.given ++ [name] }

/-- A character quoted the way single characters are quoted in error texts: in single quotes,
escaped as in a quoted text except that a double quote stands as it is and a single quote is
escaped. -/
def quoteChar (c : Char) : String :=
  if c == '\'' then "'\\''"
  else if c == '"' then "'\"'"
  else
    let q := Quoted.quote c.toString
    "'" ++ String.ofList ((q.toList.drop 1).dropLast) ++ "'"

/-- The character an error text shows for a short flag `c` that does not exist. The flag is
read one byte at a time, and the error names it by the character whose code is the first byte of
`c`; the text then shows the first byte of that name's encoding. An ASCII `c` shows as itself.
Any other starts with a byte of at least `0xC2`, whose character encodes with first byte `0xC3`,
so it shows as `Ã`. -/
def leadByteChar (c : Char) : Char :=
  let b := (c.toString.toUTF8.toList.headD 0).toNat
  Char.ofNat (((Char.ofNat b).toString.toUTF8.toList.headD 0).toNat)

/-- Reads a group of short flags `-xyz`. Only `h` exists; it needs no value, and `-h=value`
gives one. The rest of a group that reads `test.` on is left alone. -/
def shortFlags (f : Flags) : List Char → Except String Flags
  | [] => .ok f
  | c :: rest =>
    if (c :: rest).take 5 == "test.".toList then .ok f
    else if c == 'h' then
      match rest with
      | '=' :: v :: more => setFlag f "help" (String.ofList (v :: more))
      | _ =>
        match setFlag f "help" "true" with
        | .ok f => shortFlags f rest
        | .error e => .error e
    else
      .error ("unknown shorthand flag: " ++ quoteChar (leadByteChar c) ++ " in -" ++
        String.ofList (c :: rest))

/-- Reads the flags of the arguments, returning them with the remaining words; the flags known
are the configuration, the capacity, help and the `switches`. Each round reads at least one
argument, so `fuel` at least their number suffices. -/
def parseFlagsWithin (switches : List String) :
    Nat → Flags → List String → Except String (Flags × List String)
  | 0, f, args => .ok (f, args)
  | _, f, [] => .ok (f, [])
  | fuel + 1, f, s :: rest =>
    if s.length < 2 || !s.startsWith "-" then
      match parseFlagsWithin switches fuel f rest with
      | .ok (f, words) => .ok (f, s :: words)
      | .error e => .error e
    else if s == "--" then .ok (f, rest)
    else if s.startsWith "--" then
      let body := String.ofList (s.toList.drop 2)
      if body.isEmpty || body.startsWith "-" || body.startsWith "=" then
        .error ("bad flag syntax: " ++ s)
      else
        let name := String.ofList (body.toList.takeWhile (· != '='))
        let given := if body.contains '=' then
            some (String.ofList ((body.toList.dropWhile (· != '=')).drop 1)) else none
        if !((["config", "capacity", "help"] ++ switches).contains name) then
          .error ("unknown flag: --" ++ name)
        else
          let next : Except String (String × List String) :=
            match given with
            | some v => .ok (v, rest)
            | none =>
              if name == "help" || switches.contains name then .ok ("true", rest)
              else match rest with
                | v :: more => .ok (v, more)
                | [] => .error ("flag needs an argument: " ++ s)
          match next with
          | .error e => .error e
          | .ok (value, rest) =>
            match setFlag f name value with
            | .ok f => parseFlagsWithin switches fuel f rest
            | .error e => .error e
    else
      match shortFlags f (s.toList.drop 1) with
      | .ok f => parseFlagsWithin switches fuel f rest
      | .error e => .error e

/-- Reads the flags a target knows from the arguments, returning them with the remaining
words. -/
def parseFlags (t : Target) (args : List String) : Except String (Flags × List String) :=
  parseFlagsWithin t.switches (args.length + 1) {} args

end Command

end TreeArena
