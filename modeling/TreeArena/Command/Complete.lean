import TreeArena.Command.Args
import TreeArena.Command.Help

/-!
# Completion requests

The hidden command `__complete` (or `__completeNoDesc`) answers a shell's completion script. Its
arguments are a command line whose last word is being typed; it prints the candidates for that
word, one a line (with a tab and a description unless descriptions are off), then a colon and
the directive: `0` lets the shell fall back to file names, `4` tells it not to.

The candidates depend on what is being typed:

* the value of a flag (the word after a flag that takes a value, or after `--flag=`): nothing
  is offered, and file names are allowed;
* a flag name (a word starting with `-`): the flags of the command that are not given yet, the
  inherited ones first, each set by name, long forms before the one-letter form;
* anything else: the command's subcommands that start with the word, if no other word is given
  for the command; the help command offers the commands under the one its words name.

Words that name no command, flags that do not parse, and a flag name completion for a flag the
command does not know give no candidates and directive `0`. A given help flag gives none with
directive `4`.
-/

namespace TreeArena

namespace Command

/-- A flag as completion shows it: its name, its one-letter form if any, what it does, and
whether it takes a value. -/
structure FlagInfo where
  name : String
  short : Option Char
  usage : String
  takesValue : Bool
deriving Repr, Inhabited

/-- The flags the program declares for every command. -/
def globalFlags : List FlagInfo :=
  [⟨"capacity", none, "arena size in bytes, overriding the configuration", true⟩,
   ⟨"config", none, "YAML configuration file", true⟩]

/-- The help flag of a target. -/
def helpFlagInfo (t : Target) : FlagInfo := ⟨"help", some 'h', "help for " ++ t.name, false⟩

namespace Target

/-- The flags a target inherits, by name: the program's, for every command under it. -/
def inherited : Target → List FlagInfo
  | .program => []
  | _ => globalFlags

/-- The flags a target declares itself, by name: the program declares the global flags, a
shell's script command its switch, and every command a help flag. The completion request only
has its help flag because it is the command running: completion never adds one to the command
it completes for. -/
def own : Target → List FlagInfo
  | .program => globalFlags ++ [helpFlagInfo .program]
  | .script s =>
    [helpFlagInfo (.script s),
     ⟨"no-descriptions", none, "disable completion descriptions", false⟩]
  | t => [helpFlagInfo t]

/-- The subcommands completion offers under a target, by name, with their summaries. The
completion request command is hidden and never offered. -/
def offered : Target → List (String × String)
  | .program =>
    [Name.completion, .demo, .exhaust, .help, .records, .stats].map fun n => (n.word, n.summary)
  | .command .completion =>
    Shell.all.map fun s => (s.word, "Generate the autocompletion script for " ++ s.word)
  | _ => []

/-- The flag a name refers to under a target: a one-byte name is a one-letter form, anything
else a full name. -/
def findFlag (t : Target) (name : String) : Option FlagInfo :=
  let all := t.own ++ t.inherited
  if name.utf8ByteSize == 1 then all.find? (·.short == name.toList.head?)
  else all.find? (·.name == name)

end Target

/-- Whether an argument has the form of a flag: `--` and at least one more byte, or `-` and a
byte other than `-`. -/
def isFlagArg (a : String) : Bool :=
  (a.utf8ByteSize ≥ 3 && a.startsWith "--") ||
    (a.utf8ByteSize ≥ 2 && a.startsWith "-" && !a.startsWith "--")

/-- The one-byte name the character `c` gives when a flag name is cut after its first byte:
the character itself if it is ASCII, else a name no flag has. -/
def byteName (c : Char) : String := if c.toNat < 128 then c.toString else "\uFFFD"

/-- The name of the flag a flag word ends with: the full name after `--`, or else the
one-byte name of its last character. -/
def endingFlag (w : String) : String :=
  if w.startsWith "--" then String.ofList (w.toList.drop 2) else byteName (w.toList.getLastD '-')

/-- Which flag's value is being typed, if any, with the arguments and the word left, and whether
the flag is unknown. A word `--name=value` or `-x=value` types the value of that flag; otherwise,
after a flag word without `=`, the word types its value and the flag word is dropped. A flag that
takes no value given without `=` means no value is being typed after all. A word that starts
with `-` and has no `=` types a flag name. -/
def flagToComplete (t : Target) (args : List String) (word : String) :
    Option FlagInfo × List String × String × Bool :=
  if word.startsWith "-" && !word.contains '=' then (none, args, word, false)
  else
    let (name, word', withEqual) :=
      if word.startsWith "-" then
        let before := String.ofList (word.toList.takeWhile (· != '='))
        let after := String.ofList ((word.toList.dropWhile (· != '=')).drop 1)
        (endingFlag before, after, true)
      else ("", word, false)
    let (name, trimmed) :=
      if !name.isEmpty then (name, args)
      else
        match args.getLast? with
        | some prev =>
          if isFlagArg prev && !prev.contains '=' then (endingFlag prev, args.dropLast)
          else ("", args)
        | none => ("", args)
    if name.isEmpty then (none, trimmed, word', false)
    else
      match t.findFlag name with
      | none => (none, args, word, true)
      | some f =>
        if !withEqual && !f.takesValue then (none, args, word', false)
        else (some f, trimmed, word', false)

/-- The candidates for a flag name being typed: each flag not given yet, inherited ones first,
its full form and then its one-letter form, when the word starts them. -/
def flagNames (t : Target) (given : List String) (word : String) : List String :=
  (t.inherited ++ t.own).foldl (fun acc f =>
    if given.contains f.name then acc
    else
      let long := "--" ++ f.name
      let acc := if long.startsWith word then acc ++ [long ++ "\t" ++ f.usage] else acc
      match f.short with
      | some c =>
        let short := "-" ++ c.toString
        if short.startsWith word then acc ++ [short ++ "\t" ++ f.usage] else acc
      | none => acc) []

/-- The subcommands of a target that start with the word, as candidates. -/
def subcommands (t : Target) (word : String) : List String :=
  (t.offered.filter fun (w, _) => w.startsWith word).map fun (w, s) => w ++ "\t" ++ s

/-- The candidates and directive for completing the last of the arguments after the others. -/
def candidates (args : List String) : List String × Nat :=
  let word := args.getLastD ""
  match locate true args.dropLast with
  | .error _ => ([], 0)
  | .ok (.request d, _) =>
    if word.startsWith "-" && !word.contains '=' then (flagNames (.request d) [] word, 4)
    else ([], 0)
  | .ok (t, rest) =>
    let (flag, rest, word, unknown) := flagToComplete t rest word
    match parseFlags t rest with
    | .error _ => ([], 0)
    | .ok (flags, words) =>
      let dashed := match parseFlags t (rest ++ ["--"]) with
        | .ok (_, w) => w.length
        | .error _ => words.length
      let flagCompletion := dashed ≤ words.length
      if unknown && flagCompletion then ([], 0)
      else if flags.given.contains "help" then ([], 4)
      else if flag.isNone && word.startsWith "-" && !word.contains '=' && flagCompletion then
        (flagNames t flags.given word, 4)
      else
        let (subs, directive) :=
          if flag.isNone && words.isEmpty then
            (subcommands t word, if t.offered.isEmpty then 0 else 4)
          else ([], 0)
        if flag.isSome && flagCompletion then (subs, directive)
        else
          match t with
          | .command .completion | .script _ => (subs, 4)
          | .command .help =>
            match locate true words with
            | .ok (found, _) => (subs ++ subcommands found word, 4)
            | .error _ => (subs, 4)
          | _ => (subs, directive)

/-- A candidate as printed: without its description when descriptions are off, its first line
only, without surrounding blanks. -/
def shownCandidate (descriptions : Bool) (c : String) : String :=
  let c := if descriptions then c else (c.splitOn "\t").headD ""
  ((c.splitOn "\n").headD "").trimAscii.copy

/-- Whether candidates show their descriptions: the request command keeps the name it was
last reached by, so when the words before the last name the request command again, that name
decides. -/
def showsDescriptions (descriptions : Bool) (args : List String) : Bool :=
  match locate true args.dropLast with
  | .ok (.request d, _) => d
  | _ => descriptions

/-- What a completion request prints: the candidates, one a line, then the directive. -/
def completionAnswer (descriptions : Bool) (args : List String) : String :=
  let descriptions := showsDescriptions descriptions args
  let (cs, directive) := candidates args
  String.join (cs.map fun c => shownCandidate descriptions c ++ "\n") ++ ":" ++
    toString directive ++ "\n"

end Command

end TreeArena
