import TreeArena.Command.Run

/-!
# The command-line program

Reads from disk what a run needs, the configuration file the arguments name and the record
directory that configuration names (with every place following their paths visits), then runs
the program and prints its output on standard output and standard error, and its error with exit
status 1.
-/

open TreeArena Command

/-- What a path names on disk: a file and its contents, something that is not a readable file
(taken as a directory), or nothing. -/
def probe (path : String) : IO (Option Command.Entry) := do
  try
    return some (.file (← IO.FS.readFile path))
  catch e =>
    match e with
    | .noFileOrDirectory .. => return none
    | _ => return some (.directory false)

/-- Probes each path, held one character per byte, keeping those that exist. -/
def probeAll (paths : List String) : IO (List (String × Command.Entry)) := do
  let mut found := []
  for p in paths do
    if let some e ← probe (shownPath p) then found := found ++ [(p, e)]
  return found

/-- Runs the program. -/
def main (args : List String) : IO UInt32 := do
  let cwd := rawOfText ((← IO.getEnv "PWD").getD "/")
  let configEntries ← match configPath args with
    | some p => probeAll (visited cwd (rawOfText p))
    | none => pure []
  let files : Files := ⟨cwd, configEntries⟩
  let dirEntries ← match databasePath files args with
    | some d => probeAll (visited cwd d)
    | none => pure []
  let outcome := execute ⟨cwd, configEntries ++ dirEntries⟩ args
  IO.print outcome.stdout
  IO.eprint outcome.stderr
  match outcome.error with
  | some e =>
    IO.eprintln e
    return 1
  | none => return 0
