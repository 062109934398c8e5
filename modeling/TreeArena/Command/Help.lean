import TreeArena.Command.Args

/-!
# Help texts

Each command's help is its description, a blank line and its usage: how to call it, its
subcommands with their summaries (sorted by name, padded to a common width), its own flags and
the flags it inherits, and a pointer to the subcommands' help.
-/

namespace TreeArena

namespace Command

/-- The one-line summary of a command. -/
def Name.summary : Name → String
  | .demo => "Build and flatten a nested sum"
  | .records => "Persist expressions as records and resolve them back"
  | .stats => "Print pool metrics in the Prometheus text format after a demo run"
  | .exhaust => "Grow a sum until the pool runs out and show how it degrades"
  | .help => "Help about any command"
  | .completion => "Generate the autocompletion script for the specified shell"

/-- The summary of the program itself. -/
def programSummary : String :=
  "Build, persist and inspect expression trees in a fixed-size node pool"

/-- The lines of the flags every command inherits. -/
def inheritedFlags : String :=
  "      --capacity int    arena size in bytes, overriding the configuration\n" ++
  "      --config string   YAML configuration file"

/-- The line of a command's own help flag. -/
def helpFlag (word : String) : String := "  -h, --help   help for " ++ word

/-- A word padded with spaces to a width. -/
def pad (w : String) (width : Nat) : String := w.pushn ' ' (width - w.length)

/-- A list of subcommands with their summaries. -/
def listing (entries : List (String × String)) : String :=
  String.join (entries.map fun (w, s) => "\n  " ++ pad w 11 ++ " " ++ s)

/-- How the program is used: its subcommands and flags. -/
def programUsage : String :=
  let entries := [Name.completion, .demo, .exhaust, .help, .records, .stats].map
    fun n => (n.word, n.summary)
  "Usage:\n  " ++ program ++ " [command]\n\nAvailable Commands:" ++
    listing entries ++ "\n\nFlags:\n" ++ inheritedFlags ++
    "\n  -h, --help            help for " ++ program ++
    "\n\nUse \"" ++ program ++ " [command] --help\" for more information about a command.\n"

/-- The program's help: its summary and its usage. -/
def programHelp : String := programSummary ++ "\n\n" ++ programUsage

/-- The help of the completion command. -/
def completionHelp : String :=
  let shells := ["bash", "fish", "powershell", "zsh"].map
    fun s => (s, "Generate the autocompletion script for " ++ s)
  "Generate the autocompletion script for " ++ program ++ " for the specified shell.\n" ++
    "See each sub-command's help for details on how to use the generated script.\n\n" ++
    "Usage:\n  " ++ program ++ " completion [command]\n\nAvailable Commands:" ++
    listing shells ++ "\n\nFlags:\n" ++ helpFlag "completion" ++ "\n\nGlobal Flags:\n" ++
    inheritedFlags ++ "\n\nUse \"" ++ program ++
    " completion [command] --help\" for more information about a command.\n"

/-- What a shell's completion command says about the script it prints and how to load it. -/
def Shell.description : Shell → String
  | .bash =>
    "Generate the autocompletion script for the bash shell.\n\n" ++
    "This script depends on the 'bash-completion' package.\n" ++
    "If it is not installed already, you can install it via your OS's package manager.\n\n" ++
    "To load completions in your current shell session:\n\n" ++
    "\tsource <(" ++ program ++ " completion bash)\n\n" ++
    "To load completions for every new session, execute once:\n\n" ++
    "#### Linux:\n\n" ++
    "\t" ++ program ++ " completion bash > /etc/bash_completion.d/" ++ program ++ "\n\n" ++
    "#### macOS:\n\n" ++
    "\t" ++ program ++ " completion bash > $(brew --prefix)/etc/bash_completion.d/" ++ program ++
    "\n\n" ++
    "You will need to start a new shell for this setup to take effect."
  | .zsh =>
    "Generate the autocompletion script for the zsh shell.\n\n" ++
    "If shell completion is not already enabled in your environment you will need\n" ++
    "to enable it.  You can execute the following once:\n\n" ++
    "\techo \"autoload -U compinit; compinit\" >> ~/.zshrc\n\n" ++
    "To load completions in your current shell session:\n\n" ++
    "\tsource <(" ++ program ++ " completion zsh)\n\n" ++
    "To load completions for every new session, execute once:\n\n" ++
    "#### Linux:\n\n" ++
    "\t" ++ program ++ " completion zsh > \"$\x7bfpath[1]\x7d/_" ++ program ++ "\"\n\n" ++
    "#### macOS:\n\n" ++
    "\t" ++ program ++ " completion zsh > $(brew --prefix)/share/zsh/site-functions/_" ++
    program ++ "\n\n" ++
    "You will need to start a new shell for this setup to take effect."
  | .fish =>
    "Generate the autocompletion script for the fish shell.\n\n" ++
    "To load completions in your current shell session:\n\n" ++
    "\t" ++ program ++ " completion fish | source\n\n" ++
    "To load completions for every new session, execute once:\n\n" ++
    "\t" ++ program ++ " completion fish > ~/.config/fish/completions/" ++ program ++
    ".fish\n\n" ++
    "You will need to start a new shell for this setup to take effect."
  | .powershell =>
    "Generate the autocompletion script for powershell.\n\n" ++
    "To load completions in your current shell session:\n\n" ++
    "\t" ++ program ++ " completion powershell | Out-String | Invoke-Expression\n\n" ++
    "To load completions for every new session, add the output of the above command\n" ++
    "to your powershell profile."

/-- The help of a shell's completion command. Only the bash command leaves its flags out of its
usage line. -/
def Shell.help (s : Shell) : String :=
  s.description ++ "\n\nUsage:\n  " ++ program ++ " completion " ++ s.word ++
    (if s == .bash then "" else " [flags]") ++ "\n\nFlags:\n" ++
    "  -h, --help              help for " ++ s.word ++ "\n" ++
    "      --no-descriptions   disable completion descriptions\n\nGlobal Flags:\n" ++
    inheritedFlags ++ "\n"

/-- The help of what the arguments ask to run. -/
def helpText : Target → String
  | .program => programHelp
  | .command .completion => completionHelp
  | .command .help =>
    "Help provides help for any command in the application.\nSimply type " ++ program ++
      " help [path to command] for full details.\n\nUsage:\n  " ++ program ++
      " help [command] [flags]\n\nFlags:\n" ++ helpFlag "help" ++ "\n\nGlobal Flags:\n" ++
      inheritedFlags ++ "\n"
  | .command n =>
    n.summary ++ "\n\nUsage:\n  " ++ program ++ " " ++ n.word ++ " [flags]\n\nFlags:\n" ++
      helpFlag n.word ++ "\n\nGlobal Flags:\n" ++ inheritedFlags ++ "\n"
  | .script s => s.help
  | .request _ =>
    requestWord true ++ " is a special command that is used by the shell completion logic\n" ++
      "to request completion choices for the specified command-line.\n\nUsage:\n  " ++
      program ++ " " ++ requestWord true ++ " [command-line]\n\nAliases:\n  " ++
      requestWord true ++ ", " ++ requestWord false ++ "\n\nFlags:\n" ++
      helpFlag (requestWord true) ++ "\n\nGlobal Flags:\n" ++ inheritedFlags ++ "\n"

end Command

end TreeArena
