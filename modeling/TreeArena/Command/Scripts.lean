import TreeArena.Command.Args

/-!
# Completion scripts

The `completion` command prints a script that teaches a shell to complete the program's command
lines. Each script asks the program itself for the candidates, through the hidden command
`__complete` (candidates with descriptions) or `__completeNoDesc` (names only), and turns the
answer into the shell's own completion format; the program's answers are computed by the
completion request (`TreeArena.Command.Complete`).
-/

namespace TreeArena

namespace Command

/-- The bash completion script. It asks the program for completions with the hidden command
`request`, which decides whether they come with descriptions. -/
def bashScript (request : String) : String := String.join [
  "# bash completion V2 for treepool                             -*- shell-scri" ++
    "pt -*-\n",
  "\n",
  "__treepool_debug()\n",
  "\x7b\n",
  "    if [[ -n $\x7bBASH_COMP_DEBUG_FILE-\x7d ]]; then\n",
  "        echo \"$*\" >> \"$\x7bBASH_COMP_DEBUG_FILE\x7d\"\n",
  "    fi\n",
  "\x7d\n",
  "\n",
  "# Macs have bash3 for which the bash-completion package doesn't include\n",
  "# _init_completion. This is a minimal version of that function.\n",
  "__treepool_init_completion()\n",
  "\x7b\n",
  "    COMPREPLY=()\n",
  "    _get_comp_words_by_ref \"$@\" cur prev words cword\n",
  "\x7d\n",
  "\n",
  "# This function calls the treepool program to obtain the completion\n",
  "# results and the directive.  It fills the 'out' and 'directive' vars.\n",
  "__treepool_get_completion_results() \x7b\n",
  "    local requestComp lastParam lastChar args\n",
  "\n",
  "    # Prepare the command to request completions for the program.\n",
  "    # Calling $\x7bwords[0]\x7d instead of directly treepool allows handling" ++
    " aliases\n",
  "    args=(\"$\x7bwords[@]:1\x7d\")\n",
  "    requestComp=\"$\x7bwords[0]\x7d " ++
    request ++
    " $\x7bargs[*]\x7d\"\n",
  "\n",
  "    lastParam=$\x7bwords[$(($\x7b#words[@]\x7d-1))]\x7d\n",
  "    lastChar=$\x7blastParam:$(($\x7b#lastParam\x7d-1)):1\x7d\n",
  "    __treepool_debug \"lastParam $\x7blastParam\x7d, lastChar $\x7blastChar" ++
    "\x7d\"\n",
  "\n",
  "    if [[ -z $\x7bcur\x7d && $\x7blastChar\x7d != = ]]; then\n",
  "        # If the last parameter is complete (there is a space following it)" ++
    "\n",
  "        # We add an extra empty parameter so we can indicate this to the go " ++
    "method.\n",
  "        __treepool_debug \"Adding extra empty parameter\"\n",
  "        requestComp=\"$\x7brequestComp\x7d ''\"\n",
  "    fi\n",
  "\n",
  "    # When completing a flag with an = (e.g., treepool -n=<TAB>)\n",
  "    # bash focuses on the part after the =, so we need to remove\n",
  "    # the flag part from $cur\n",
  "    if [[ $\x7bcur\x7d == -*=* ]]; then\n",
  "        cur=\"$\x7bcur#*=\x7d\"\n",
  "    fi\n",
  "\n",
  "    __treepool_debug \"Calling $\x7brequestComp\x7d\"\n",
  "    # Use eval to handle any environment variables and such\n",
  "    out=$(eval \"$\x7brequestComp\x7d\" 2>/dev/null)\n",
  "\n",
  "    # Extract the directive integer at the very end of the output following " ++
    "a colon (:)\n",
  "    directive=$\x7bout##*:\x7d\n",
  "    # Remove the directive\n",
  "    out=$\x7bout%:*\x7d\n",
  "    if [[ $\x7bdirective\x7d == \"$\x7bout\x7d\" ]]; then\n",
  "        # There is not directive specified\n",
  "        directive=0\n",
  "    fi\n",
  "    __treepool_debug \"The completion directive is: $\x7bdirective\x7d\"\n",
  "    __treepool_debug \"The completions are: $\x7bout\x7d\"\n",
  "\x7d\n",
  "\n",
  "__treepool_process_completion_results() \x7b\n",
  "    local shellCompDirectiveError=1\n",
  "    local shellCompDirectiveNoSpace=2\n",
  "    local shellCompDirectiveNoFileComp=4\n",
  "    local shellCompDirectiveFilterFileExt=8\n",
  "    local shellCompDirectiveFilterDirs=16\n",
  "    local shellCompDirectiveKeepOrder=32\n",
  "\n",
  "    if (((directive & shellCompDirectiveError) != 0)); then\n",
  "        # Error code.  No completion.\n",
  "        __treepool_debug \"Received error from custom completion go code\"\n",
  "        return\n",
  "    else\n",
  "        if (((directive & shellCompDirectiveNoSpace) != 0)); then\n",
  "            if [[ $(type -t compopt) == builtin ]]; then\n",
  "                __treepool_debug \"Activating no space\"\n",
  "                compopt -o nospace\n",
  "            else\n",
  "                __treepool_debug \"No space directive not supported in this " ++
    "version of bash\"\n",
  "            fi\n",
  "        fi\n",
  "        if (((directive & shellCompDirectiveKeepOrder) != 0)); then\n",
  "            if [[ $(type -t compopt) == builtin ]]; then\n",
  "                # no sort isn't supported for bash less than < 4.4\n",
  "                if [[ $\x7bBASH_VERSINFO[0]\x7d -lt 4 || ( $\x7bBASH_VERSINF" ++
    "O[0]\x7d -eq 4 && $\x7bBASH_VERSINFO[1]\x7d -lt 4 ) ]]; then\n",
  "                    __treepool_debug \"No sort directive not supported in th" ++
    "is version of bash\"\n",
  "                else\n",
  "                    __treepool_debug \"Activating keep order\"\n",
  "                    compopt -o nosort\n",
  "                fi\n",
  "            else\n",
  "                __treepool_debug \"No sort directive not supported in this v" ++
    "ersion of bash\"\n",
  "            fi\n",
  "        fi\n",
  "        if (((directive & shellCompDirectiveNoFileComp) != 0)); then\n",
  "            if [[ $(type -t compopt) == builtin ]]; then\n",
  "                __treepool_debug \"Activating no file completion\"\n",
  "                compopt +o default\n",
  "            else\n",
  "                __treepool_debug \"No file completion directive not supporte" ++
    "d in this version of bash\"\n",
  "            fi\n",
  "        fi\n",
  "    fi\n",
  "\n",
  "    # Separate activeHelp from normal completions\n",
  "    local completions=()\n",
  "    local activeHelp=()\n",
  "    __treepool_extract_activeHelp\n",
  "\n",
  "    if (((directive & shellCompDirectiveFilterFileExt) != 0)); then\n",
  "        # File extension filtering\n",
  "        local fullFilter=\"\" filter filteringCmd\n",
  "\n",
  "        # Do not use quotes around the $completions variable or else newline" ++
    "\n",
  "        # characters will be kept.\n",
  "        for filter in $\x7bcompletions[*]\x7d; do\n",
  "            fullFilter+=\"$filter|\"\n",
  "        done\n",
  "\n",
  "        filteringCmd=\"_filedir $fullFilter\"\n",
  "        __treepool_debug \"File filtering command: $filteringCmd\"\n",
  "        $filteringCmd\n",
  "    elif (((directive & shellCompDirectiveFilterDirs) != 0)); then\n",
  "        # File completion for directories only\n",
  "\n",
  "        local subdir\n",
  "        subdir=$\x7bcompletions[0]\x7d\n",
  "        if [[ -n $subdir ]]; then\n",
  "            __treepool_debug \"Listing directories in $subdir\"\n",
  "            pushd \"$subdir\" >/dev/null 2>&1 && _filedir -d && popd >/dev/n" ++
    "ull 2>&1 || return\n",
  "        else\n",
  "            __treepool_debug \"Listing directories in .\"\n",
  "            _filedir -d\n",
  "        fi\n",
  "    else\n",
  "        __treepool_handle_completion_types\n",
  "    fi\n",
  "\n",
  "    __treepool_handle_special_char \"$cur\" :\n",
  "    __treepool_handle_special_char \"$cur\" =\n",
  "\n",
  "    # Print the activeHelp statements before we finish\n",
  "    __treepool_handle_activeHelp\n",
  "\x7d\n",
  "\n",
  "__treepool_handle_activeHelp() \x7b\n",
  "    # Print the activeHelp statements\n",
  "    if (($\x7b#activeHelp[*]\x7d != 0)); then\n",
  "        if [ -z $COMP_TYPE ]; then\n",
  "            # Bash v3 does not set the COMP_TYPE variable.\n",
  "            printf \"\\n\";\n",
  "            printf \"%s\\n\" \"$\x7bactiveHelp[@]\x7d\"\n",
  "            printf \"\\n\"\n",
  "            __treepool_reprint_commandLine\n",
  "            return\n",
  "        fi\n",
  "\n",
  "        # Only print ActiveHelp on the second TAB press\n",
  "        if [ $COMP_TYPE -eq 63 ]; then\n",
  "            printf \"\\n\"\n",
  "            printf \"%s\\n\" \"$\x7bactiveHelp[@]\x7d\"\n",
  "\n",
  "            if (($\x7b#COMPREPLY[*]\x7d == 0)); then\n",
  "                # When there are no completion choices from the program, fil" ++
    "e completion\n",
  "                # may kick in if the program has not disabled it; in such a " ++
    "case, we want\n",
  "                # to know if any files will match what the user typed, so th" ++
    "at we know if\n",
  "                # there will be completions presented, so that we know how t" ++
    "o handle ActiveHelp.\n",
  "                # To find out, we actually trigger the file completion ourse" ++
    "lves;\n",
  "                # the call to _filedir will fill COMPREPLY if files match.\n",
  "                if (((directive & shellCompDirectiveNoFileComp) == 0)); then" ++
    "\n",
  "                    __treepool_debug \"Listing files\"\n",
  "                    _filedir\n",
  "                fi\n",
  "            fi\n",
  "\n",
  "            if (($\x7b#COMPREPLY[*]\x7d != 0)); then\n",
  "                # If there are completion choices to be shown, print a delim" ++
    "iter.\n",
  "                # Re-printing the command-line will automatically be done\n",
  "                # by the shell when it prints the completion choices.\n",
  "                printf -- \"--\"\n",
  "            else\n",
  "                # When there are no completion choices at all, we need\n",
  "                # to re-print the command-line since the shell will\n",
  "                # not be doing it itself.\n",
  "                __treepool_reprint_commandLine\n",
  "            fi\n",
  "        elif [ $COMP_TYPE -eq 37 ] || [ $COMP_TYPE -eq 42 ]; then\n",
  "            # For completion type: menu-complete/menu-complete-backward and " ++
    "insert-completions\n",
  "            # the completions are immediately inserted into the command-line" ++
    ", so we first\n",
  "            # print the activeHelp message and reprint the command-line sinc" ++
    "e the shell won't.\n",
  "            printf \"\\n\"\n",
  "            printf \"%s\\n\" \"$\x7bactiveHelp[@]\x7d\"\n",
  "\n",
  "            __treepool_reprint_commandLine\n",
  "        fi\n",
  "    fi\n",
  "\x7d\n",
  "\n",
  "__treepool_reprint_commandLine() \x7b\n",
  "    # The prompt format is only available from bash 4.4.\n",
  "    # We test if it is available before using it.\n",
  "    if (x=$\x7bPS1@P\x7d) 2> /dev/null; then\n",
  "        printf \"%s\" \"$\x7bPS1@P\x7d$\x7bCOMP_LINE[@]\x7d\"\n",
  "    else\n",
  "        # Can't print the prompt.  Just print the\n",
  "        # text the user had typed, it is workable enough.\n",
  "        printf \"%s\" \"$\x7bCOMP_LINE[@]\x7d\"\n",
  "    fi\n",
  "\x7d\n",
  "\n",
  "# Separate activeHelp lines from real completions.\n",
  "# Fills the $activeHelp and $completions arrays.\n",
  "__treepool_extract_activeHelp() \x7b\n",
  "    local activeHelpMarker=\"_activeHelp_ \"\n",
  "    local endIndex=$\x7b#activeHelpMarker\x7d\n",
  "\n",
  "    while IFS='' read -r comp; do\n",
  "        [[ -z $comp ]] && continue\n",
  "\n",
  "        if [[ $\x7bcomp:0:endIndex\x7d == $activeHelpMarker ]]; then\n",
  "            comp=$\x7bcomp:endIndex\x7d\n",
  "            __treepool_debug \"ActiveHelp found: $comp\"\n",
  "            if [[ -n $comp ]]; then\n",
  "                activeHelp+=(\"$comp\")\n",
  "            fi\n",
  "        else\n",
  "            # Not an activeHelp line but a normal completion\n",
  "            completions+=(\"$comp\")\n",
  "        fi\n",
  "    done <<<\"$\x7bout\x7d\"\n",
  "\x7d\n",
  "\n",
  "__treepool_handle_completion_types() \x7b\n",
  "    __treepool_debug \"__treepool_handle_completion_types: COMP_TYPE is $COM" ++
    "P_TYPE\"\n",
  "\n",
  "    case $COMP_TYPE in\n",
  "    37|42)\n",
  "        # Type: menu-complete/menu-complete-backward and insert-completions" ++
    "\n",
  "        # If the user requested inserting one completion at a time, or all\n",
  "        # completions at once on the command-line we must remove the descrip" ++
    "tions.\n",
  "        # https://github.com/spf13/cobra/issues/1508\n",
  "\n",
  "        # If there are no completions, we don't need to do anything\n",
  "        (( $\x7b#completions[@]\x7d == 0 )) && return 0\n",
  "\n",
  "        local tab=$'\\t'\n",
  "\n",
  "        # Strip any description and escape the completion to handled special" ++
    " characters\n",
  "        IFS=$'\\n' read -ra completions -d '' < <(printf \"%q\\n\" \"$\x7bco" ++
    "mpletions[@]%%$tab*\x7d\")\n",
  "\n",
  "        # Only consider the completions that match\n",
  "        IFS=$'\\n' read -ra COMPREPLY -d '' < <(IFS=$'\\n'; compgen -W \"$" ++
    "\x7bcompletions[*]\x7d\" -- \"$\x7bcur\x7d\")\n",
  "\n",
  "        # compgen looses the escaping so we need to escape all completions a" ++
    "gain since they will\n",
  "        # all be inserted on the command-line.\n",
  "        IFS=$'\\n' read -ra COMPREPLY -d '' < <(printf \"%q\\n\" \"$\x7bCOMP" ++
    "REPLY[@]\x7d\")\n",
  "        ;;\n",
  "\n",
  "    *)\n",
  "        # Type: complete (normal completion)\n",
  "        __treepool_handle_standard_completion_case\n",
  "        ;;\n",
  "    esac\n",
  "\x7d\n",
  "\n",
  "__treepool_handle_standard_completion_case() \x7b\n",
  "    local tab=$'\\t'\n",
  "\n",
  "    # If there are no completions, we don't need to do anything\n",
  "    (( $\x7b#completions[@]\x7d == 0 )) && return 0\n",
  "\n",
  "    # Short circuit to optimize if we don't have descriptions\n",
  "    if [[ \"$\x7bcompletions[*]\x7d\" != *$tab* ]]; then\n",
  "        # First, escape the completions to handle special characters\n",
  "        IFS=$'\\n' read -ra completions -d '' < <(printf \"%q\\n\" \"$\x7bco" ++
    "mpletions[@]\x7d\")\n",
  "        # Only consider the completions that match what the user typed\n",
  "        IFS=$'\\n' read -ra COMPREPLY -d '' < <(IFS=$'\\n'; compgen -W \"$" ++
    "\x7bcompletions[*]\x7d\" -- \"$\x7bcur\x7d\")\n",
  "\n",
  "        # compgen looses the escaping so, if there is only a single completi" ++
    "on, we need to\n",
  "        # escape it again because it will be inserted on the command-line.  " ++
    "If there are multiple\n",
  "        # completions, we don't want to escape them because they will be pri" ++
    "nted in a list\n",
  "        # and we don't want to show escape characters in that list.\n",
  "        if (( $\x7b#COMPREPLY[@]\x7d == 1 )); then\n",
  "            COMPREPLY[0]=$(printf \"%q\" \"$\x7bCOMPREPLY[0]\x7d\")\n",
  "        fi\n",
  "        return 0\n",
  "    fi\n",
  "\n",
  "    local longest=0\n",
  "    local compline\n",
  "    # Look for the longest completion so that we can format things nicely\n",
  "    while IFS='' read -r compline; do\n",
  "        [[ -z $compline ]] && continue\n",
  "\n",
  "        # Before checking if the completion matches what the user typed,\n",
  "        # we need to strip any description and escape the completion to hand" ++
    "le special\n",
  "        # characters because those escape characters are part of what the us" ++
    "er typed.\n",
  "        # Don't call \"printf\" in a sub-shell because it will be much slowe" ++
    "r\n",
  "        # since we are in a loop.\n",
  "        printf -v comp \"%q\" \"$\x7bcompline%%$tab*\x7d\" &>/dev/null || co" ++
    "mp=$(printf \"%q\" \"$\x7bcompline%%$tab*\x7d\")\n",
  "\n",
  "        # Only consider the completions that match\n",
  "        [[ $comp == \"$cur\"* ]] || continue\n",
  "\n",
  "        # The completions matches.  Add it to the list of full completions i" ++
    "ncluding\n",
  "        # its description.  We don't escape the completion because it may ge" ++
    "t printed\n",
  "        # in a list if there are more than one and we don't want show escape" ++
    " characters\n",
  "        # in that list.\n",
  "        COMPREPLY+=(\"$compline\")\n",
  "\n",
  "        # Strip any description before checking the length, and again, don't" ++
    " escape\n",
  "        # the completion because this length is only used when printing the " ++
    "completions\n",
  "        # in a list and we don't want show escape characters in that list.\n",
  "        comp=$\x7bcompline%%$tab*\x7d\n",
  "        if (($\x7b#comp\x7d>longest)); then\n",
  "            longest=$\x7b#comp\x7d\n",
  "        fi\n",
  "    done < <(printf \"%s\\n\" \"$\x7bcompletions[@]\x7d\")\n",
  "\n",
  "    # If there is a single completion left, remove the description text and " ++
    "escape any special characters\n",
  "    if (($\x7b#COMPREPLY[*]\x7d == 1)); then\n",
  "        __treepool_debug \"COMPREPLY[0]: $\x7bCOMPREPLY[0]\x7d\"\n",
  "        COMPREPLY[0]=$(printf \"%q\" \"$\x7bCOMPREPLY[0]%%$tab*\x7d\")\n",
  "        __treepool_debug \"Removed description from single completion, which" ++
    " is now: $\x7bCOMPREPLY[0]\x7d\"\n",
  "    else\n",
  "        # Format the descriptions\n",
  "        __treepool_format_comp_descriptions $longest\n",
  "    fi\n",
  "\x7d\n",
  "\n",
  "__treepool_handle_special_char()\n",
  "\x7b\n",
  "    local comp=\"$1\"\n",
  "    local char=$2\n",
  "    if [[ \"$comp\" == *$\x7bchar\x7d* && \"$COMP_WORDBREAKS\" == *$\x7bchar" ++
    "\x7d* ]]; then\n",
  "        local word=$\x7bcomp%\"$\x7bcomp##*$\x7bchar\x7d\x7d\"\x7d\n",
  "        local idx=$\x7b#COMPREPLY[*]\x7d\n",
  "        while ((--idx >= 0)); do\n",
  "            COMPREPLY[idx]=$\x7bCOMPREPLY[idx]#\"$word\"\x7d\n",
  "        done\n",
  "    fi\n",
  "\x7d\n",
  "\n",
  "__treepool_format_comp_descriptions()\n",
  "\x7b\n",
  "    local tab=$'\\t'\n",
  "    local comp desc maxdesclength\n",
  "    local longest=$1\n",
  "\n",
  "    local i ci\n",
  "    for ci in $\x7b!COMPREPLY[*]\x7d; do\n",
  "        comp=$\x7bCOMPREPLY[ci]\x7d\n",
  "        # Properly format the description string which follows a tab charact" ++
    "er if there is one\n",
  "        if [[ \"$comp\" == *$tab* ]]; then\n",
  "            __treepool_debug \"Original comp: $comp\"\n",
  "            desc=$\x7bcomp#*$tab\x7d\n",
  "            comp=$\x7bcomp%%$tab*\x7d\n",
  "\n",
  "            # $COLUMNS stores the current shell width.\n",
  "            # Remove an extra 4 because we add 2 spaces and 2 parentheses.\n",
  "            maxdesclength=$(( COLUMNS - longest - 4 ))\n",
  "\n",
  "            # Make sure we can fit a description of at least 8 characters\n",
  "            # if we are to align the descriptions.\n",
  "            if ((maxdesclength > 8)); then\n",
  "                # Add the proper number of spaces to align the descriptions" ++
    "\n",
  "                for ((i = $\x7b#comp\x7d ; i < longest ; i++)); do\n",
  "                    comp+=\" \"\n",
  "                done\n",
  "            else\n",
  "                # Don't pad the descriptions so we can fit more text after t" ++
    "he completion\n",
  "                maxdesclength=$(( COLUMNS - $\x7b#comp\x7d - 4 ))\n",
  "            fi\n",
  "\n",
  "            # If there is enough space for any description text,\n",
  "            # truncate the descriptions that are too long for the shell widt" ++
    "h\n",
  "            if ((maxdesclength > 0)); then\n",
  "                if (($\x7b#desc\x7d > maxdesclength)); then\n",
  "                    desc=$\x7bdesc:0:$(( maxdesclength - 1 ))\x7d\n",
  "                    desc+=\"\u2026\"\n",
  "                fi\n",
  "                comp+=\"  ($desc)\"\n",
  "            fi\n",
  "            COMPREPLY[ci]=$comp\n",
  "            __treepool_debug \"Final comp: $comp\"\n",
  "        fi\n",
  "    done\n",
  "\x7d\n",
  "\n",
  "__start_treepool()\n",
  "\x7b\n",
  "    local cur prev words cword split\n",
  "\n",
  "    COMPREPLY=()\n",
  "\n",
  "    # Call _init_completion from the bash-completion package\n",
  "    # to prepare the arguments properly\n",
  "    if declare -F _init_completion >/dev/null 2>&1; then\n",
  "        _init_completion -n =: || return\n",
  "    else\n",
  "        __treepool_init_completion -n =: || return\n",
  "    fi\n",
  "\n",
  "    __treepool_debug\n",
  "    __treepool_debug \"========= starting completion logic ==========\"\n",
  "    __treepool_debug \"cur is $\x7bcur\x7d, words[*] is $\x7bwords[*]\x7d, #" ++
    "words[@] is $\x7b#words[@]\x7d, cword is $cword\"\n",
  "\n",
  "    # The user could have moved the cursor backwards on the command-line.\n",
  "    # We need to trigger completion from the $cword location, so we need\n",
  "    # to truncate the command-line ($words) up to the $cword location.\n",
  "    words=(\"$\x7bwords[@]:0:$cword+1\x7d\")\n",
  "    __treepool_debug \"Truncated words[*]: $\x7bwords[*]\x7d,\"\n",
  "\n",
  "    local out directive\n",
  "    __treepool_get_completion_results\n",
  "    __treepool_process_completion_results\n",
  "\x7d\n",
  "\n",
  "if [[ $(type -t compopt) = \"builtin\" ]]; then\n",
  "    complete -o default -F __start_treepool treepool\n",
  "else\n",
  "    complete -o default -o nospace -F __start_treepool treepool\n",
  "fi\n",
  "\n",
  "# ex: ts=4 sw=4 et filetype=sh\n"]

/-- The zsh completion script, asking for completions with the hidden command `request`. -/
def zshScript (request : String) : String := String.join [
  "#compdef treepool\n",
  "compdef _treepool treepool\n",
  "\n",
  "# zsh completion for treepool                             -*- shell-script -" ++
    "*-\n",
  "\n",
  "__treepool_debug()\n",
  "\x7b\n",
  "    local file=\"$BASH_COMP_DEBUG_FILE\"\n",
  "    if [[ -n $\x7bfile\x7d ]]; then\n",
  "        echo \"$*\" >> \"$\x7bfile\x7d\"\n",
  "    fi\n",
  "\x7d\n",
  "\n",
  "_treepool()\n",
  "\x7b\n",
  "    local shellCompDirectiveError=1\n",
  "    local shellCompDirectiveNoSpace=2\n",
  "    local shellCompDirectiveNoFileComp=4\n",
  "    local shellCompDirectiveFilterFileExt=8\n",
  "    local shellCompDirectiveFilterDirs=16\n",
  "    local shellCompDirectiveKeepOrder=32\n",
  "\n",
  "    local lastParam lastChar flagPrefix requestComp out directive comp lastC" ++
    "omp noSpace keepOrder\n",
  "    local -a completions\n",
  "\n",
  "    __treepool_debug \"\\n========= starting completion logic ==========\"\n",
  "    __treepool_debug \"CURRENT: $\x7bCURRENT\x7d, words[*]: $\x7bwords[*]" ++
    "\x7d\"\n",
  "\n",
  "    # The user could have moved the cursor backwards on the command-line.\n",
  "    # We need to trigger completion from the $CURRENT location, so we need\n",
  "    # to truncate the command-line ($words) up to the $CURRENT location.\n",
  "    # (We cannot use $CURSOR as its value does not work when a command is an" ++
    " alias.)\n",
  "    words=(\"$\x7b=words[1,CURRENT]\x7d\")\n",
  "    __treepool_debug \"Truncated words[*]: $\x7bwords[*]\x7d,\"\n",
  "\n",
  "    lastParam=$\x7bwords[-1]\x7d\n",
  "    lastChar=$\x7blastParam[-1]\x7d\n",
  "    __treepool_debug \"lastParam: $\x7blastParam\x7d, lastChar: $\x7blastCha" ++
    "r\x7d\"\n",
  "\n",
  "    # For zsh, when completing a flag with an = (e.g., treepool -n=<TAB>)\n",
  "    # completions must be prefixed with the flag\n",
  "    setopt local_options BASH_REMATCH\n",
  "    if [[ \"$\x7blastParam\x7d\" =~ '-.*=' ]]; then\n",
  "        # We are dealing with a flag with an =\n",
  "        flagPrefix=\"-P $\x7bBASH_REMATCH\x7d\"\n",
  "    fi\n",
  "\n",
  "    # Prepare the command to obtain completions\n",
  "    requestComp=\"$\x7bwords[1]\x7d " ++
    request ++
    " $\x7bwords[2,-1]\x7d\"\n",
  "    if [ \"$\x7blastChar\x7d\" = \"\" ]; then\n",
  "        # If the last parameter is complete (there is a space following it)" ++
    "\n",
  "        # We add an extra empty parameter so we can indicate this to the go " ++
    "completion code.\n",
  "        __treepool_debug \"Adding extra empty parameter\"\n",
  "        requestComp=\"$\x7brequestComp\x7d \\\"\\\"\"\n",
  "    fi\n",
  "\n",
  "    __treepool_debug \"About to call: eval $\x7brequestComp\x7d\"\n",
  "\n",
  "    # Use eval to handle any environment variables and such\n",
  "    out=$(eval $\x7brequestComp\x7d 2>/dev/null)\n",
  "    __treepool_debug \"completion output: $\x7bout\x7d\"\n",
  "\n",
  "    # Extract the directive integer following a : from the last line\n",
  "    local lastLine\n",
  "    while IFS='\\n' read -r line; do\n",
  "        lastLine=$\x7bline\x7d\n",
  "    done < <(printf \"%s\\n\" \"$\x7bout[@]\x7d\")\n",
  "    __treepool_debug \"last line: $\x7blastLine\x7d\"\n",
  "\n",
  "    if [ \"$\x7blastLine[1]\x7d\" = : ]; then\n",
  "        directive=$\x7blastLine[2,-1]\x7d\n",
  "        # Remove the directive including the : and the newline\n",
  "        local suffix\n",
  "        (( suffix=$\x7b#lastLine\x7d+2))\n",
  "        out=$\x7bout[1,-$suffix]\x7d\n",
  "    else\n",
  "        # There is no directive specified.  Leave $out as is.\n",
  "        __treepool_debug \"No directive found.  Setting do default\"\n",
  "        directive=0\n",
  "    fi\n",
  "\n",
  "    __treepool_debug \"directive: $\x7bdirective\x7d\"\n",
  "    __treepool_debug \"completions: $\x7bout\x7d\"\n",
  "    __treepool_debug \"flagPrefix: $\x7bflagPrefix\x7d\"\n",
  "\n",
  "    if [ $((directive & shellCompDirectiveError)) -ne 0 ]; then\n",
  "        __treepool_debug \"Completion received error. Ignoring completions." ++
    "\"\n",
  "        return\n",
  "    fi\n",
  "\n",
  "    local activeHelpMarker=\"_activeHelp_ \"\n",
  "    local endIndex=$\x7b#activeHelpMarker\x7d\n",
  "    local startIndex=$(($\x7b#activeHelpMarker\x7d+1))\n",
  "    local hasActiveHelp=0\n",
  "    while IFS='\\n' read -r comp; do\n",
  "        # Check if this is an activeHelp statement (i.e., prefixed with $act" ++
    "iveHelpMarker)\n",
  "        if [ \"$\x7bcomp[1,$endIndex]\x7d\" = \"$activeHelpMarker\" ];then\n",
  "            __treepool_debug \"ActiveHelp found: $comp\"\n",
  "            comp=\"$\x7bcomp[$startIndex,-1]\x7d\"\n",
  "            if [ -n \"$comp\" ]; then\n",
  "                compadd -x \"$\x7bcomp\x7d\"\n",
  "                __treepool_debug \"ActiveHelp will need delimiter\"\n",
  "                hasActiveHelp=1\n",
  "            fi\n",
  "\n",
  "            continue\n",
  "        fi\n",
  "\n",
  "        if [ -n \"$comp\" ]; then\n",
  "            # If requested, completions are returned with a description.\n",
  "            # The description is preceded by a TAB character.\n",
  "            # For zsh's _describe, we need to use a : instead of a TAB.\n",
  "            # We first need to escape any : as part of the completion itself" ++
    ".\n",
  "            comp=$\x7bcomp//:/\\\\:\x7d\n",
  "\n",
  "            local tab=\"$(printf '\\t')\"\n",
  "            comp=$\x7bcomp//$tab/:\x7d\n",
  "\n",
  "            __treepool_debug \"Adding completion: $\x7bcomp\x7d\"\n",
  "            completions+=$\x7bcomp\x7d\n",
  "            lastComp=$comp\n",
  "        fi\n",
  "    done < <(printf \"%s\\n\" \"$\x7bout[@]\x7d\")\n",
  "\n",
  "    # Add a delimiter after the activeHelp statements, but only if:\n",
  "    # - there are completions following the activeHelp statements, or\n",
  "    # - file completion will be performed (so there will be choices after th" ++
    "e activeHelp)\n",
  "    if [ $hasActiveHelp -eq 1 ]; then\n",
  "        if [ $\x7b#completions\x7d -ne 0 ] || [ $((directive & shellCompDire" ++
    "ctiveNoFileComp)) -eq 0 ]; then\n",
  "            __treepool_debug \"Adding activeHelp delimiter\"\n",
  "            compadd -x \"--\"\n",
  "            hasActiveHelp=0\n",
  "        fi\n",
  "    fi\n",
  "\n",
  "    if [ $((directive & shellCompDirectiveNoSpace)) -ne 0 ]; then\n",
  "        __treepool_debug \"Activating nospace.\"\n",
  "        noSpace=\"-S ''\"\n",
  "    fi\n",
  "\n",
  "    if [ $((directive & shellCompDirectiveKeepOrder)) -ne 0 ]; then\n",
  "        __treepool_debug \"Activating keep order.\"\n",
  "        keepOrder=\"-V\"\n",
  "    fi\n",
  "\n",
  "    if [ $((directive & shellCompDirectiveFilterFileExt)) -ne 0 ]; then\n",
  "        # File extension filtering\n",
  "        local filteringCmd\n",
  "        filteringCmd='_files'\n",
  "        for filter in $\x7bcompletions[@]\x7d; do\n",
  "            if [ $\x7bfilter[1]\x7d != '*' ]; then\n",
  "                # zsh requires a glob pattern to do file filtering\n",
  "                filter=\"\\*.$filter\"\n",
  "            fi\n",
  "            filteringCmd+=\" -g $filter\"\n",
  "        done\n",
  "        filteringCmd+=\" $\x7bflagPrefix\x7d\"\n",
  "\n",
  "        __treepool_debug \"File filtering command: $filteringCmd\"\n",
  "        _arguments '*:filename:'\"$filteringCmd\"\n",
  "    elif [ $((directive & shellCompDirectiveFilterDirs)) -ne 0 ]; then\n",
  "        # File completion for directories only\n",
  "        local subdir\n",
  "        subdir=\"$\x7bcompletions[1]\x7d\"\n",
  "        if [ -n \"$subdir\" ]; then\n",
  "            __treepool_debug \"Listing directories in $subdir\"\n",
  "            pushd \"$\x7bsubdir\x7d\" >/dev/null 2>&1\n",
  "        else\n",
  "            __treepool_debug \"Listing directories in .\"\n",
  "        fi\n",
  "\n",
  "        local result\n",
  "        _arguments '*:dirname:_files -/'\" $\x7bflagPrefix\x7d\"\n",
  "        result=$?\n",
  "        if [ -n \"$subdir\" ]; then\n",
  "            popd >/dev/null 2>&1\n",
  "        fi\n",
  "        return $result\n",
  "    else\n",
  "        __treepool_debug \"Calling _describe\"\n",
  "        if eval _describe $keepOrder \"completions\" completions $flagPrefix" ++
    " $noSpace; then\n",
  "            __treepool_debug \"_describe found some completions\"\n",
  "\n",
  "            # Return the success of having called _describe\n",
  "            return 0\n",
  "        else\n",
  "            __treepool_debug \"_describe did not find completions.\"\n",
  "            __treepool_debug \"Checking if we should do file completion.\"\n",
  "            if [ $((directive & shellCompDirectiveNoFileComp)) -ne 0 ]; then" ++
    "\n",
  "                __treepool_debug \"deactivating file completion\"\n",
  "\n",
  "                # We must return an error code here to let zsh know that the" ++
    "re were no\n",
  "                # completions found by _describe; this is what will trigger " ++
    "other\n",
  "                # matching algorithms to attempt to find completions.\n",
  "                # For example zsh can match letters in the middle of words." ++
    "\n",
  "                return 1\n",
  "            else\n",
  "                # Perform file completion\n",
  "                __treepool_debug \"Activating file completion\"\n",
  "\n",
  "                # We must return the result of this command, so it must be t" ++
    "he\n",
  "                # last command, or else we must store its result to return i" ++
    "t.\n",
  "                _arguments '*:filename:_files'\" $\x7bflagPrefix\x7d\"\n",
  "            fi\n",
  "        fi\n",
  "    fi\n",
  "\x7d\n",
  "\n",
  "# don't run the completion function when being source-ed or eval-ed\n",
  "if [ \"$funcstack[1]\" = \"_treepool\" ]; then\n",
  "    _treepool\n",
  "fi\n"]

/-- The fish completion script, asking for completions with the hidden command `request`. -/
def fishScript (request : String) : String := String.join [
  "# fish completion for treepool                             -*- shell-script " ++
    "-*-\n",
  "\n",
  "function __treepool_debug\n",
  "    set -l file \"$BASH_COMP_DEBUG_FILE\"\n",
  "    if test -n \"$file\"\n",
  "        echo \"$argv\" >> $file\n",
  "    end\n",
  "end\n",
  "\n",
  "function __treepool_perform_completion\n",
  "    __treepool_debug \"Starting __treepool_perform_completion\"\n",
  "\n",
  "    # Extract all args except the last one\n",
  "    set -l args (commandline -opc)\n",
  "    # Extract the last arg and escape it in case it is a space\n",
  "    set -l lastArg (string escape -- (commandline -ct))\n",
  "\n",
  "    __treepool_debug \"args: $args\"\n",
  "    __treepool_debug \"last arg: $lastArg\"\n",
  "\n",
  "    # Disable ActiveHelp which is not supported for fish shell\n",
  "    set -l requestComp \"TREEPOOL_ACTIVE_HELP=0 $args[1] " ++
    request ++
    " $args[2..-1] $lastArg\"\n",
  "\n",
  "    __treepool_debug \"Calling $requestComp\"\n",
  "    set -l results (eval $requestComp 2> /dev/null)\n",
  "\n",
  "    # Some programs may output extra empty lines after the directive.\n",
  "    # Let's ignore them or else it will break completion.\n",
  "    # Ref: https://github.com/spf13/cobra/issues/1279\n",
  "    for line in $results[-1..1]\n",
  "        if test (string trim -- $line) = \"\"\n",
  "            # Found an empty line, remove it\n",
  "            set results $results[1..-2]\n",
  "        else\n",
  "            # Found non-empty line, we have our proper output\n",
  "            break\n",
  "        end\n",
  "    end\n",
  "\n",
  "    set -l comps $results[1..-2]\n",
  "    set -l directiveLine $results[-1]\n",
  "\n",
  "    # For Fish, when completing a flag with an = (e.g., <program> -n=<TAB>)" ++
    "\n",
  "    # completions must be prefixed with the flag\n",
  "    set -l flagPrefix (string match -r -- '-.*=' \"$lastArg\")\n",
  "\n",
  "    __treepool_debug \"Comps: $comps\"\n",
  "    __treepool_debug \"DirectiveLine: $directiveLine\"\n",
  "    __treepool_debug \"flagPrefix: $flagPrefix\"\n",
  "\n",
  "    for comp in $comps\n",
  "        printf \"%s%s\\n\" \"$flagPrefix\" \"$comp\"\n",
  "    end\n",
  "\n",
  "    printf \"%s\\n\" \"$directiveLine\"\n",
  "end\n",
  "\n",
  "# this function limits calls to __treepool_perform_completion, by caching th" ++
    "e result behind $__treepool_perform_completion_once_result\n",
  "function __treepool_perform_completion_once\n",
  "    __treepool_debug \"Starting __treepool_perform_completion_once\"\n",
  "\n",
  "    if test -n \"$__treepool_perform_completion_once_result\"\n",
  "        __treepool_debug \"Seems like a valid result already exists, skippin" ++
    "g __treepool_perform_completion\"\n",
  "        return 0\n",
  "    end\n",
  "\n",
  "    set --global __treepool_perform_completion_once_result (__treepool_perfo" ++
    "rm_completion)\n",
  "    if test -z \"$__treepool_perform_completion_once_result\"\n",
  "        __treepool_debug \"No completions, probably due to a failure\"\n",
  "        return 1\n",
  "    end\n",
  "\n",
  "    __treepool_debug \"Performed completions and set __treepool_perform_comp" ++
    "letion_once_result\"\n",
  "    return 0\n",
  "end\n",
  "\n",
  "# this function is used to clear the $__treepool_perform_completion_once_res" ++
    "ult variable after completions are run\n",
  "function __treepool_clear_perform_completion_once_result\n",
  "    __treepool_debug \"\"\n",
  "    __treepool_debug \"========= clearing previously set __treepool_perform_" ++
    "completion_once_result variable ==========\"\n",
  "    set --erase __treepool_perform_completion_once_result\n",
  "    __treepool_debug \"Successfully erased the variable __treepool_perform_c" ++
    "ompletion_once_result\"\n",
  "end\n",
  "\n",
  "function __treepool_requires_order_preservation\n",
  "    __treepool_debug \"\"\n",
  "    __treepool_debug \"========= checking if order preservation is required " ++
    "==========\"\n",
  "\n",
  "    __treepool_perform_completion_once\n",
  "    if test -z \"$__treepool_perform_completion_once_result\"\n",
  "        __treepool_debug \"Error determining if order preservation is requir" ++
    "ed\"\n",
  "        return 1\n",
  "    end\n",
  "\n",
  "    set -l directive (string sub --start 2 $__treepool_perform_completion_on" ++
    "ce_result[-1])\n",
  "    __treepool_debug \"Directive is: $directive\"\n",
  "\n",
  "    set -l shellCompDirectiveKeepOrder 32\n",
  "    set -l keeporder (math (math --scale 0 $directive / $shellCompDirectiveK" ++
    "eepOrder) % 2)\n",
  "    __treepool_debug \"Keeporder is: $keeporder\"\n",
  "\n",
  "    if test $keeporder -ne 0\n",
  "        __treepool_debug \"This does require order preservation\"\n",
  "        return 0\n",
  "    end\n",
  "\n",
  "    __treepool_debug \"This doesn't require order preservation\"\n",
  "    return 1\n",
  "end\n",
  "\n",
  "\n",
  "# This function does two things:\n",
  "# - Obtain the completions and store them in the global __treepool_comp_resu" ++
    "lts\n",
  "# - Return false if file completion should be performed\n",
  "function __treepool_prepare_completions\n",
  "    __treepool_debug \"\"\n",
  "    __treepool_debug \"========= starting completion logic ==========\"\n",
  "\n",
  "    # Start fresh\n",
  "    set --erase __treepool_comp_results\n",
  "\n",
  "    __treepool_perform_completion_once\n",
  "    __treepool_debug \"Completion results: $__treepool_perform_completion_on" ++
    "ce_result\"\n",
  "\n",
  "    if test -z \"$__treepool_perform_completion_once_result\"\n",
  "        __treepool_debug \"No completion, probably due to a failure\"\n",
  "        # Might as well do file completion, in case it helps\n",
  "        return 1\n",
  "    end\n",
  "\n",
  "    set -l directive (string sub --start 2 $__treepool_perform_completion_on" ++
    "ce_result[-1])\n",
  "    set --global __treepool_comp_results $__treepool_perform_completion_once" ++
    "_result[1..-2]\n",
  "\n",
  "    __treepool_debug \"Completions are: $__treepool_comp_results\"\n",
  "    __treepool_debug \"Directive is: $directive\"\n",
  "\n",
  "    set -l shellCompDirectiveError 1\n",
  "    set -l shellCompDirectiveNoSpace 2\n",
  "    set -l shellCompDirectiveNoFileComp 4\n",
  "    set -l shellCompDirectiveFilterFileExt 8\n",
  "    set -l shellCompDirectiveFilterDirs 16\n",
  "\n",
  "    if test -z \"$directive\"\n",
  "        set directive 0\n",
  "    end\n",
  "\n",
  "    set -l compErr (math (math --scale 0 $directive / $shellCompDirectiveErr" ++
    "or) % 2)\n",
  "    if test $compErr -eq 1\n",
  "        __treepool_debug \"Received error directive: aborting.\"\n",
  "        # Might as well do file completion, in case it helps\n",
  "        return 1\n",
  "    end\n",
  "\n",
  "    set -l filefilter (math (math --scale 0 $directive / $shellCompDirective" ++
    "FilterFileExt) % 2)\n",
  "    set -l dirfilter (math (math --scale 0 $directive / $shellCompDirectiveF" ++
    "ilterDirs) % 2)\n",
  "    if test $filefilter -eq 1; or test $dirfilter -eq 1\n",
  "        __treepool_debug \"File extension filtering or directory filtering n" ++
    "ot supported\"\n",
  "        # Do full file completion instead\n",
  "        return 1\n",
  "    end\n",
  "\n",
  "    set -l nospace (math (math --scale 0 $directive / $shellCompDirectiveNoS" ++
    "pace) % 2)\n",
  "    set -l nofiles (math (math --scale 0 $directive / $shellCompDirectiveNoF" ++
    "ileComp) % 2)\n",
  "\n",
  "    __treepool_debug \"nospace: $nospace, nofiles: $nofiles\"\n",
  "\n",
  "    # If we want to prevent a space, or if file completion is NOT disabled," ++
    "\n",
  "    # we need to count the number of valid completions.\n",
  "    # To do so, we will filter on prefix as the completions we have received" ++
    "\n",
  "    # may not already be filtered so as to allow fish to match on different" ++
    "\n",
  "    # criteria than the prefix.\n",
  "    if test $nospace -ne 0; or test $nofiles -eq 0\n",
  "        set -l prefix (commandline -t | string escape --style=regex)\n",
  "        __treepool_debug \"prefix: $prefix\"\n",
  "\n",
  "        set -l completions (string match -r -- \"^$prefix.*\" $__treepool_co" ++
    "mp_results)\n",
  "        set --global __treepool_comp_results $completions\n",
  "        __treepool_debug \"Filtered completions are: $__treepool_comp_result" ++
    "s\"\n",
  "\n",
  "        # Important not to quote the variable for count to work\n",
  "        set -l numComps (count $__treepool_comp_results)\n",
  "        __treepool_debug \"numComps: $numComps\"\n",
  "\n",
  "        if test $numComps -eq 1; and test $nospace -ne 0\n",
  "            # We must first split on \\t to get rid of the descriptions to b" ++
    "e\n",
  "            # able to check what the actual completion will be.\n",
  "            # We don't need descriptions anyway since there is only a single" ++
    "\n",
  "            # real completion which the shell will expand immediately.\n",
  "            set -l split (string split --max 1 \\t $__treepool_comp_results[" ++
    "1])\n",
  "\n",
  "            # Fish won't add a space if the completion ends with any\n",
  "            # of the following characters: @=/:.,\n",
  "            set -l lastChar (string sub -s -1 -- $split)\n",
  "            if not string match -r -q \"[@=/:.,]\" -- \"$lastChar\"\n",
  "                # In other cases, to support the \"nospace\" directive we tr" ++
    "ick the shell\n",
  "                # by outputting an extra, longer completion.\n",
  "                __treepool_debug \"Adding second completion to perform nospa" ++
    "ce directive\"\n",
  "                set --global __treepool_comp_results $split[1] $split[1].\n",
  "                __treepool_debug \"Completions are now: $__treepool_comp_res" ++
    "ults\"\n",
  "            end\n",
  "        end\n",
  "\n",
  "        if test $numComps -eq 0; and test $nofiles -eq 0\n",
  "            # To be consistent with bash and zsh, we only trigger file\n",
  "            # completion when there are no other completions\n",
  "            __treepool_debug \"Requesting file completion\"\n",
  "            return 1\n",
  "        end\n",
  "    end\n",
  "\n",
  "    return 0\n",
  "end\n",
  "\n",
  "# Since Fish completions are only loaded once the user triggers them, we tri" ++
    "gger them ourselves\n",
  "# so we can properly delete any completions provided by another script.\n",
  "# Only do this if the program can be found, or else fish may print some erro" ++
    "rs; besides,\n",
  "# the existing completions will only be loaded if the program can be found." ++
    "\n",
  "if type -q \"treepool\"\n",
  "    # The space after the program name is essential to trigger completion fo" ++
    "r the program\n",
  "    # and not completion of the program name itself.\n",
  "    # Also, we use '> /dev/null 2>&1' since '&>' is not supported in older v" ++
    "ersions of fish.\n",
  "    complete --do-complete \"treepool \" > /dev/null 2>&1\n",
  "end\n",
  "\n",
  "# Remove any pre-existing completions for the program since we will be handl" ++
    "ing all of them.\n",
  "complete -c treepool -e\n",
  "\n",
  "# this will get called after the two calls below and clear the $__treepool_p" ++
    "erform_completion_once_result global\n",
  "complete -c treepool -n '__treepool_clear_perform_completion_once_result'\n",
  "# The call to __treepool_prepare_completions will setup __treepool_comp_resu" ++
    "lts\n",
  "# which provides the program's completion choices.\n",
  "# If this doesn't require order preservation, we don't use the -k flag\n",
  "complete -c treepool -n 'not __treepool_requires_order_preservation && __tre" ++
    "epool_prepare_completions' -f -a '$__treepool_comp_results'\n",
  "# otherwise we use the -k flag\n",
  "complete -k -c treepool -n '__treepool_requires_order_preservation && __tree" ++
    "pool_prepare_completions' -f -a '$__treepool_comp_results'\n"]

/-- The PowerShell completion script, asking for completions with the hidden command
`request`. -/
def powershellScript (request : String) : String := String.join [
  "# powershell completion for treepool                             -*- shell-s" ++
    "cript -*-\n",
  "\n",
  "function __treepool_debug \x7b\n",
  "    if ($env:BASH_COMP_DEBUG_FILE) \x7b\n",
  "        \"$args\" | Out-File -Append -FilePath \"$env:BASH_COMP_DEBUG_FILE\"" ++
    "\n",
  "    \x7d\n",
  "\x7d\n",
  "\n",
  "filter __treepool_escapeStringWithSpecialChars \x7b\n",
  "    $_ -replace '\\s|#|@|\\$|;|,|''|\\\x7b|\\\x7d|\\(|\\)|\"|`|\\||<|>|&','`" ++
    "$&'\n",
  "\x7d\n",
  "\n",
  "[scriptblock]$\x7b__treepoolCompleterBlock\x7d = \x7b\n",
  "    param(\n",
  "            $WordToComplete,\n",
  "            $CommandAst,\n",
  "            $CursorPosition\n",
  "        )\n",
  "\n",
  "    # Get the current command line and convert into a string\n",
  "    $Command = $CommandAst.CommandElements\n",
  "    $Command = \"$Command\"\n",
  "\n",
  "    __treepool_debug \"\"\n",
  "    __treepool_debug \"========= starting completion logic ==========\"\n",
  "    __treepool_debug \"WordToComplete: $WordToComplete Command: $Command Cur" ++
    "sorPosition: $CursorPosition\"\n",
  "\n",
  "    # The user could have moved the cursor backwards on the command-line.\n",
  "    # We need to trigger completion from the $CursorPosition location, so we" ++
    " need\n",
  "    # to truncate the command-line ($Command) up to the $CursorPosition loca" ++
    "tion.\n",
  "    # Make sure the $Command is longer then the $CursorPosition before we tr" ++
    "uncate.\n",
  "    # This happens because the $Command does not include the last space.\n",
  "    if ($Command.Length -gt $CursorPosition) \x7b\n",
  "        $Command=$Command.Substring(0,$CursorPosition)\n",
  "    \x7d\n",
  "    __treepool_debug \"Truncated command: $Command\"\n",
  "\n",
  "    $ShellCompDirectiveError=1\n",
  "    $ShellCompDirectiveNoSpace=2\n",
  "    $ShellCompDirectiveNoFileComp=4\n",
  "    $ShellCompDirectiveFilterFileExt=8\n",
  "    $ShellCompDirectiveFilterDirs=16\n",
  "    $ShellCompDirectiveKeepOrder=32\n",
  "\n",
  "    # Prepare the command to request completions for the program.\n",
  "    # Split the command at the first space to separate the program and argum" ++
    "ents.\n",
  "    $Program,$Arguments = $Command.Split(\" \",2)\n",
  "\n",
  "    $RequestComp=\"$Program " ++
    request ++
    " $Arguments\"\n",
  "    __treepool_debug \"RequestComp: $RequestComp\"\n",
  "\n",
  "    # we cannot use $WordToComplete because it\n",
  "    # has the wrong values if the cursor was moved\n",
  "    # so use the last argument\n",
  "    if ($WordToComplete -ne \"\" ) \x7b\n",
  "        $WordToComplete = $Arguments.Split(\" \")[-1]\n",
  "    \x7d\n",
  "    __treepool_debug \"New WordToComplete: $WordToComplete\"\n",
  "\n",
  "\n",
  "    # Check for flag with equal sign\n",
  "    $IsEqualFlag = ($WordToComplete -Like \"--*=*\" )\n",
  "    if ( $IsEqualFlag ) \x7b\n",
  "        __treepool_debug \"Completing equal sign flag\"\n",
  "        # Remove the flag part\n",
  "        $Flag,$WordToComplete = $WordToComplete.Split(\"=\",2)\n",
  "    \x7d\n",
  "\n",
  "    if ( $WordToComplete -eq \"\" -And ( -Not $IsEqualFlag )) \x7b\n",
  "        # If the last parameter is complete (there is a space following it)" ++
    "\n",
  "        # We add an extra empty parameter so we can indicate this to the go " ++
    "method.\n",
  "        __treepool_debug \"Adding extra empty parameter\"\n",
  "        # PowerShell 7.2+ changed the way how the arguments are passed to ex" ++
    "ecutables,\n",
  "        # so for pre-7.2 or when Legacy argument passing is enabled we need " ++
    "to use\n",
  "        # `\"`\" to pass an empty argument, a \"\" or '' does not work!!!\n",
  "        if ($PSVersionTable.PsVersion -lt [version]'7.2.0' -or\n",
  "            ($PSVersionTable.PsVersion -lt [version]'7.3.0' -and -not [Exper" ++
    "imentalFeature]::IsEnabled(\"PSNativeCommandArgumentPassing\")) -or\n",
  "            (($PSVersionTable.PsVersion -ge [version]'7.3.0' -or [Experiment" ++
    "alFeature]::IsEnabled(\"PSNativeCommandArgumentPassing\")) -and\n",
  "              $PSNativeCommandArgumentPassing -eq 'Legacy')) \x7b\n",
  "             $RequestComp=\"$RequestComp\" + ' `\"`\"'\n",
  "        \x7d else \x7b\n",
  "             $RequestComp=\"$RequestComp\" + ' \"\"'\n",
  "        \x7d\n",
  "    \x7d\n",
  "\n",
  "    __treepool_debug \"Calling $RequestComp\"\n",
  "    # First disable ActiveHelp which is not supported for Powershell\n",
  "    $\x7benv:TREEPOOL_ACTIVE_HELP\x7d=0\n",
  "\n",
  "    #call the command store the output in $out and redirect stderr and stdou" ++
    "t to null\n",
  "    # $Out is an array contains each line per element\n",
  "    Invoke-Expression -OutVariable out \"$RequestComp\" 2>&1 | Out-Null\n",
  "\n",
  "    # get directive from last line\n",
  "    [int]$Directive = $Out[-1].TrimStart(':')\n",
  "    if ($Directive -eq \"\") \x7b\n",
  "        # There is no directive specified\n",
  "        $Directive = 0\n",
  "    \x7d\n",
  "    __treepool_debug \"The completion directive is: $Directive\"\n",
  "\n",
  "    # remove directive (last element) from out\n",
  "    $Out = $Out | Where-Object \x7b $_ -ne $Out[-1] \x7d\n",
  "    __treepool_debug \"The completions are: $Out\"\n",
  "\n",
  "    if (($Directive -band $ShellCompDirectiveError) -ne 0 ) \x7b\n",
  "        # Error code.  No completion.\n",
  "        __treepool_debug \"Received error from custom completion go code\"\n",
  "        return\n",
  "    \x7d\n",
  "\n",
  "    $Longest = 0\n",
  "    [Array]$Values = $Out | ForEach-Object \x7b\n",
  "        #Split the output in name and description\n",
  "        $Name, $Description = $_.Split(\"`t\",2)\n",
  "        __treepool_debug \"Name: $Name Description: $Description\"\n",
  "\n",
  "        # Look for the longest completion so that we can format things nicel" ++
    "y\n",
  "        if ($Longest -lt $Name.Length) \x7b\n",
  "            $Longest = $Name.Length\n",
  "        \x7d\n",
  "\n",
  "        # Set the description to a one space string if there is none set.\n",
  "        # This is needed because the CompletionResult does not accept an emp" ++
    "ty string as argument\n",
  "        if (-Not $Description) \x7b\n",
  "            $Description = \" \"\n",
  "        \x7d\n",
  "        New-Object -TypeName PSCustomObject -Property @\x7b\n",
  "            Name = \"$Name\"\n",
  "            Description = \"$Description\"\n",
  "        \x7d\n",
  "    \x7d\n",
  "\n",
  "\n",
  "    $Space = \" \"\n",
  "    if (($Directive -band $ShellCompDirectiveNoSpace) -ne 0 ) \x7b\n",
  "        # remove the space here\n",
  "        __treepool_debug \"ShellCompDirectiveNoSpace is called\"\n",
  "        $Space = \"\"\n",
  "    \x7d\n",
  "\n",
  "    if ((($Directive -band $ShellCompDirectiveFilterFileExt) -ne 0 ) -or\n",
  "       (($Directive -band $ShellCompDirectiveFilterDirs) -ne 0 ))  \x7b\n",
  "        __treepool_debug \"ShellCompDirectiveFilterFileExt ShellCompDirectiv" ++
    "eFilterDirs are not supported\"\n",
  "\n",
  "        # return here to prevent the completion of the extensions\n",
  "        return\n",
  "    \x7d\n",
  "\n",
  "    $Values = $Values | Where-Object \x7b\n",
  "        # filter the result\n",
  "        $_.Name -like \"$WordToComplete*\"\n",
  "\n",
  "        # Join the flag back if we have an equal sign flag\n",
  "        if ( $IsEqualFlag ) \x7b\n",
  "            __treepool_debug \"Join the equal sign flag back to the completi" ++
    "on value\"\n",
  "            $_.Name = $Flag + \"=\" + $_.Name\n",
  "        \x7d\n",
  "    \x7d\n",
  "\n",
  "    # we sort the values in ascending order by name if keep order isn't pass" ++
    "ed\n",
  "    if (($Directive -band $ShellCompDirectiveKeepOrder) -eq 0 ) \x7b\n",
  "        $Values = $Values | Sort-Object -Property Name\n",
  "    \x7d\n",
  "\n",
  "    if (($Directive -band $ShellCompDirectiveNoFileComp) -ne 0 ) \x7b\n",
  "        __treepool_debug \"ShellCompDirectiveNoFileComp is called\"\n",
  "\n",
  "        if ($Values.Length -eq 0) \x7b\n",
  "            # Just print an empty string here so the\n",
  "            # shell does not start to complete paths.\n",
  "            # We cannot use CompletionResult here because\n",
  "            # it does not accept an empty string as argument.\n",
  "            \"\"\n",
  "            return\n",
  "        \x7d\n",
  "    \x7d\n",
  "\n",
  "    # Get the current mode\n",
  "    $Mode = (Get-PSReadLineKeyHandler | Where-Object \x7b$_.Key -eq \"Tab\" " ++
    "\x7d).Function\n",
  "    __treepool_debug \"Mode: $Mode\"\n",
  "\n",
  "    $Values | ForEach-Object \x7b\n",
  "\n",
  "        # store temporary because switch will overwrite $_\n",
  "        $comp = $_\n",
  "\n",
  "        # PowerShell supports three different completion modes\n",
  "        # - TabCompleteNext (default windows style - on each key press the n" ++
    "ext option is displayed)\n",
  "        # - Complete (works like bash)\n",
  "        # - MenuComplete (works like zsh)\n",
  "        # You set the mode with Set-PSReadLineKeyHandler -Key Tab -Function " ++
    "<mode>\n",
  "\n",
  "        # CompletionResult Arguments:\n",
  "        # 1) CompletionText text to be used as the auto completion result\n",
  "        # 2) ListItemText   text to be displayed in the suggestion list\n",
  "        # 3) ResultType     type of completion result\n",
  "        # 4) ToolTip        text for the tooltip with details about the obje" ++
    "ct\n",
  "\n",
  "        switch ($Mode) \x7b\n",
  "\n",
  "            # bash like\n",
  "            \"Complete\" \x7b\n",
  "\n",
  "                if ($Values.Length -eq 1) \x7b\n",
  "                    __treepool_debug \"Only one completion left\"\n",
  "\n",
  "                    # insert space after value\n",
  "                    $CompletionText = $($comp.Name | __treepool_escapeString" ++
    "WithSpecialChars) + $Space\n",
  "                    if ($ExecutionContext.SessionState.LanguageMode -eq \"Fu" ++
    "llLanguage\")\x7b\n",
  "                        [System.Management.Automation.CompletionResult]::new" ++
    "($CompletionText, \"$($comp.Name)\", 'ParameterValue', \"$($comp.Description" ++
    ")\")\n",
  "                    \x7d else \x7b\n",
  "                        $CompletionText\n",
  "                    \x7d\n",
  "\n",
  "                \x7d else \x7b\n",
  "                    # Add the proper number of spaces to align the descripti" ++
    "ons\n",
  "                    while($comp.Name.Length -lt $Longest) \x7b\n",
  "                        $comp.Name = $comp.Name + \" \"\n",
  "                    \x7d\n",
  "\n",
  "                    # Check for empty description and only add parentheses i" ++
    "f needed\n",
  "                    if ($($comp.Description) -eq \" \" ) \x7b\n",
  "                        $Description = \"\"\n",
  "                    \x7d else \x7b\n",
  "                        $Description = \"  ($($comp.Description))\"\n",
  "                    \x7d\n",
  "\n",
  "                    $CompletionText = \"$($comp.Name)$Description\"\n",
  "                    if ($ExecutionContext.SessionState.LanguageMode -eq \"Fu" ++
    "llLanguage\")\x7b\n",
  "                        [System.Management.Automation.CompletionResult]::new" ++
    "($CompletionText, \"$($comp.Name)$Description\", 'ParameterValue', \"$($comp" ++
    ".Description)\")\n",
  "                    \x7d else \x7b\n",
  "                        $CompletionText\n",
  "                    \x7d\n",
  "                \x7d\n",
  "             \x7d\n",
  "\n",
  "            # zsh like\n",
  "            \"MenuComplete\" \x7b\n",
  "                # insert space after value\n",
  "                # MenuComplete will automatically show the ToolTip of\n",
  "                # the highlighted value at the bottom of the suggestions.\n",
  "\n",
  "                $CompletionText = $($comp.Name | __treepool_escapeStringWith" ++
    "SpecialChars) + $Space\n",
  "                if ($ExecutionContext.SessionState.LanguageMode -eq \"FullLa" ++
    "nguage\")\x7b\n",
  "                    [System.Management.Automation.CompletionResult]::new($Co" ++
    "mpletionText, \"$($comp.Name)\", 'ParameterValue', \"$($comp.Description)\")" ++
    "\n",
  "                \x7d else \x7b\n",
  "                    $CompletionText\n",
  "                \x7d\n",
  "            \x7d\n",
  "\n",
  "            # TabCompleteNext and in case we get something unknown\n",
  "            Default \x7b\n",
  "                # Like MenuComplete but we don't want to add a space here be" ++
    "cause\n",
  "                # the user need to press space anyway to get the completion." ++
    "\n",
  "                # Description will not be shown because that's not possible " ++
    "with TabCompleteNext\n",
  "\n",
  "                $CompletionText = $($comp.Name | __treepool_escapeStringWith" ++
    "SpecialChars)\n",
  "                if ($ExecutionContext.SessionState.LanguageMode -eq \"FullLa" ++
    "nguage\")\x7b\n",
  "                    [System.Management.Automation.CompletionResult]::new($Co" ++
    "mpletionText, \"$($comp.Name)\", 'ParameterValue', \"$($comp.Description)\")" ++
    "\n",
  "                \x7d else \x7b\n",
  "                    $CompletionText\n",
  "                \x7d\n",
  "            \x7d\n",
  "        \x7d\n",
  "\n",
  "    \x7d\n",
  "\x7d\n",
  "\n",
  "Register-ArgumentCompleter -CommandName 'treepool' -ScriptBlock $\x7b__treep" ++
    "oolCompleterBlock\x7d\n"]


/-- The script for a shell; without descriptions it asks for names only. -/
def Shell.script (s : Shell) (descriptions : Bool) : String :=
  let request := requestWord descriptions
  match s with
  | .bash => bashScript request
  | .zsh => zshScript request
  | .fish => fishScript request
  | .powershell => powershellScript request

end Command

end TreeArena
