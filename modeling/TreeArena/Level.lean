/-!
# Log levels

Four severities, each with a numeric weight four apart and an upper-case name. A level is read
from text without regard to case; "warning" is a second spelling of warn, and anything not
recognised reads as info.
-/

namespace TreeArena

/-- Severity of a log line. -/
inductive Level where
  | debug
  | info
  | warn
  | error
deriving DecidableEq, Repr, Inhabited

namespace Level

/-- Numeric weight: more severe is larger. -/
def weight : Level → Int
  | debug => -4
  | info => 0
  | warn => 4
  | error => 8

/-- Upper-case name. -/
def name : Level → String
  | debug => "DEBUG"
  | info => "INFO"
  | warn => "WARN"
  | error => "ERROR"

/-- Lower case as far as it can reach an ASCII letter: ASCII capitals, the dotted capital I and
the Kelvin sign. Other characters are kept; none of them can spell a level name. -/
def foldChar (c : Char) : Char :=
  if c.isUpper then c.toLower
  else if c.val = 0x130 then 'i'
  else if c.val = 0x212A then 'k'
  else c

/-- Reads a level name in any case; unknown text is info. -/
def parse (s : String) : Level :=
  match (s.toList.map foldChar) with
  | ['d', 'e', 'b', 'u', 'g'] => debug
  | ['w', 'a', 'r', 'n'] => warn
  | ['w', 'a', 'r', 'n', 'i', 'n', 'g'] => warn
  | ['e', 'r', 'r', 'o', 'r'] => error
  | _ => info

theorem parse_name (l : Level) : parse l.name = l := by
  cases l <;> decide

end Level

end TreeArena
