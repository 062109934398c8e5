import TreeArena.Fault

/-!
# Causes of errors

Every error the library reports falls in one class, named by the rule it reports: a contract
fault of a pool, a setup or encoding error, a record-store error, a configuration error, a
malformed request, a runtime crash, or anything else. Clients that only need the class, not the
text, match on it.
-/

namespace TreeArena

/-- The class of an error. -/
inductive Cause where
  | capacity
  | malformedTree
  | undefinedHandle
  | staleHandle
  | foreignHandle
  | childCount
  | childIndex
  | notAChild
  | cycle
  | retainOverflow
  | notFound
  | invalidName
  | invalidConfig
  | incomplete
  | unreadableConfig
  | badInput
  /-- A read outside an arena's buffer, which stops the program's runtime. -/
  | crash
  | other
deriving DecidableEq, Repr, Inhabited

/-- The class of a contract fault: the rule it breaks. -/
def Breach.cause : Breach → Cause
  | .undefinedHandle => .undefinedHandle
  | .staleHandle => .staleHandle
  | .foreignHandle => .foreignHandle
  | .childCount => .childCount
  | .childIndex => .childIndex
  | .notAChild => .notAChild
  | .cycle => .cycle
  | .retainOverflow => .retainOverflow

/-- The class of a fault. -/
def Fault.cause (f : Fault) : Cause := f.breach.cause

/-- The class a client reads off an error with text `message`: its own class when that names
one of the library's rules, and otherwise incomplete when the text says an expression is
incomplete. No rule value marks incomplete expressions, so clients tell them by their text,
wherever it appears in the message. -/
def Cause.seen (c : Cause) (message : String) : Cause :=
  match c with
  | .incomplete | .unreadableConfig | .other =>
    if (message.splitOn "expression is incomplete").length > 1 then .incomplete else c
  | _ => c

end TreeArena
