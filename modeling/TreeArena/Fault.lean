import TreeArena.NodeId

/-!
# Contract faults

A pool operation that is called against its contract stops with a fault. A fault names the rule
that was broken (`Breach`) and carries the identifiers and counts that show how; its text is the
rule's text, a colon, and the detail.
-/

namespace TreeArena

/-- The rules of the pool's contract that a caller can break. -/
inductive Breach where
  | undefinedHandle
  | staleHandle
  | foreignHandle
  | childCount
  | childIndex
  | notAChild
  | cycle
  | retainOverflow
deriving DecidableEq, Repr

/-- The fixed text of each rule. -/
def Breach.text : Breach → String
  | .undefinedHandle => "undefined reference"
  | .staleHandle => "stale reference"
  | .foreignHandle => "reference belongs to another pool"
  | .childCount => "children count mismatch"
  | .childIndex => "child index out of range"
  | .notAChild => "node is not a child of the receiver"
  | .cycle => "operation would make a node its own descendant"
  | .retainOverflow => "retain count overflow"

/-- One breach of the contract, with what shows it. -/
inductive Fault where
  /-- Navigation through a handle that names no node. -/
  | undefinedHandle
  /-- Navigation through a handle whose node has been destroyed. -/
  | staleHandle (id : NodeId)
  /-- A handle of another pool given where one of the receiver's pool is needed. -/
  | foreignHandle (id : NodeId)
  /-- The caller's idea of a children count disagrees with the node. -/
  | countMismatch (id : NodeId) (actual expected : Int)
  /-- A children count that does not fit its sixteen-bit field. -/
  | countOutOfRange (count : Int)
  /-- A child position outside the node's children. -/
  | indexOutOfRange (index count : Int)
  /-- A node named as a child of a node it is not under. -/
  | notAChild (child parent : NodeId)
  /-- An edit that would place a node below itself. -/
  | cycle (ancestor node : NodeId)
  /-- A node already owned the largest number of times a count can hold. -/
  | retainOverflow (id : NodeId)
deriving DecidableEq, Repr

namespace Fault

/-- The rule a fault breaks. -/
def breach : Fault → Breach
  | undefinedHandle => .undefinedHandle
  | staleHandle _ => .staleHandle
  | foreignHandle _ => .foreignHandle
  | countMismatch .. => .childCount
  | countOutOfRange _ => .childCount
  | indexOutOfRange .. => .childIndex
  | notAChild .. => .notAChild
  | cycle .. => .cycle
  | retainOverflow _ => .retainOverflow

/-- What shows the breach. -/
def detail : Fault → String
  | undefinedHandle => "navigation on undefined reference"
  | staleHandle id => "node " ++ id.text ++ " is no longer live"
  | foreignHandle id => "node " ++ id.text
  | countMismatch id actual expected =>
    "node " ++ id.text ++ " has " ++ toString actual ++ " children, caller expected " ++
      toString expected
  | countOutOfRange n => "children count " ++ toString n
  | indexOutOfRange i n => "index " ++ toString i ++ ", " ++ toString n ++ " children"
  | notAChild c p => c.text ++ " is not a child of " ++ p.text
  | cycle t r => t.text ++ " is an ancestor of " ++ r.text
  | retainOverflow id => "node " ++ id.text

/-- The rule's text, a colon, and the detail. -/
def message (f : Fault) : String := f.breach.text ++ ": " ++ f.detail

end Fault

end TreeArena
