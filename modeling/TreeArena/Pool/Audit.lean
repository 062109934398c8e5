import TreeArena.Pool.Basic

/-!
# Auditing a pool

The audit walks the arena and the table and reports every inconsistency it finds: records that
overrun the arena, slots out of range or located elsewhere by the table, nodes nobody owns,
failure nodes with children, a live count that disagrees with the records, subtrees that run past
the high-water mark, and a pinned failure node that is not the first record.

The findings are listed in one text: a count line, then one starred line per finding.
-/

namespace TreeArena

/-- One line per finding under a count, the way a list of errors is printed. -/
def findingsText : List String → String
  | [] => ""
  | [e] => "1 error occurred:\n\t* " ++ e ++ "\n\n"
  | es =>
    toString es.length ++ " errors occurred:\n\t" ++
      "\n\t".intercalate (es.map fun e => "* " ++ e) ++ "\n\n"

namespace Pool

/-- Findings about the record at position `i`. Positions stand in for byte offsets in the
comparisons, since offsets grow with positions; offsets are computed only for the text. -/
def recordFindings (p : Pool) (i : Nat) (nd : Node) : List String :=
  let offsetText (j : Nat) : String := toString (p.nodes.offset j)
  let slotLine :=
    if nd.slot ≥ p.slots.size then
      ["node at " ++ offsetText i ++ ": slot " ++ toString nd.slot ++ " out of range"]
    else
      match p.slots.position nd.slot with
      | some j =>
        if j = i then []
        else ["node at " ++ offsetText i ++ ": table says slot " ++ toString nd.slot ++ " is at " ++
          offsetText j]
      | none =>
        ["node at " ++ offsetText i ++ ": table says slot " ++ toString nd.slot ++ " is at -1"]
  let id := (p.slots.idOf nd.slot).text
  let retainLine :=
    if nd.retain < 1 then
      ["node " ++ id ++ " at " ++ offsetText i ++ ": retain count " ++ toString nd.retain]
    else []
  let failureLine :=
    if nd.kind = failureKind ∧ nd.children ≠ 0 then
      ["allocation failure " ++ id ++ " at " ++ offsetText i ++ " has children"]
    else []
  slotLine ++ retainLine ++ failureLine

/-- Roots whose subtree runs past the last record, walking the roots from `r`. -/
def rootFindings (p : Pool) : (fuel r : Nat) → List String
  | 0, _ => []
  | fuel + 1, r =>
    if r < p.nodes.size then
      let e := p.nodes.subtreeEnd r
      if e > p.nodes.size then
        ["subtree at " ++ toString (p.nodes.offset r) ++ " ends at " ++
          toString (p.nodes.offset e) ++ " past high-water " ++ toString p.used]
      else rootFindings p fuel e
    else []

/-- Whether the pinned failure node is live, first, pinned and of the failure type. -/
def failureInPlace (p : Pool) : Bool :=
  match p.slots.resolve p.failure with
  | some 0 => p.nodes.pinnedAt 0 && p.nodes.kindAt 0 == failureKind
  | _ => false

/-- Every finding of the audit, in the order they are found. -/
def findings (p : Pool) : List String :=
  let perRecord := (p.nodes.toList.zipIdx.map fun (nd, i) => recordFindings p i nd).flatten
  let countLine :=
    if p.nodes.size ≠ p.slots.live then
      ["arena holds " ++ toString p.nodes.size ++ " nodes, table has " ++
        toString p.slots.live ++ " live slots"]
    else []
  let failureLine :=
    if p.failureInPlace then [] else ["static allocation-failure node missing from offset 0"]
  perRecord ++ countLine ++ rootFindings p (p.nodes.size + 1) 0 ++ failureLine

/-- The audit's text, or none when the pool is consistent. -/
def audit (p : Pool) : Option String :=
  match p.findings with
  | [] => none
  | fs => some (findingsText fs)

end Pool

end TreeArena
