import TreeArena.Pool.Basic

/-!
# Pool metrics

A pool's statistics in the Prometheus text exposition format: six metric families under the
`treepool_pool_` prefix, sorted by name, each with its help line, its type line and its value.
The allocation failures are a counter, the rest are gauges.

Values are written as floats in their shortest form: integers below a million in full, larger
ones in exponent form (`1.6777216e+07`).
-/

namespace TreeArena

namespace Metrics

/-- The decimal digits of a number without its trailing zeros, and how many were dropped. -/
def significant (n : Nat) : Nat → List Char × Nat
  | 0 => ((toString n).toList, 0)
  | fuel + 1 =>
    if n ≠ 0 && n % 10 = 0 then
      let (ds, z) := significant (n / 10) fuel
      (ds, z + 1)
    else ((toString n).toList, 0)

/-- A count written as a float in its shortest form. -/
def floatText (n : Nat) : String :=
  if n < 1000000 then toString n
  else
    let (ds, zeros) := significant n (toString n).length
    let exponent := ds.length - 1 + zeros
    let mantissa := match ds with
      | [d] => d.toString
      | d :: rest => d.toString ++ "." ++ String.ofList rest
      | [] => "0"
    let e := toString exponent
    mantissa ++ "e+" ++ (if e.length < 2 then "0" ++ e else e)

/-- One metric family: help, type and value. -/
def family (name help kind : String) (value : Nat) : String :=
  let full := "treepool_pool_" ++ name
  "# HELP " ++ full ++ " " ++ help ++ "\n# TYPE " ++ full ++ " " ++ kind ++ "\n" ++ full ++ " " ++
    floatText value ++ "\n"

/-- The exposition of a pool's statistics. -/
def exposition (s : Pool.Stats) : String :=
  family "allocation_failures_total" "Allocations that failed for lack of space or identifiers."
      "counter" s.failures ++
    family "capacity_bytes" "Size of the node arena." "gauge" s.capacity ++
    family "limit_bytes" "Arena bytes available for allocation." "gauge" s.limit ++
    family "live_nodes" "Nodes currently allocated, including the static failure node." "gauge"
      s.live ++
    family "max_nodes" "Capacity of the identifier table." "gauge" s.maxNodes ++
    family "used_bytes" "Arena bytes occupied by live nodes." "gauge" s.used

end Metrics

end TreeArena
