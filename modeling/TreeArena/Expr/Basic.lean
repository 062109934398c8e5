import TreeArena.Edit
import TreeArena.Encoding.Varint

/-!
# Expressions

Expressions are trees of the pool: integers (a zig-zag varint payload), symbols (the name's bytes
as payload), sums, products and opposites (no payload, their operands as children). Type zero is
the allocation failure.

The constructors take ownership of their operands: each operand is installed as a child of the
new node, unless that node is already a failure, and the operand's handle is then released.
-/

namespace TreeArena

namespace Expr

/-- Type of integer nodes. -/
def integerKind : Nat := 1
/-- Type of symbol nodes. -/
def symbolKind : Nat := 2
/-- Type of sums. -/
def additionKind : Nat := 3
/-- Type of products. -/
def multiplicationKind : Nat := 4
/-- Type of opposites. -/
def oppositeKind : Nat := 5

/-- Short display name of a type; types without one are shown by number. -/
def typeName (t : Nat) : String :=
  match t with
  | 0 => "Fail"
  | 1 => "Int"
  | 2 => "Sym"
  | 3 => "Add"
  | 4 => "Mul"
  | 5 => "Opp"
  | n => "Type" ++ toString n

/-- Sums and products: a nested node of the same type can be folded into its parent. -/
def isAssociative (t : Nat) : Bool := t == additionKind || t == multiplicationKind

/-- Bytes of a text, as UTF-8. -/
def utf8 (s : String) : List UInt8 := s.toUTF8.toList

/-- A new integer node. -/
def integer (k : Nat) (v : Int) : HeapM Handle := Heap.create k integerKind (Varint.varint v)

/-- A new symbol node. -/
def symbol (k : Nat) (name : String) : HeapM Handle := Heap.create k symbolKind (utf8 name)

/-- Installs the operands one by one and releases each operand's handle. -/
def installAll (r : Handle) : Nat → List Handle → HeapM Unit
  | _, [] => pure ()
  | i, c :: cs => do
    if !(← get).isFailure r then Heap.addChild r c i i
    let _ ← Heap.release c
    installAll r (i + 1) cs

/-- A new operator node of type `t` in pool `k` over the operands, which it takes over. -/
def operator (k t : Nat) (operands : List Handle) : HeapM Handle := do
  let r ← Heap.create k t []
  installAll r 0 operands
  return r

/-- A sum of the operands. -/
def addition (k : Nat) (operands : List Handle) : HeapM Handle := operator k additionKind operands

/-- A product of the operands. -/
def multiplication (k : Nat) (operands : List Handle) : HeapM Handle :=
  operator k multiplicationKind operands

/-- The opposite of the operand. -/
def opposite (k : Nat) (operand : Handle) : HeapM Handle := operator k oppositeKind [operand]

/-- The value of an integer node and whether its payload reads as one; other nodes give zero. -/
def integerValue (r : Handle) : HeapM (Int × Bool) := do
  if (← Heap.kind r) ≠ integerKind then return (0, false)
  match Varint.readVarint (← Heap.payload r) with
  | .ok (v, _) => return (v, true)
  | .error _ => return (0, false)

/-- The name bytes of a symbol node; other nodes give none. -/
def symbolName (r : Handle) : HeapM (List UInt8 × Bool) := do
  if (← Heap.kind r) ≠ symbolKind then return ([], false)
  return (← Heap.payload r, true)

end Expr

end TreeArena
