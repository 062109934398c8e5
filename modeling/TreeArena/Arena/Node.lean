/-!
# Node records

Each node of the arena is one record: a ten-byte header (size, type, flags, slot, children count,
retain count) followed by the payload. Sizes, slots and counts are sixteen-bit fields, so a
payload holds at most `maxPayload` bytes and a count at most `maxCount`.

The arena itself is the array of records in depth-first order: a node's record is followed by
the records of its children's subtrees, one after another. An array lets a record be read,
rewritten or appended in constant time; statements about the layout read it as a list through
`Array.toList`.
-/

namespace TreeArena

/-- Bytes of a node header. -/
def headerSize : Nat := 10

/-- Largest payload a node can carry: the size field holds header and payload together. -/
def maxPayload : Nat := 65535 - headerSize

/-- Largest value of a children or retain count. -/
def maxCount : Nat := 65535

/-- The type tag reserved for allocation-failure nodes. -/
def failureKind : Nat := 0

/-- One node's record. A pinned node (the pool's own failure node) is never retained, released
or destroyed. -/
structure Node where
  slot : Nat
  kind : Nat
  pinned : Bool
  children : Nat
  retain : Nat
  payload : List UInt8
deriving DecidableEq, Repr, Inhabited

/-- Bytes the record takes in the arena. -/
def Node.size (n : Node) : Nat := headerSize + n.payload.length

/-- Records in depth-first order; a position is an index into the array. -/
abbrev Arena := Array Node

/-- The total of a list of counts. -/
def total : List Nat → Nat
  | [] => 0
  | n :: rest => n + total rest

theorem total_append (l l' : List Nat) : total (l ++ l') = total l + total l' := by
  induction l with
  | nil => simp [total]
  | cons n l ih => simp [total, ih, Nat.add_assoc]

namespace Arena

/-- Bytes in use: the sum of the record sizes. -/
def used (a : Arena) : Nat := a.foldl (fun acc n => acc + n.size) 0

/-- Byte offset of the record at position `i`: the sizes of the records before it. -/
def offset (a : Arena) (i : Nat) : Nat := used (a.extract 0 i)

/-! Reads at a position. Past the last record the arena holds zero bytes, which read as a record
of size zero with every field zero; the walks below rely on that. -/

/-- Children count at `i`. -/
def childrenAt (a : Arena) (i : Nat) : Nat := (a[i]?.map Node.children).getD 0

/-- Slot at `i`. -/
def slotAt (a : Arena) (i : Nat) : Nat := (a[i]?.map Node.slot).getD 0

/-- Type tag at `i`. -/
def kindAt (a : Arena) (i : Nat) : Nat := (a[i]?.map Node.kind).getD 0

/-- Retain count at `i`. -/
def retainAt (a : Arena) (i : Nat) : Nat := (a[i]?.map Node.retain).getD 0

/-- Whether the record at `i` is pinned. -/
def pinnedAt (a : Arena) (i : Nat) : Bool := (a[i]?.map Node.pinned).getD false

/-- Payload at `i`. -/
def payloadAt (a : Arena) (i : Nat) : List UInt8 := (a[i]?.map Node.payload).getD []

/-- The position just past the record at `i`: the record's own bytes are skipped, and the
zero-size record past the end skips nothing. -/
def next (a : Arena) (i : Nat) : Nat := if i < a.size then i + 1 else i

/-- Rewrites the record at `i`. -/
def modify (a : Arena) (i : Nat) (f : Node → Node) : Arena := Array.modify a i f

theorem size_modify (a : Arena) (i : Nat) (f : Node → Node) :
    (a.modify i f).size = a.size := Array.size_modify ..

/-- A fold that adds sizes starts from its initial value. -/
theorem foldl_size_add (l : List Node) (acc : Nat) :
    l.foldl (fun acc n => acc + n.size) acc = acc + total (l.map Node.size) := by
  induction l generalizing acc with
  | nil => simp [total]
  | cons n rest ih => simp [ih, total]; omega

theorem used_eq_total (a : Arena) : a.used = total (a.toList.map Node.size) := by
  rw [used, ← Array.foldl_toList, foldl_size_add]
  simp

theorem next_le (a : Arena) (i : Nat) : i ≤ a.next i := by
  unfold next; split <;> omega

end Arena

end TreeArena
