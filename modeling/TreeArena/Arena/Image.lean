import TreeArena.Arena.Node
import TreeArena.Encoding.TreeCode

/-!
# The arena as bytes

A pool's arena is a buffer of `capacity` bytes: the records in layout order, then zero bytes up
to the capacity. A record is its ten-byte header followed by its payload; the header holds the
record size, the type byte, the flags byte (one for the pinned failure node), the slot, the
children count and the retain count, the sixteen-bit fields low byte first.

Exporting reads this buffer from a byte offset. When the offset is taken from a handle of
another pool it need not be the start of a record here, and the walk then follows whatever the
bytes say: sizes and counts are read where they fall. A read past the end of the buffer stops
with the runtime's bounds error (`BoundsError`), in the order the reads happen.

Main statements: `Node.bytes_length`, a record takes `size` bytes, and `image_size`, the image
of an arena that fits is exactly `capacity` bytes.
-/

namespace TreeArena

/-- A sixteen-bit field, low byte first. -/
def le16 (n : Nat) : List UInt8 := [(n % 256).toUInt8, (n / 256 % 256).toUInt8]

theorem le16_length (n : Nat) : (le16 n).length = 2 := rfl

/-- The bytes of a record: the header fields in order, then the payload. -/
def Node.bytes (n : Node) : List UInt8 :=
  le16 n.size ++ [n.kind.toUInt8, if n.pinned then 1 else 0] ++ le16 n.slot ++
    le16 n.children ++ le16 n.retain ++ n.payload

theorem Node.bytes_length (n : Node) : n.bytes.length = n.size := by
  simp [Node.bytes, Node.size, le16, headerSize]
  omega

/-- A read outside the buffer: a slice starting past its end, a slice ending past its
capacity, or an index past its end. -/
inductive BoundsError where
  | sliceStart (low high : Nat)
  | sliceEnd (high capacity : Nat)
  | index (i length : Nat)
deriving DecidableEq, Repr

/-- The runtime's text for a read outside the buffer. -/
def BoundsError.message : BoundsError → String
  | .sliceStart l h =>
    "runtime error: slice bounds out of range [" ++ toString l ++ ":" ++ toString h ++ "]"
  | .sliceEnd h c =>
    "runtime error: slice bounds out of range [:" ++ toString h ++ "] with capacity " ++
      toString c
  | .index i n =>
    "runtime error: index out of range [" ++ toString i ++ "] with length " ++ toString n

namespace Arena

/-- The arena's buffer of `capacity` bytes: its records' bytes, then zeros. -/
def image (a : Arena) (capacity : Nat) : Array UInt8 :=
  let b := a.toList.flatMap Node.bytes
  (b ++ List.replicate (capacity - b.length) 0).toArray

theorem flatMap_bytes_length (l : List Node) :
    (l.flatMap Node.bytes).length = total (l.map Node.size) := by
  induction l with
  | nil => rfl
  | cons n rest ih => simpa [total, Node.bytes_length] using ih

theorem image_size (a : Arena) (capacity : Nat) (h : a.used ≤ capacity) :
    (a.image capacity).size = capacity := by
  rw [used_eq_total] at h
  simp only [image, List.size_toArray, List.length_append, List.length_replicate,
    flatMap_bytes_length]
  omega

/-- The sixteen-bit field at byte `pos` of the buffer: the buffer from `pos` on is taken first,
and must then hold two bytes. -/
def field16 (buf : Array UInt8) (pos : Nat) : Except BoundsError Nat :=
  if pos > buf.size then .error (.sliceStart pos buf.size)
  else if buf.size - pos < 2 then .error (.index 1 (buf.size - pos))
  else .ok ((buf.getD pos 0).toNat + 256 * (buf.getD (pos + 1) 0).toNat)

/-- The byte offset just past the subtree whose record would start at `off`, with `pending`
subtrees still open: each record read adds its children count, closes one subtree and moves
past its size. A record of size zero does not move: if it has no children every open subtree
closes there, and if it has some the walk would never end, so it stops there too. Each other
step moves forward, and a read past the end is an error, so the buffer's size plus two steps
suffice. -/
def walkEnd (buf : Array UInt8) : (fuel pending off : Nat) → Except BoundsError Nat
  | 0, _, off => .ok off
  | fuel + 1, pending, off => do
    let c ← field16 buf (off + 6)
    let s ← field16 buf off
    let open_ := pending + c - 1
    if open_ = 0 ∨ s = 0 then return off + s
    walkEnd buf fuel open_ (off + s)

/-- The nodes from byte `pos` to byte `stop`, encoded: each record's payload slice, type byte
and children count are read in that order. A size below the header's makes the payload slice
end before it starts, so each step moves at least a header forward. -/
def encodeFrom (buf : Array UInt8) : (fuel pos stop : Nat) → Except BoundsError (List UInt8)
  | 0, _, _ => .ok []
  | fuel + 1, pos, stop => do
    if stop ≤ pos then return []
    let s ← field16 buf pos
    if pos + s > buf.size then throw (.sliceEnd (pos + s) buf.size)
    if pos + s < pos + headerSize then throw (.sliceStart (pos + headerSize) (pos + s))
    let payload := ((buf.extract (pos + headerSize) (pos + s)).toList)
    if pos + 2 ≥ buf.size then throw (.index (pos + 2) buf.size)
    let kind := (buf.getD (pos + 2) 0).toNat
    let c ← field16 buf (pos + 6)
    let rest ← encodeFrom buf fuel (pos + s) stop
    return TreeCode.encodeEntry ⟨kind, c, payload⟩ ++ rest

/-- The portable encoding of the subtree read from byte `off` of a buffer. -/
def exportFrom (buf : Array UInt8) (off : Nat) : Except BoundsError (List UInt8) := do
  let stop ← walkEnd buf (buf.size + 2) 1 off
  encodeFrom buf (buf.size + 1) off stop

end Arena

end TreeArena
