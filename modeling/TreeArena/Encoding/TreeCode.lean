import TreeArena.Encoding.Varint
import TreeArena.Arena.Node

/-!
# The portable tree encoding

A subtree is written node by node in depth-first order, each node as its type byte, its children
count and its payload length as unsigned varints, and the payload. Identifiers and retain counts
are not part of it, so a tree can be carried to another pool.

Reading checks, node by node, that the counts are well formed and in range and that the payload
fits in what is left; it stops when the pending subtrees run out, and bytes left over are an
error. Each error names the node at which it was found.
-/

namespace TreeArena

/-- One node of an encoded tree. -/
structure Entry where
  kind : Nat
  children : Nat
  payload : List UInt8
deriving DecidableEq, Repr, Inhabited

/-- Why bytes are not an encoded tree. -/
inductive DecodeError where
  /-- The input ended after this many nodes while subtrees were still pending. -/
  | truncated (nodes : Nat)
  /-- The children count of this node is not a varint or exceeds the largest count. -/
  | badChildren (node : Nat)
  /-- The payload length of this node is not a varint, too large, or longer than the rest. -/
  | badPayload (node : Nat)
  /-- This many bytes follow the complete tree. -/
  | trailing (bytes : Nat)
deriving DecidableEq, Repr

/-- Text of a decoding error. -/
def DecodeError.message : DecodeError → String
  | .truncated k => "malformed tree encoding: truncated after " ++ toString k ++ " nodes"
  | .badChildren k => "malformed tree encoding: bad children count at node " ++ toString k
  | .badPayload k => "malformed tree encoding: bad payload at node " ++ toString k
  | .trailing n => "malformed tree encoding: " ++ toString n ++ " trailing bytes"

namespace TreeCode

/-- Bytes of one node. -/
def encodeEntry (e : Entry) : List UInt8 :=
  e.kind.toUInt8 :: (Varint.uvarint e.children ++ Varint.uvarint e.payload.length ++ e.payload)

/-- Bytes of a depth-first list of nodes. -/
def encode (es : List Entry) : List UInt8 := es.flatMap encodeEntry

/-- Reads one node: type byte, children count, payload length and payload. `k` is the number of
nodes read before, for the error. -/
def readEntry (k : Nat) : List UInt8 → Except DecodeError (Entry × List UInt8)
  | [] => .error (.truncated k)
  | t :: rest =>
    match Varint.readUvarint rest with
    | .error _ => .error (.badChildren k)
    | .ok (c, rest) =>
      if c > maxCount then .error (.badChildren k)
      else
        match Varint.readUvarint rest with
        | .error _ => .error (.badPayload k)
        | .ok (n, rest) =>
          if n > maxPayload ∨ rest.length < n then .error (.badPayload k)
          else .ok (⟨t.toNat, c, rest.take n⟩, rest.drop n)

/-- Reads nodes while `pending` subtrees are open; `acc` holds the nodes read so far, latest
first. Each node read consumes at least its type byte, so `fuel` bytes plus one suffice. -/
def readNodes (fuel : Nat) (pending : Nat) (acc : List Entry) (data : List UInt8) :
    Except DecodeError (List Entry) :=
  match fuel, pending with
  | _, 0 => if data = [] then .ok acc.reverse else .error (.trailing data.length)
  | 0, _ + 1 => .error (.truncated acc.length)
  | fuel + 1, p + 1 =>
    match readEntry acc.length data with
    | .error e => .error e
    | .ok (e, rest) => readNodes fuel (p + e.children) (e :: acc) rest

/-- Reads one encoded tree. -/
def decode (data : List UInt8) : Except DecodeError (List Entry) :=
  readNodes (data.length + 1) 1 [] data

/-- Bytes the nodes take in an arena. -/
def arenaSize (es : List Entry) : Nat := total (es.map fun e => headerSize + e.payload.length)

end TreeCode

end TreeArena
