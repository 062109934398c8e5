/-!
# Node identifiers

A node identifier names a node independently of where its record sits in the arena: the low
sixteen bits select a slot of the identifier table, the high sixteen bits carry the generation the
slot had when the node was made. The all-ones word is reserved for "no node", which no live node
can hold because the last slot is never handed out.

Main statements: `ofBits_toBits` and `toBits_lt`, packing is a bijection onto 32-bit words.
-/

namespace TreeArena

/-- Number of distinct slot (and generation) values: identifiers are two sixteen-bit halves. -/
def halfWord : Nat := 65536

/-- Largest table a pool may be built with; the slot `65535` stays free for `NodeId.none`. -/
def maxSlots : Nat := 65535

/-- A slot of the identifier table together with the slot's generation. -/
structure NodeId where
  slot : Nat
  generation : Nat
deriving DecidableEq, Repr, Inhabited

namespace NodeId

/-- The identifier held by a handle that names no node. -/
def none : NodeId := ⟨65535, 65535⟩

/-- Packs the identifier into one word, generation in the high half. -/
def toBits (id : NodeId) : Nat := id.generation % halfWord * halfWord + id.slot % halfWord

/-- Unpacks a word: the low half is the slot, the high half the generation. -/
def ofBits (w : Nat) : NodeId := ⟨w % halfWord, w / halfWord % halfWord⟩

/-- Text of an identifier: slot and generation joined by a hash, or the word for none. -/
def text (id : NodeId) : String :=
  if id = none then "NoNodeId"
  else
    let s := id.slot
    let g := id.generation
    s!"{s}#{g}"

/-- An identifier whose halves are in range. -/
def Valid (id : NodeId) : Prop := id.slot < halfWord ∧ id.generation < halfWord

theorem toBits_lt (id : NodeId) : id.toBits < halfWord * halfWord := by
  unfold toBits halfWord
  have h1 := Nat.mod_lt id.generation (show 0 < 65536 by decide)
  have h2 := Nat.mod_lt id.slot (show 0 < 65536 by decide)
  omega

theorem ofBits_toBits (id : NodeId) (h : id.Valid) : ofBits id.toBits = id := by
  obtain ⟨hs, hg⟩ := h
  unfold ofBits toBits
  unfold halfWord at *
  cases id with
  | mk s g =>
    simp only at hs hg ⊢
    congr 1 <;> omega

end NodeId

end TreeArena
