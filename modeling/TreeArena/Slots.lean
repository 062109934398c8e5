import TreeArena.NodeId

/-!
# The identifier table

The table maps each slot to the current position of its node, or to nothing for a free slot, and
keeps a generation per slot. Releasing a slot bumps its generation, so identifiers minted before
go stale and never reach a later node of the same slot. Slots are handed out by scanning forward
from a hint, cyclically, so a freed slot stays cold for a while.

Main statements: `isFree_of_scan`, the scan only ever picks a free slot, and
`resolve_isSome_iff`, an identifier resolves exactly when its slot is live in its generation.
-/

namespace TreeArena

/-- Slot positions (none for a free slot), generations, the live count and the scan hint. -/
structure SlotTable where
  positions : Array (Option Nat)
  generations : Array Nat
  live : Nat
  hint : Nat
deriving Repr, Inhabited

namespace SlotTable

/-- A table of `n` free slots, all in generation zero. -/
def empty (n : Nat) : SlotTable := ⟨Array.replicate n none, Array.replicate n 0, 0, 0⟩

/-- Number of slots. -/
def size (t : SlotTable) : Nat := t.positions.size

/-- Slots not in use. -/
def free (t : SlotTable) : Nat := t.size - t.live

/-- Current position of the node in slot `s`, none when the slot is free. -/
def position (t : SlotTable) (s : Nat) : Option Nat := (t.positions[s]?).getD none

/-- Current generation of slot `s`. -/
def generation (t : SlotTable) (s : Nat) : Nat := (t.generations[s]?).getD 0

/-- Whether slot `s` is free. -/
def isFree (t : SlotTable) (s : Nat) : Bool := (t.position s).isNone

/-- The identifier the node in slot `s` carries now. -/
def idOf (t : SlotTable) (s : Nat) : NodeId := ⟨s, t.generation s⟩

/-- The first free slot among `fuel` slots, scanning cyclically from `hint + i`. -/
def scan (t : SlotTable) : (fuel i : Nat) → Option Nat
  | 0, _ => none
  | fuel + 1, i =>
    let s := (t.hint + i) % t.size
    if t.isFree s then some s else t.scan fuel (i + 1)

/-- Records that slot `s` now holds the node at `pos`. -/
def set (t : SlotTable) (s pos : Nat) : SlotTable :=
  { t with positions := t.positions.setIfInBounds s (some pos) }

/-- The first free slot cyclically from the hint; none when every slot is live. -/
def firstFree (t : SlotTable) : Option Nat :=
  if t.live = t.size then none else t.scan t.size 0

/-- Marks slot `s` live at position zero until the caller sets it, and moves the hint past it. -/
def claim (t : SlotTable) (s : Nat) : SlotTable :=
  { t with positions := t.positions.setIfInBounds s (some 0), live := t.live + 1,
           hint := (s + 1) % t.size }

/-- Reserves the first free slot cyclically from the hint and moves the hint past it; the
slot's position is zero until the caller sets it. None when every slot is live. Callers that
update a table held in a larger state find the slot with `firstFree` and `claim` it there, so
the table is changed in place. -/
def acquire (t : SlotTable) : Option (Nat × SlotTable) :=
  t.firstFree.map fun s => (s, t.claim s)

/-- Frees slot `s` and bumps its generation; a free slot is left alone. -/
def release (t : SlotTable) (s : Nat) : SlotTable :=
  if t.isFree s then t
  else
    { t with positions := t.positions.setIfInBounds s none,
             generations := t.generations.modify s (fun g => (g + 1) % halfWord),
             live := t.live - 1 }

/-- Position of the node an identifier names, if that node is still live. -/
def resolve (t : SlotTable) (id : NodeId) : Option Nat :=
  if id = NodeId.none then none
  else if id.slot < t.size ∧ t.generation id.slot = id.generation then t.position id.slot
  else none

/-- Live slots in slot order, with their positions. -/
def liveSlots (t : SlotTable) : List (Nat × Nat) :=
  (List.range t.size).filterMap fun s => (t.position s).map fun p => (s, p)

theorem isFree_of_scan (t : SlotTable) :
    ∀ (fuel i s : Nat), t.scan fuel i = some s → t.isFree s = true
  | 0, _, _, h => by simp [scan] at h
  | fuel + 1, i, s, h => by
    simp only [scan] at h
    split at h
    · cases h; assumption
    · exact isFree_of_scan t fuel (i + 1) s h

theorem acquire_isSome_imp (t : SlotTable) (h : (t.acquire).isSome) : t.live ≠ t.size := by
  unfold acquire firstFree at h
  split at h
  · simp at h
  · assumption

theorem resolve_isSome_iff (t : SlotTable) (id : NodeId) :
    (t.resolve id).isSome ↔
      id ≠ NodeId.none ∧ id.slot < t.size ∧ t.generation id.slot = id.generation ∧
        t.isFree id.slot = false := by
  unfold resolve isFree
  by_cases h0 : id = NodeId.none
  · simp [h0]
  · by_cases h1 : id.slot < t.size ∧ t.generation id.slot = id.generation
    · simp [h0, h1]
    · simp only [h0, h1, if_false, Option.isSome_none, Bool.false_eq_true, false_iff]
      intro ⟨_, hs, hg, _⟩
      exact h1 ⟨hs, hg⟩

end SlotTable

end TreeArena
