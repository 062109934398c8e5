import TreeArena.Arena.Node

/-!
# Walking the depth-first layout

The arena stores no parent or sibling links: a subtree is found from the children counts alone.
Starting with one pending subtree, each record read adds its children to the pending count and
completes one subtree; the block ends when nothing is pending. On a list of records this is
`span`, the number of records the block covers; on the arena it is `blockEnd`, the position just
past the block, and `blockEnd_eq` says the two agree. Children are then found by skipping whole
subtrees (`childStart`), and a parent by descending from the root whose block holds the node
(`parentOf`).

Main statements: `blockEnd_eq`, `span_le_length`, a block never reaches past the last record,
and `subtreeEnd_le_size`.
-/

namespace TreeArena

namespace Arena

/-- Number of records spanned by `pending` consecutive subtrees at the front of the list. Records
missing at the end count as childless, so the block simply stops at the end of the list. -/
def span : List Node → Nat → Nat
  | _, 0 => 0
  | [], _ + 1 => 0
  | n :: rest, p + 1 => span rest (p + n.children) + 1

/-- The position just past `pending` consecutive subtrees starting at position `i`: each record
read adds its children to the pending count and completes one subtree. The block stops at the
end of the arena. -/
def blockEnd (a : Arena) (i pending : Nat) : Nat :=
  if pending = 0 then i
  else if h : i < a.size then a.blockEnd (i + 1) (pending - 1 + a[i].children)
  else i
termination_by a.size - i

/-- The position just past the subtree whose root is at `i`. -/
def subtreeEnd (a : Arena) (i : Nat) : Nat := a.blockEnd i 1

/-- Start of child `k` of the node at `i`: its first child follows its record, and each later
one follows the subtree of the one before. With `k` equal to the children count it is the end
of the node's subtree. -/
def childStart (a : Arena) (i k : Nat) : Nat := a.blockEnd (a.next i) k

/-- Number of records in the subtree at `i`. -/
def countAt (a : Arena) (i : Nat) : Nat := a.subtreeEnd i - i

/-- Among the roots from position `r` on, the one whose block holds position `i`; stops at the
end of the arena. -/
def rootOf (a : Arena) (i : Nat) : (fuel r : Nat) → Nat
  | 0, r => r
  | fuel + 1, r =>
    if r < a.size then
      let e := a.subtreeEnd r
      if i < e then r else a.rootOf i fuel e
    else r

/-- Among `k` consecutive subtrees starting at `c`, the start of the one holding `i`, or the end
of the last when none does. -/
def childHolding (a : Arena) (i : Nat) : (c k : Nat) → Nat
  | c, 0 => c
  | c, k + 1 =>
    let e := a.subtreeEnd c
    if i < e then c else a.childHolding i e k

/-- Descends from the node at `p` towards position `i`, one generation per step, and returns the
node whose direct child starts at `i`. -/
def descend (a : Arena) (i : Nat) : (fuel p : Nat) → Option Nat
  | 0, _ => none
  | fuel + 1, p =>
    let c := a.childHolding i (a.next p) (a.childrenAt p)
    if c = i then some p else a.descend i fuel c

/-- The position of the parent of the node at `i`, or none for a root. -/
def parentOf (a : Arena) (i : Nat) : Option Nat :=
  let r := a.rootOf i (a.size + 1) 0
  if r = i ∨ a.size ≤ r then none else a.descend i (a.size + 1) r

theorem span_le_length : ∀ (l : List Node) (p : Nat), span l p ≤ l.length
  | _, 0 => by simp [span]
  | [], _ + 1 => by simp [span]
  | n :: rest, p + 1 => by
    have := span_le_length rest (p + n.children)
    simp only [span, List.length_cons]
    omega

theorem span_cons_pos (n : Node) (rest : List Node) (p : Nat) :
    0 < span (n :: rest) (p + 1) := by
  simp [span]

/-- The arena's block from position `i` is the list's block from the same record. -/
theorem blockEnd_eq (a : Arena) (i p : Nat) : a.blockEnd i p = i + span (a.toList.drop i) p := by
  rw [blockEnd]
  by_cases hp : p = 0
  · subst hp
    simp [span]
  · obtain ⟨q, rfl⟩ : ∃ q, p = q + 1 := ⟨p - 1, by omega⟩
    by_cases hi : i < a.size
    · have hd : a.toList.drop i = a[i] :: a.toList.drop (i + 1) := by
        rw [List.drop_eq_getElem_cons (by simpa using hi)]
        simp
      rw [if_neg hp, dif_pos hi, hd, span, blockEnd_eq a (i + 1)]
      simp only [Nat.add_sub_cancel]
      omega
    · have hd : a.toList.drop i = [] := by
        simp only [List.drop_eq_nil_iff, Array.length_toList]
        omega
      rw [if_neg hp, dif_neg hi, hd, span]
      omega
termination_by a.size - i

theorem subtreeEnd_le_size (a : Arena) (i : Nat) (h : i ≤ a.size) :
    a.subtreeEnd i ≤ a.size := by
  have := span_le_length (a.toList.drop i) 1
  simp only [List.length_drop, Array.length_toList] at this
  rw [subtreeEnd, blockEnd_eq]
  omega

theorem lt_subtreeEnd (a : Arena) (i : Nat) (h : i < a.size) : i < a.subtreeEnd i := by
  rw [subtreeEnd, blockEnd_eq]
  obtain ⟨n, rest, hd⟩ : ∃ n rest, a.toList.drop i = n :: rest := by
    cases hx : a.toList.drop i with
    | nil => simp at hx; omega
    | cons n rest => exact ⟨n, rest, rfl⟩
  rw [hd]
  have : 0 < span (n :: rest) 1 := span_cons_pos n rest 0
  omega

end Arena

end TreeArena
