/-!
# Variable-length integers

An unsigned integer below 2^64 is written seven bits per byte, least significant group first;
every byte but the last has its high bit set. Reading accepts any such sequence of at most ten
bytes (the tenth may only carry the single top bit), also one with redundant zero groups, and
fails on input that ends inside a number or runs past sixty-four bits.

A signed integer is first folded onto the naturals by the zig-zag rule: `x ≥ 0` goes to `2x`
and `x < 0` to `-2x - 1`, so small magnitudes of either sign take few bytes.

Main statement: `unzigzag_zigzag`, unfolding undoes the fold.
-/

namespace TreeArena

namespace Varint

/-- The groups of `n`, seven bits a byte, low group first. -/
def uvarint (n : Nat) : List UInt8 :=
  if h : n < 128 then [n.toUInt8]
  else (n % 128 + 128).toUInt8 :: uvarint (n / 128)
termination_by n
decreasing_by omega

/-- Why a number could not be read. -/
inductive ReadError where
  /-- The input ended inside the number. -/
  | short
  /-- The number does not fit in sixty-four bits. -/
  | overflow
deriving DecidableEq, Repr

/-- Reads the groups from byte `i` on, with `acc` the value of the groups before it. -/
def readFrom (i acc : Nat) : List UInt8 → Except ReadError (Nat × List UInt8)
  | [] => .error .short
  | b :: rest =>
    if i = 10 then .error .overflow
    else if b.toNat < 128 then
      if i = 9 ∧ b.toNat > 1 then .error .overflow
      else .ok (acc + b.toNat * Nat.pow 128 i, rest)
    else readFrom (i + 1) (acc + (b.toNat - 128) * Nat.pow 128 i) rest

/-- Reads one unsigned number and returns it with the bytes after it. -/
def readUvarint (bs : List UInt8) : Except ReadError (Nat × List UInt8) := readFrom 0 0 bs

/-- Folds a signed integer onto the naturals, alternating signs. -/
def zigzag (x : Int) : Nat := if 0 ≤ x then 2 * x.toNat else 2 * (-x).toNat - 1

/-- Unfolds a natural back to the signed integer it stands for. -/
def unzigzag (u : Nat) : Int := if u % 2 = 0 then (u / 2 : Nat) else -((u / 2 : Nat) : Int) - 1

/-- Signed numbers are written as the unsigned number of their zig-zag fold. -/
def varint (x : Int) : List UInt8 := uvarint (zigzag x)

/-- Reads one signed number. -/
def readVarint (bs : List UInt8) : Except ReadError (Int × List UInt8) :=
  (readUvarint bs).map fun (u, rest) => (unzigzag u, rest)

theorem unzigzag_zigzag (x : Int) : unzigzag (zigzag x) = x := by
  unfold zigzag unzigzag
  split <;> split <;> omega

theorem uvarint_ne_nil (n : Nat) : uvarint n ≠ [] := by
  rw [uvarint]
  split <;> simp

end Varint

end TreeArena
