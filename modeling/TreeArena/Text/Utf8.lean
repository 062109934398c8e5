/-!
# Reading bytes as UTF-8, replacing what is not

Payloads are bytes, and text built from them (a symbol name, an expression's prefix text) need
not be valid UTF-8. To show such text, each well-formed UTF-8 sequence becomes its character and
every byte that does not start one becomes the replacement character U+FFFD, one per byte.
A well-formed sequence is a shortest encoding of a scalar value: no overlong forms, no
surrogates, nothing above U+10FFFF.

Main statement: `decodeLossy_ascii`, ASCII bytes read as themselves.
-/

namespace TreeArena

namespace Utf8

/-- Whether a byte continues a sequence (`10xxxxxx`). -/
def isCont (b : UInt8) : Bool := 0x80 ≤ b.toNat ∧ b.toNat ≤ 0xBF

/-- Reads one well-formed sequence at the front: its scalar value and the rest, or none. The
second byte's range depends on the first, which excludes overlong forms, surrogates and values
past U+10FFFF. -/
def readScalar : List UInt8 → Option (Nat × List UInt8)
  | [] => none
  | b0 :: rest =>
    let c0 := b0.toNat
    if c0 < 0x80 then some (c0, rest)
    else if 0xC2 ≤ c0 ∧ c0 ≤ 0xDF then
      match rest with
      | b1 :: rest => if isCont b1 then some ((c0 % 32) * 64 + b1.toNat % 64, rest) else none
      | [] => none
    else if 0xE0 ≤ c0 ∧ c0 ≤ 0xEF then
      let lo := if c0 = 0xE0 then 0xA0 else 0x80
      let hi := if c0 = 0xED then 0x9F else 0xBF
      match rest with
      | b1 :: b2 :: rest =>
        if lo ≤ b1.toNat ∧ b1.toNat ≤ hi ∧ isCont b2 then
          some ((c0 % 16) * 4096 + (b1.toNat % 64) * 64 + b2.toNat % 64, rest)
        else none
      | _ => none
    else if 0xF0 ≤ c0 ∧ c0 ≤ 0xF4 then
      let lo := if c0 = 0xF0 then 0x90 else 0x80
      let hi := if c0 = 0xF4 then 0x8F else 0xBF
      match rest with
      | b1 :: b2 :: b3 :: rest =>
        if lo ≤ b1.toNat ∧ b1.toNat ≤ hi ∧ isCont b2 ∧ isCont b3 then
          some ((c0 % 8) * 262144 + (b1.toNat % 64) * 4096 + (b2.toNat % 64) * 64 +
            b3.toNat % 64, rest)
        else none
      | _ => none
    else none

/-- The replacement character. -/
def replacement : Char := Char.ofNat 0xFFFD

/-- The characters of a byte string, one replacement character per byte that starts no
well-formed sequence. Each step consumes at least one byte. -/
def decodeChars (fuel : Nat) (bs : List UInt8) : List Char :=
  match fuel, bs with
  | 0, _ => []
  | _, [] => []
  | fuel + 1, b :: rest =>
    match readScalar (b :: rest) with
    | some (c, rest') => Char.ofNat c :: decodeChars fuel rest'
    | none => replacement :: decodeChars fuel rest

/-- A byte string shown as text. -/
def decodeLossy (bs : List UInt8) : String := String.ofList (decodeChars bs.length bs)

theorem decodeChars_ascii (fuel : Nat) (bs : List UInt8) (h : bs.length ≤ fuel)
    (ha : ∀ b ∈ bs, b.toNat < 0x80) :
    decodeChars fuel bs = bs.map fun b => Char.ofNat b.toNat := by
  induction bs generalizing fuel with
  | nil => cases fuel <;> simp [decodeChars]
  | cons b rest ih =>
    cases fuel with
    | zero => simp at h
    | succ fuel =>
      have hb := ha b (by simp)
      have hr : ∀ x ∈ rest, x.toNat < 0x80 := fun x hx => ha x (by simp [hx])
      simp only [List.length_cons] at h
      simp [decodeChars, readScalar, hb, ih fuel (by omega) hr]

theorem decodeLossy_ascii (bs : List UInt8) (ha : ∀ b ∈ bs, b.toNat < 0x80) :
    decodeLossy bs = String.ofList (bs.map fun b => Char.ofNat b.toNat) := by
  unfold decodeLossy
  rw [decodeChars_ascii bs.length bs (Nat.le_refl _) ha]

end Utf8

end TreeArena
