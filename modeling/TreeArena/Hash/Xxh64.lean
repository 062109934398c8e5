/-!
# The XXH64 hash

XXH64 with seed zero over a byte string: four lanes absorb 32-byte stripes, the lanes are merged,
the length is added, the remaining bytes are mixed in eight, four and one at a time, and a final
avalanche spreads every bit. All arithmetic is modulo 2^64 and words are read little-endian.
-/

namespace TreeArena

namespace Xxh64

/-- First mixing prime. -/
def prime1 : UInt64 := 0x9E3779B185EBCA87
/-- Second mixing prime. -/
def prime2 : UInt64 := 0xC2B2AE3D27D4EB4F
/-- Third mixing prime. -/
def prime3 : UInt64 := 0x165667B19E3779F9
/-- Fourth mixing prime. -/
def prime4 : UInt64 := 0x85EBCA77C2B2AE63
/-- Fifth mixing prime. -/
def prime5 : UInt64 := 0x27D4EB2F165667C5

/-- Rotation left by `r` bits. -/
def rotl (x : UInt64) (r : UInt64) : UInt64 := (x <<< r) ||| (x >>> (64 - r))

/-- One lane absorbing one word. -/
def round (acc input : UInt64) : UInt64 := rotl (acc + input * prime2) 31 * prime1

/-- Folding one lane into the merged hash. -/
def mergeRound (acc v : UInt64) : UInt64 := (acc ^^^ round 0 v) * prime1 + prime4

/-- The little-endian word of the first `n` bytes. -/
def readLE (n : Nat) (bs : List UInt8) : UInt64 :=
  ((bs.take n).zipIdx.map fun (b, i) => b.toUInt64 <<< (8 * i).toUInt64).foldl (· ||| ·) 0

/-- Absorbs `n` 32-byte stripes into the four lanes; returns the lanes and the bytes left. The
caller counts the stripes once, so no step measures what is left. -/
def stripes (n : Nat) (v : UInt64 × UInt64 × UInt64 × UInt64) (bs : List UInt8) :
    (UInt64 × UInt64 × UInt64 × UInt64) × List UInt8 :=
  match n with
  | 0 => (v, bs)
  | n + 1 =>
    let (v1, v2, v3, v4) := v
    let v' := (round v1 (readLE 8 bs), round v2 (readLE 8 (bs.drop 8)),
      round v3 (readLE 8 (bs.drop 16)), round v4 (readLE 8 (bs.drop 24)))
    stripes n v' (bs.drop 32)

/-- Mixes in the bytes left after the stripes: words, then a half word, then single bytes. -/
def tail (fuel : Nat) (h : UInt64) (bs : List UInt8) : UInt64 :=
  match fuel with
  | 0 => h
  | fuel + 1 =>
    if 8 ≤ bs.length then
      tail fuel (rotl (h ^^^ round 0 (readLE 8 bs)) 27 * prime1 + prime4) (bs.drop 8)
    else if 4 ≤ bs.length then
      tail fuel (rotl (h ^^^ readLE 4 bs * prime1) 23 * prime2 + prime3) (bs.drop 4)
    else
      match bs with
      | [] => h
      | b :: rest => tail fuel (rotl (h ^^^ b.toUInt64 * prime5) 11 * prime1) rest

/-- The final avalanche. -/
def avalanche (h : UInt64) : UInt64 :=
  let h := (h ^^^ (h >>> 33)) * prime2
  let h := (h ^^^ (h >>> 29)) * prime3
  h ^^^ (h >>> 32)

/-- XXH64 of a byte string, seed zero. -/
def hash (bs : List UInt8) : UInt64 :=
  let len := bs.length
  let (h, rest) :=
    if len ≥ 32 then
      let ((v1, v2, v3, v4), rest) :=
        stripes (len / 32) (prime1 + prime2, prime2, 0, 0 - prime1) bs
      let h := rotl v1 1 + rotl v2 7 + rotl v3 12 + rotl v4 18
      (mergeRound (mergeRound (mergeRound (mergeRound h v1) v2) v3) v4, rest)
    else (prime5, bs)
  avalanche (tail (rest.length + 1) (h + len.toUInt64) rest)

end Xxh64

end TreeArena
