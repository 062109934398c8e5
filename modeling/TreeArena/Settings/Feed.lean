/-!
# Decoding a text in blocks

A configuration text reaches the scanner through a buffer that is decoded on demand, 512 bytes
at a time. Which blocks have been decoded shows in two ways:

* a character that may not appear in a text (a control character, say) is found only when
  the block holding it is decoded, so a text is refused for one only if scanning reaches it;
* a byte-order mark is recognised at the front of the buffer, not at the scanner's position.
  The front is where the unread characters were moved the last time the buffer was refilled,
  which happens only when the scanner asks for more characters than are decoded.

A read takes 512 bytes from the end of the last whole character decoded before, so a character
split by a read is decoded with the next block. The first read starts at the text's first
byte; a byte-order mark there is dropped before decoding. Asking past the end of the text gives
one end marker for each request.
-/

namespace TreeArena

namespace Settings

/-- Whether a character may appear in a configuration text: tab, line breaks, printable ASCII
and the rest of Unicode outside the control and surrogate ranges and the two non-characters. -/
def allowedChar (c : Char) : Bool :=
  let v := c.toNat
  v == 0x09 || v == 0x0A || v == 0x0D || (0x20 ≤ v && v ≤ 0x7E) || v == 0x85 ||
    (0xA0 ≤ v && v ≤ 0xD7FF) || (0xE000 ≤ v && v ≤ 0xFFFD) ||
    (0x10000 ≤ v && v ≤ 0x10FFFF)

/-- The number of bytes characters take in UTF-8. -/
def byteLength : List Char → Nat
  | [] => 0
  | c :: cs => c.utf8Size + byteLength cs

/-- The ends of the blocks a text is decoded in, as character counts, for characters that start
`offset` bytes into the text. Each read ends 512 bytes after the end of the last whole
character of the one before; the characters it holds whole form its block. -/
def blockEnds (chars : List Char) (offset : Nat) : List Nat :=
  go chars offset 0 512 []
where
  /-- Walks the characters at byte `pos`, `n` characters in, with the current read ending at
  byte `limit`; `acc` holds the ends found so far, last first. -/
  go : List Char → Nat → Nat → Nat → List Nat → List Nat
    | [], _, n, _, acc => (n :: acc).reverse
    | c :: rest, pos, n, limit, acc =>
      let w := c.utf8Size
      if pos + w ≤ limit then go rest (pos + w) (n + 1) limit acc
      else go rest (pos + w) (n + 1) (pos + 512) (n :: acc)

/-- How far a text is decoded: the ends of the blocks still to decode, how many characters are
decoded (an end marker past the end counting as one), the position of the buffer's front,
whether a read found the end of the text, whether decoding met a character that may not appear
(and stopped before it for good), and whether that happened while only looking ahead. -/
structure Feed where
  pending : List Nat
  decoded : Nat
  front : Nat
  atEnd : Bool
  fault : Bool
  softFault : Bool
deriving Repr, Inhabited

namespace Feed

/-- Nothing decoded yet. The first read looks for a byte-order mark in three bytes; a shorter
text is read to its end there and then. -/
def start (chars : List Char) (offset : Nat) : Feed :=
  { pending := blockEnds chars offset, decoded := 0, front := 0,
    atEnd := offset + byteLength chars < 3,
    fault := false, softFault := false }

/-- The first position from `i` on, among the next `n`, whose character may not appear. -/
def firstDisallowed (text : Array Char) (i : Nat) : Nat → Option Nat
  | 0 => none
  | n + 1 => if allowedChar (text.getD i ' ') then firstDisallowed text (i + 1) n else some i

/-- Decodes block after block until `target` characters are there, or one end marker once a
read finds the end (or has found it). A character that may not appear stops decoding before
it; the answer tells whether decoding went through. -/
def fill (text : Array Char) (target : Nat) : Nat → Feed → Feed × Bool
  | 0, f => (f, true)
  | fuel + 1, f =>
    if f.fault then (f, false)
    else
      match f.pending with
      | [] => ({ f with atEnd := true, decoded := f.decoded + 1 }, true)
      | e :: rest =>
        match firstDisallowed text f.decoded (e - f.decoded) with
        | some b => ({ f with decoded := b, fault := true }, false)
        | none =>
          let f := { f with decoded := e, pending := rest }
          if f.atEnd then ({ f with decoded := f.decoded + 1 }, true)
          else if target ≤ f.decoded then (f, true)
          else fill text target fuel f

/-- Asks for `k` characters from position `p`. When fewer are decoded, the unread characters
move to the buffer's front, so the front becomes `p`, and decoding goes on. -/
def request (text : Array Char) (p k : Nat) (f : Feed) : Feed × Bool :=
  if p + k ≤ f.decoded then (f, true)
  else fill text (p + k) (f.pending.length + 1) { f with front := p }

/-- A request that is already decoded changes nothing. -/
theorem request_decoded (text : Array Char) (p k : Nat) (f : Feed) (h : p + k ≤ f.decoded) :
    request text p k f = (f, true) := by
  simp [request, h]

end Feed

end Settings

end TreeArena
