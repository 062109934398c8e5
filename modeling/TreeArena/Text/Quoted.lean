import TreeArena.Text.Printable
import TreeArena.Text.Utf8

/-!
# Quoted text with escapes

A text is shown between double quotes. The quote and the backslash are escaped with a backslash;
printable characters (see `Printable`) stand as they are; the seven control characters with a
letter escape (`\a \b \f \n \r \t \v`) use it; other control characters below U+0080 are
written `\x` and two hex digits; any other unprintable character is written `\u` and four hex
digits, or `\U` and eight beyond U+FFFF. Hex digits are lower case.

Bytes are quoted the same way, character by character; a byte that starts no well-formed UTF-8
sequence is written `\x` and its two hex digits.
-/

namespace TreeArena

namespace Quoted

/-- Whether a character is shown as it is. -/
def isPrintable (c : Char) : Bool := Printable.isPrintable c

/-- The lower-case hex digit of a value below sixteen. -/
def hexDigit (n : Nat) : Char := if n < 10 then Char.ofNat (48 + n) else Char.ofNat (87 + n)

/-- `n` in `width` lower-case hex digits. -/
def hex (width n : Nat) : List Char :=
  (List.range width).reverse.map fun i => hexDigit (n / Nat.pow 16 i % 16)

/-- The escaped form of one character. -/
def escape (c : Char) : List Char :=
  let v := c.val.toNat
  if c = '"' ∨ c = '\\' then ['\\', c]
  else if isPrintable c then [c]
  else if v = 7 then ['\\', 'a']
  else if v = 8 then ['\\', 'b']
  else if v = 12 then ['\\', 'f']
  else if v = 10 then ['\\', 'n']
  else if v = 13 then ['\\', 'r']
  else if v = 9 then ['\\', 't']
  else if v = 11 then ['\\', 'v']
  else if v < 0x20 ∨ v = 0x7F then ['\\', 'x'] ++ hex 2 v
  else if v < 0x10000 then ['\\', 'u'] ++ hex 4 v
  else ['\\', 'U'] ++ hex 8 v

/-- The text between double quotes, escaped. -/
def quote (s : String) : String :=
  String.ofList ('"' :: (s.toList.flatMap escape ++ ['"']))

/-- The escaped form of bytes: each well-formed UTF-8 sequence as its character, any other byte
as a hex escape. Each step consumes at least one byte. -/
def escapeBytes : Nat → List UInt8 → List Char
  | 0, _ => []
  | _, [] => []
  | fuel + 1, b :: rest =>
    match Utf8.readScalar (b :: rest) with
    | some (c, rest') => escape (Char.ofNat c) ++ escapeBytes fuel rest'
    | none => ['\\', 'x'] ++ hex 2 b.toNat ++ escapeBytes fuel rest

/-- Bytes between double quotes, escaped. -/
def quoteBytes (bs : List UInt8) : String :=
  String.ofList ('"' :: (escapeBytes bs.length bs ++ ['"']))

theorem escape_printable (c : Char) (h : isPrintable c = true) (hq : c ≠ '"') (hb : c ≠ '\\') :
    escape c = [c] := by
  simp [escape, h, hq, hb]

end Quoted

end TreeArena
