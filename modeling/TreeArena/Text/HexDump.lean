import TreeArena.Text.Quoted

/-!
# Hex dumps

A hex dump shows bytes sixteen to a line: the offset of the line's first byte in eight hex
digits, two blanks, the bytes in two hex digits each with one blank after each and one more
after the eighth, a second blank and a bar before the last column, and the bytes again as
characters (printable ASCII as itself, anything else as a dot) closed by a bar. A short last line
is padded with blanks so that its character column lines up with the others.
-/

namespace TreeArena

namespace HexDump

/-- How a byte shows in the character column. -/
def shown (b : UInt8) : Char := if b < 32 || b > 126 then '.' else Char.ofNat b.toNat

/-- The hex column of a line holding `bytes`, at most sixteen: each byte as two digits and a
blank, one blank more after the eighth, and a blank and a bar after the sixteenth; missing bytes
are blanks in the same places. -/
def hexColumn (bytes : List UInt8) : String :=
  String.join ((List.range 16).map fun j =>
    let cell := match bytes[j]? with
      | some b => String.ofList (Quoted.hex 2 b.toNat)
      | none => "  "
    cell ++ (if j = 7 then "  " else if j = 15 then "  |" else " "))

/-- One line: offset, hex column and character column. -/
def line (offset : Nat) (bytes : List UInt8) : String :=
  String.ofList (Quoted.hex 8 offset) ++ "  " ++ hexColumn bytes ++
    String.ofList (bytes.map shown) ++ "|\n"

/-- The lines for `bytes` starting at `offset`; each line takes sixteen bytes, so `fuel` lines
suffice when it is at least the number of bytes. -/
def lines : Nat → Nat → List UInt8 → String
  | 0, _, _ => ""
  | _, _, [] => ""
  | fuel + 1, offset, bytes =>
    line offset (bytes.take 16) ++ lines fuel (offset + 16) (bytes.drop 16)

end HexDump

/-- The hex dump of some bytes; nothing for no bytes. -/
def hexDump (bytes : List UInt8) : String := HexDump.lines bytes.length 0 bytes

end TreeArena
