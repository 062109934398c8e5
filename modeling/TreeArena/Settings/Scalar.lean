import TreeArena.Text.Numeral
/-!
# What a plain scalar stands for

A plain scalar's text decides its type: `~`, `null` and the empty text are null, `true` and
`false` (in three spellings each) are booleans, numbers with an optional sign and base prefix
(`0x`, `0o`, `0b`, or a leading `0` for octal; underscores ignored) are integers, decimal numbers
with a point or an exponent are floats, dates are timestamps, and anything else is a string.
An integer too large for 64 bits may still read as a float; a float too large for a double reads
as a string.

Floats are rounded to the nearest double, ties to even, with exact rational arithmetic, so that
truncating one to an integer gives the value a double would.
-/

namespace TreeArena

namespace Settings

/-- A double-precision float: not a number, an infinity, or `± mantissa · 2 ^ exponent`. -/
inductive Double where
  | nan
  | infinity (negative : Bool)
  | finite (negative : Bool) (mantissa : Nat) (exponent : Int)
deriving Repr, Inhabited, DecidableEq

/-- What a scalar stands for. -/
inductive Resolved where
  | null
  | bool (b : Bool)
  | int (v : Int)
  | float (d : Double)
  | timestamp
  | str
deriving Repr, Inhabited, DecidableEq

namespace Resolved

/-- The tag of a resolved scalar, in short form. -/
def tag : Resolved → String
  | .null => "!!null"
  | .bool _ => "!!bool"
  | .int _ => "!!int"
  | .float _ => "!!float"
  | .timestamp => "!!timestamp"
  | .str => "!!str"

end Resolved

/-- Whether a character is a decimal digit. -/
def isDigit (c : Char) : Bool := '0' ≤ c && c ≤ '9'

/-- The value of a digit in bases up to 36; 36 for any other character. -/
def digitValue (c : Char) : Nat :=
  if isDigit c then c.toNat - '0'.toNat
  else if 'a' ≤ c && c ≤ 'z' then c.toNat - 'a'.toNat + 10
  else if 'A' ≤ c && c ≤ 'Z' then c.toNat - 'A'.toNat + 10
  else 36

/-- Reads digits of a base onto `acc`; `none` if a character is not a digit of it. -/
def readDigits (base : Nat) : List Char → Nat → Option Nat
  | [], acc => some acc
  | c :: cs, acc =>
    let d := digitValue c
    if d < base then readDigits base cs (acc * base + d) else none

/-- An unsigned 64-bit number: `0b`, `0o` and `0x` prefixes (followed by at least one more
character) choose the base, another leading `0` means octal, and the rest is decimal. -/
def parseUnsigned (cs : List Char) : Option Nat :=
  let v := match cs with
    | [] => none
    | '0' :: c :: d :: rest =>
      let l := c.toLower
      if l == 'b' then readDigits 2 (d :: rest) 0
      else if l == 'o' then readDigits 8 (d :: rest) 0
      else if l == 'x' then readDigits 16 (d :: rest) 0
      else readDigits 8 (c :: d :: rest) 0
    | '0' :: rest => readDigits 8 rest 0
    | _ => readDigits 10 cs 0
  v.filter (· < Nat.pow 2 64)

/-- A signed 64-bit number: an optional sign before an unsigned one. -/
def parseSigned (cs : List Char) : Option Int :=
  let (negative, rest) := match cs with
    | '+' :: r => (false, r)
    | '-' :: r => (true, r)
    | _ => (false, cs)
  match parseUnsigned rest with
  | none => none
  | some u =>
    if negative then (if u ≤ Nat.pow 2 63 then some (-(u : Int)) else none)
    else if u < Nat.pow 2 63 then some (u : Int) else none

/-- A 64-bit number in a fixed base, with an optional sign: signed when a sign is given or the
value fits, else unsigned. -/
def parseInBase (base : Nat) (cs : List Char) : Option Int :=
  let (negative, signed, rest) := match cs with
    | '+' :: r => (false, true, r)
    | '-' :: r => (true, true, r)
    | _ => (false, false, cs)
  if rest.isEmpty then none
  else
    match readDigits base rest 0 with
    | none => none
    | some u =>
      if negative then (if u ≤ Nat.pow 2 63 then some (-(u : Int)) else none)
      else if u < Nat.pow 2 63 then some (u : Int)
      else if !signed && u < Nat.pow 2 64 then some (u : Int)
      else none

/-- The number of binary digits of a number. -/
def bitLength (n : Nat) : Nat := Nat.log2 n + 1

/-- The nearest double to `p / q` (both positive), ties to even: mantissa and exponent, the
mantissa below `2 ^ 53`; `none` when it overflows. -/
def roundRatio (p q : Nat) : Option (Nat × Int) :=
  let e0 : Int := max ((bitLength p : Int) - bitLength q - 53) (-1074)
  let split := fun (e : Int) =>
    if e ≥ 0 then
      let den := q * Nat.pow 2 e.toNat
      (p / den, p % den, den)
    else
      let num := p * Nat.pow 2 (-e).toNat
      (num / q, num % q, q)
  let (m0, _, _) := split e0
  let e := if m0 ≥ Nat.pow 2 53 then e0 + 1
    else if m0 < Nat.pow 2 52 && e0 > -1074 then e0 - 1 else e0
  let (m1, _, _) := split e
  let e := if m1 ≥ Nat.pow 2 53 then e + 1 else e
  let (m, r, den) := split e
  let up := 2 * r > den || (2 * r == den && m % 2 == 1)
  let (m, e) := if up then (if m + 1 == Nat.pow 2 53 then (Nat.pow 2 52, e + 1) else (m + 1, e))
    else (m, e)
  if e + bitLength m > 1024 then none else some (m, e)

/-- The double nearest to `± digits · 10 ^ scale`, where `digits` has `width` decimal digits;
`none` when it overflows. Values from `10 ^ 309` up overflow and values below `10 ^ -330` round
to zero, which keeps the exact arithmetic small. -/
def decimalDouble (negative : Bool) (digits width : Nat) (scale : Int) : Option Double :=
  if digits == 0 then some (.finite negative 0 0)
  else
    if (width : Int) + scale > 309 then none
    else if (width : Int) + scale < -330 then some (.finite negative 0 0)
    else
      let (p, q) := if scale ≥ 0 then (digits * Nat.pow 10 scale.toNat, 1)
        else (digits, Nat.pow 10 (-scale).toNat)
      (roundRatio p q).map fun (m, e) => .finite negative m e

/-- The double nearest to an integer. -/
def intDouble (v : Int) : Double :=
  if v == 0 then .finite false 0 0
  else
    match roundRatio v.natAbs 1 with
    | some (m, e) => .finite (v < 0) m e
    | none => .infinity (v < 0)

/-- Reads a decimal float: optional sign, digits with an optional point (at least one digit
before or after it), and an optional exponent. -/
def parseDecimal (cs : List Char) : Option Double :=
  let (negative, cs) := match cs with
    | '+' :: r => (false, r)
    | '-' :: r => (true, r)
    | _ => (false, cs)
  let whole := cs.takeWhile isDigit
  let cs := cs.dropWhile isDigit
  let (fraction, cs, point) := match cs with
    | '.' :: r => (r.takeWhile isDigit, r.dropWhile isDigit, true)
    | _ => ([], cs, false)
  let body := if point && whole.isEmpty then !fraction.isEmpty else !whole.isEmpty
  let exponent : Option Int := match cs with
    | [] => some 0
    | e :: r =>
      if e == 'e' || e == 'E' then
        let (sign, r) := match r with
          | '+' :: t => (1, t)
          | '-' :: t => (-1, t)
          | _ => (1, r)
        if !r.isEmpty && r.all isDigit then
          (readDigits 10 r 0).map fun n => sign * (n : Int)
        else none
      else none
  match exponent with
  | none => none
  | some x =>
    if !body then none
    else
      match readDigits 10 (whole ++ fraction) 0 with
      | none => none
      | some digits =>
        let width := ((whole ++ fraction).dropWhile (· == '0')).length
        decimalDouble negative digits width (x - fraction.length)

/-- Reads a float written from its point: the point and digits, which underscores may group,
then an optional exponent whose first character after its sign is a digit. -/
def parsePointFloat (s : String) : Option Double :=
  let cs := s.toList
  let isPart := fun (c : Char) => isDigit c || c == '_'
  let body := cs.drop 1
  let mantissa := body.takeWhile isPart
  let exponentOk := match body.dropWhile isPart with
    | [] => true
    | e :: r =>
      let r := match r with
        | '+' :: t => t
        | '-' :: t => t
        | _ => r
      (e == 'e' || e == 'E') && match r with
        | d :: t => isDigit d && t.all isPart
        | [] => false
  if mantissa.any isDigit && exponentOk && (!cs.contains '_' || Numeral.underscoresOk s) then
    parseDecimal (cs.filter (· != '_'))
  else none

/-- The number of days of a month. -/
def daysIn (year month : Nat) : Nat :=
  if month == 2 then
    if year % 4 == 0 && (year % 100 != 0 || year % 400 == 0) then 29 else 28
  else if month == 4 || month == 6 || month == 9 || month == 11 then 30
  else 31

/-- Reads one or two digits. -/
def shortNumber (cs : List Char) : Option (Nat × List Char) :=
  match cs with
  | a :: b :: rest =>
    if isDigit a && isDigit b then some (digitValue a * 10 + digitValue b, rest)
    else if isDigit a then some (digitValue a, b :: rest)
    else none
  | [a] => if isDigit a then some (digitValue a, []) else none
  | [] => none

/-- Reads exactly two digits. -/
def twoDigits (cs : List Char) : Option (Nat × List Char) :=
  match cs with
  | a :: b :: rest => if isDigit a && isDigit b then some (digitValue a * 10 + digitValue b, rest)
    else none
  | _ => none

/-- Reads a date `YYYY-M-D`, month and day of one or two digits, checked against the calendar. -/
def readDate (cs : List Char) : Option (List Char) :=
  match cs with
  | y1 :: y2 :: y3 :: y4 :: '-' :: rest =>
    if [y1, y2, y3, y4].all isDigit then
      let year := ((digitValue y1 * 10 + digitValue y2) * 10 + digitValue y3) * 10 + digitValue y4
      match shortNumber rest with
      | some (month, '-' :: rest) =>
        if month < 1 || month > 12 then none
        else
          match shortNumber rest with
          | some (day, rest) => if day < 1 || day > daysIn year month then none else some rest
          | none => none
      | _ => none
    else none
  | _ => none

/-- Reads a time of day `H:M:S` with optional fractional seconds. -/
def readClock (cs : List Char) : Option (List Char) :=
  match shortNumber cs with
  | some (h, ':' :: rest) =>
    match shortNumber rest with
    | some (m, ':' :: rest) =>
      match shortNumber rest with
      | some (s, rest) =>
        if h > 23 || m > 59 || s > 59 then none
        else
          match rest with
          | c :: d :: more =>
            if (c == '.' || c == ',') && isDigit d then some (more.dropWhile isDigit)
            else some rest
          | _ => some rest
      | none => none
    | _ => none
  | _ => none

/-- Reads a zone: `Z`, or a sign with `hh:mm`. -/
def readZone (cs : List Char) : Option (List Char) :=
  match cs with
  | 'Z' :: rest => some rest
  | sign :: rest =>
    if sign == '+' || sign == '-' then
      match twoDigits rest with
      | some (h, ':' :: rest) =>
        match twoDigits rest with
        | some (m, rest) => if h > 24 || m > 60 then none else some rest
        | none => none
      | _ => none
    else none
  | [] => none

/-- Whether a text is a timestamp: a date alone, a date and time separated by a run of spaces,
or a date and time separated by `T` or `t` with a zone. -/
def isTimestamp (s : String) : Bool :=
  match readDate s.toList with
  | some [] => true
  | some (c :: rest) =>
    if c == 'T' || c == 't' then
      match (readClock rest).bind readZone with
      | some [] => true
      | _ => false
    else if c == ' ' then readClock (rest.dropWhile (· == ' ')) == some []
    else false
  | none => false

/-- The words that stand for fixed values. -/
def fixedWords : List (String × Resolved) :=
  [("true", .bool true), ("True", .bool true), ("TRUE", .bool true),
   ("false", .bool false), ("False", .bool false), ("FALSE", .bool false),
   ("", .null), ("~", .null), ("null", .null), ("Null", .null), ("NULL", .null),
   (".nan", .float .nan), (".NaN", .float .nan), (".NAN", .float .nan),
   (".inf", .float (.infinity false)), (".Inf", .float (.infinity false)),
   (".INF", .float (.infinity false)), ("+.inf", .float (.infinity false)),
   ("+.Inf", .float (.infinity false)), ("+.INF", .float (.infinity false)),
   ("-.inf", .float (.infinity true)), ("-.Inf", .float (.infinity true)),
   ("-.INF", .float (.infinity true))]

/-- What a plain scalar stands for, given its explicit tag if any. Only texts starting with a
digit, a sign, a point or one of `yYnNtTfFoO~` (or the empty text) can be anything but a
string; dates are timestamps only without a tag or under `!!timestamp`. -/
def resolvePlain (tag : Option String) (s : String) : Resolved :=
  let cs := s.toList
  let hint : Option Char := match cs with
    | [] => some 'N'
    | c :: _ =>
      if c == '+' || c == '-' then some 'S'
      else if isDigit c then some 'D'
      else if "yYnNtTfFoO~".contains c then some 'M'
      else if c == '.' then some '.'
      else none
  match hint with
  | none => .str
  | some h =>
    match fixedWords.lookup s with
    | some r => r
    | none =>
      if h == '.' then
        match parsePointFloat s with
        | some d => .float d
        | none => .str
      else if h == 'D' || h == 'S' then
        if (tag.isNone || tag == some "!!timestamp") && isTimestamp s then .timestamp
        else
          let plain := cs.filter (· != '_')
          match parseSigned plain with
          | some v => .int v
          | none =>
            match parseUnsigned plain with
            | some v => .int v
            | none =>
              match parseDecimal plain with
              | some d => .float d
              | none =>
                let prefixed := match plain with
                  | '0' :: 'b' :: rest => parseInBase 2 rest
                  | '0' :: 'o' :: rest => parseInBase 8 rest
                  | _ => none
                match prefixed with
                | some v => .int v
                | none => .str
      else .str

/-- The integer a double truncates to, the way a conversion to a 64-bit integer does: values
from `2 ^ 63` up and not-a-number fail, and values below `-2 ^ 63` give `-2 ^ 63`. -/
def Double.toInt64? : Double → Option Int
  | .nan => none
  | .infinity negative => if negative then some (-(Nat.pow 2 63 : Int)) else none
  | .finite negative m e =>
    let t : Nat := if e ≥ 0 then m * Nat.pow 2 e.toNat else m / Nat.pow 2 (-e).toNat
    if negative then
      (if t ≤ Nat.pow 2 63 then some (-(t : Int)) else some (-(Nat.pow 2 63 : Int)))
    else if t < Nat.pow 2 63 then some (t : Int)
    else if t == Nat.pow 2 63 then some (-(Nat.pow 2 63 : Int))
    else none

/-- The value of a digit of the standard base64 alphabet. -/
def base64Digit (c : Char) : Option Nat :=
  if 'A' ≤ c && c ≤ 'Z' then some (c.toNat - 'A'.toNat)
  else if 'a' ≤ c && c ≤ 'z' then some (c.toNat - 'a'.toNat + 26)
  else if isDigit c then some (c.toNat - '0'.toNat + 52)
  else if c == '+' then some 62
  else if c == '/' then some 63
  else none

/-- Decodes groups of four base64 digits onto `acc` (reversed); the last group may end in one or
two `=`, and bits past its last whole byte are dropped. `none` for anything else. -/
def base64Groups : List Char → List UInt8 → Option (List UInt8)
  | [], acc => some acc.reverse
  | [a, b, '=', '='], acc => do
    let x ← base64Digit a
    let y ← base64Digit b
    some ((UInt8.ofNat (x * 4 + y / 16)) :: acc).reverse
  | [a, b, c, '='], acc => do
    let x ← base64Digit a
    let y ← base64Digit b
    let z ← base64Digit c
    some ((UInt8.ofNat (y % 16 * 16 + z / 4)) :: (UInt8.ofNat (x * 4 + y / 16)) :: acc).reverse
  | a :: b :: c :: d :: rest, acc => do
    let x ← base64Digit a
    let y ← base64Digit b
    let z ← base64Digit c
    let w ← base64Digit d
    base64Groups rest ((UInt8.ofNat (z % 4 * 64 + w)) :: (UInt8.ofNat (y % 16 * 16 + z / 4)) ::
      (UInt8.ofNat (x * 4 + y / 16)) :: acc)
  | _, _ => none

/-- Decodes padded standard base64, ignoring line breaks; `none` when it is malformed. -/
def decodeBase64 (s : String) : Option (List UInt8) :=
  base64Groups (s.toList.filter fun c => c != '\n' && c != '\r') []

end Settings

end TreeArena
