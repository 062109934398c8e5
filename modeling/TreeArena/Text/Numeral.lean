/-!
# Underscores in numerals

A numeral may group its digits with underscores: each underscore stands between two digits, a
base prefix (`0b`, `0o`, `0x`) counting as a digit before it. Integers and floats read from
flags and from configuration texts follow the same rule.
-/

namespace TreeArena

namespace Numeral

/-- Whether the underscores of a numeral each stand between two digits (or after a base
prefix). After an optional sign and base prefix, characters are read one by one, remembering
whether the last was a digit (`0`), an underscore (`_`), something else (`!`), or nothing yet
(`^`); an underscore must follow a digit, the character after it must be a digit, and the
numeral must not end in one. -/
def underscoresOk (s : String) : Bool :=
  let cs := match s.toList with
    | '+' :: r => r
    | '-' :: r => r
    | r => r
  let (cs, saw, hex) := match cs with
    | '0' :: c :: r =>
      let l := c.toLower
      if l == 'b' || l == 'o' || l == 'x' then (r, '0', l == 'x') else (cs, '^', false)
    | _ => (cs, '^', false)
  let isDigitOf := fun (c : Char) =>
    ('0' ≤ c && c ≤ '9') || (hex && 'a' ≤ c.toLower && c.toLower ≤ 'f')
  let final := cs.foldl (fun (st : Option Char) c =>
    match st with
    | none => none
    | some saw =>
      if isDigitOf c then some '0'
      else if c == '_' then (if saw != '0' then none else some '_')
      else if saw == '_' then none
      else some '!') (some saw)
  match final with
  | some c => c != '_'
  | none => false

end Numeral

end TreeArena
