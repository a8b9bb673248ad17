import Scoping.Json.Basic

/-!
# Written JSON

A value is written over several lines: each item and member on a line of its own, two spaces deeper
than its container, and nothing between the brackets of an empty one. In a string the quote, the
backslash and the control characters are escaped, those with a short escape by it and the others by
number; every other character stands for itself.
-/

namespace Scoping

namespace Json

/-- A hexadecimal digit. -/
def digit (n : Nat) : Char := if n < 10 then Char.ofNat (48 + n) else Char.ofNat (87 + n)

/-- A character inside a string. -/
def escape (c : Char) : String :=
  if c == '"' then "\\\""
  else if c == '\\' then "\\\\"
  else if c == '\n' then "\\n"
  else if c == '\r' then "\\r"
  else if c == '\t' then "\\t"
  else if c == '\x08' then "\\b"
  else if c == '\x0c' then "\\f"
  else if c.toNat < 0x20 then
    "\\u00" ++ String.ofList [digit (c.toNat / 16), digit (c.toNat % 16)]
  else String.singleton c

/-- A string between its quotes. -/
def quoted (s : String) : String := (s.toList.foldl (fun out c => out ++ escape c) "\"") ++ "\""

/-- The beginning of a line at some depth. -/
def newline (depth : Nat) : String := "\n" ++ String.ofList (List.replicate (2 * depth) ' ')

mutual
/-- Writes a value behind what is written already. -/
def writeOnto (depth : Nat) (out : String) : Json → String
  | null => out ++ "null"
  | number n => out ++ toString n
  | string s => out ++ quoted s
  | array [] => out ++ "[]"
  | array (v :: vs) =>
    writeItems (depth + 1) (writeOnto (depth + 1) (out ++ "[" ++ newline (depth + 1)) v) vs
      ++ newline depth ++ "]"
  | object [] => out ++ "\x7b\x7d"
  | object (m :: ms) =>
    writeMembers (depth + 1) (writeMember (depth + 1) (out ++ "\x7b" ++ newline (depth + 1)) m) ms
      ++ newline depth ++ "\x7d"
/-- Writes items, each behind a comma. -/
def writeItems (depth : Nat) (out : String) : List Json → String
  | [] => out
  | v :: vs => writeItems depth (writeOnto depth (out ++ "," ++ newline depth) v) vs
/-- Writes members, each behind a comma. -/
def writeMembers (depth : Nat) (out : String) : List (String × Json) → String
  | [] => out
  | m :: ms => writeMembers depth (writeMember depth (out ++ "," ++ newline depth) m) ms
/-- Writes the name of a member and its value. -/
def writeMember (depth : Nat) (out : String) : String × Json → String
  | (name, v) => writeOnto depth (out ++ quoted name ++ ": ") v
end

/-- The value over several lines. -/
def pretty (v : Json) : String := writeOnto 0 "" v

end Json

end Scoping
