import Scoping.Analysis.Basic
import Scoping.Json.Text

/-!
# Options as text

Options are written as a JSON object with the members `maxTokens` and `maxNestingDepth`, or as an
array of the two values in that order. What is left out takes its standard value; a member that is
unknown or given twice is refused as soon as its name is read. `maxTokens` may be null, which sets
no bound.
-/

namespace Scoping

namespace Options

/-- The greatest number of tokens that can be asked for. -/
def greatestTokens : Nat := 0xffffffffffffffff

/-- The greatest depth that can be asked for. -/
def greatestDepth : Nat := 0xffffffff

/-- The options read so far. -/
structure Partial where
  maxTokens : Option (Option Nat)
  maxNestingDepth : Option Nat
  deriving DecidableEq, Repr, Inhabited

/-- The options, with standard values for what was not read. -/
def Partial.complete (p : Partial) : Options :=
  ⟨p.maxTokens.getD standard.maxTokens, p.maxNestingDepth.getD standard.maxNestingDepth⟩

/-- Reads the colon behind a member's name. -/
def colon (cs : List Char) : Except JsonFault (List Char) :=
  match JsonText.skipSpace cs with
  | [] => .error .truncated
  | ':' :: rest => .ok rest
  | _ => .error .malformed

/-- Reads the value of the member with the given name. -/
def memberValue (p : Partial) (name : String) (cs : List Char) : Except JsonFault (JsonText.Found Partial) :=
  if name == "maxTokens" && p.maxTokens.isNone then do
    let (value, rest) ← JsonText.naturalOrNull greatestTokens (← colon cs)
    return ({ p with maxTokens := some value }, rest)
  else if name == "maxNestingDepth" && p.maxNestingDepth.isNone then do
    let (value, rest) ← JsonText.naturalUpTo greatestDepth (← colon cs)
    return ({ p with maxNestingDepth := some value }, rest)
  else .error .unsuitable

/-- Reads a member, the cursor on its name. -/
def member (p : Partial) (cs : List Char) : Except JsonFault (JsonText.Found Partial) :=
  match cs with
  | [] => .error .truncated
  | '"' :: rest => do
    let (name, rest) ← JsonText.stringTail rest
    memberValue p name rest
  | _ => .error .malformed

/-- Reads the members behind the first, up to the closing brace; each is known and comes once, so
there are no more than `count`. -/
def moreMembers (p : Partial) : (count : Nat) → List Char → Except JsonFault (JsonText.Found Partial)
  | 0, _ => .error .unsuitable
  | count + 1, cs =>
    match JsonText.skipSpace cs with
    | [] => .error .truncated
    | '\x7d' :: rest => .ok (p, rest)
    | ',' :: rest => do
      let (p, rest) ← member p (JsonText.skipSpace rest)
      moreMembers p count rest
    | _ => .error .malformed

/-- Reads an object, its opening brace consumed. -/
def object (cs : List Char) : Except JsonFault (JsonText.Found Partial) :=
  match JsonText.skipSpace cs with
  | '\x7d' :: rest => .ok (⟨none, none⟩, rest)
  | cs => do
    let (p, rest) ← member ⟨none, none⟩ cs
    moreMembers p 3 rest

/-- Reads the closing bracket of an array that has no room for another value. -/
def arrayEnd (cs : List Char) : Except JsonFault (List Char) :=
  match JsonText.skipSpace cs with
  | [] => .error .truncated
  | ']' :: rest => .ok rest
  | _ => .error .malformed

/-- Reads an array, its opening bracket consumed. -/
def array (cs : List Char) : Except JsonFault (JsonText.Found Partial) :=
  match JsonText.skipSpace cs with
  | [] => .error .truncated
  | ']' :: rest => .ok (⟨none, none⟩, rest)
  | cs => do
    let (tokens, rest) ← JsonText.naturalOrNull greatestTokens cs
    match JsonText.skipSpace rest with
    | [] => .error .truncated
    | ']' :: rest => return (⟨some tokens, none⟩, rest)
    | ',' :: rest =>
      match JsonText.skipSpace rest with
      | [] => .error .truncated
      | ']' :: _ => .error .malformed
      | rest => do
        let (depth, rest) ← JsonText.naturalUpTo greatestDepth rest
        return (⟨some tokens, some depth⟩, ← arrayEnd rest)
    | _ => .error .malformed

/-- Reads options, with nothing but blanks before them. -/
def read (cs : List Char) : Except JsonFault (JsonText.Found Options) := do
  let (p, rest) ← match JsonText.skipSpace cs with
    | '\x7b' :: rest => object rest
    | '[' :: rest => array rest
    | cs => .error (JsonText.unwanted cs)
  return (p.complete, rest)

/-- Reads options from a text that holds nothing else. -/
def ofText (text : String) : Except JsonFault Options := do
  let (o, rest) ← read text.toList
  if (JsonText.skipSpace rest).isEmpty then .ok o else .error .malformed

end Options

end Scoping
