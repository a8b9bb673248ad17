/-!
# Keywords

The reserved words of the language. A word spelled like one of them is always a keyword; the
contextual words (`of`, `async`, `get`, `set`) are none and read as identifiers, to be recognised
where they stand.

A name that Lean itself reserves carries a trailing underscore here; `text` gives the spelling.
-/

namespace Scoping

/-- A reserved word. -/
inductive Keyword where
  | await | break_ | case | catch_ | class_ | const | continue_ | debugger | default | delete
  | do_ | else_ | export_ | extends_ | false_ | finally_ | for_ | function | if_ | import_
  | in_ | instanceof | let_ | new | null | return_ | super | switch | this | throw
  | true_ | try_ | typeof | var | void | while_ | with_ | yield
  deriving DecidableEq, Repr, Inhabited

namespace Keyword

/-- How a keyword is spelled. -/
def text : Keyword → String
  | await => "await" | break_ => "break" | case => "case" | catch_ => "catch"
  | class_ => "class" | const => "const" | continue_ => "continue" | debugger => "debugger"
  | default => "default" | delete => "delete" | do_ => "do" | else_ => "else"
  | export_ => "export" | extends_ => "extends" | false_ => "false" | finally_ => "finally"
  | for_ => "for" | function => "function" | if_ => "if" | import_ => "import"
  | in_ => "in" | instanceof => "instanceof" | let_ => "let" | new => "new"
  | null => "null" | return_ => "return" | super => "super" | switch => "switch"
  | this => "this" | throw => "throw" | true_ => "true" | try_ => "try"
  | typeof => "typeof" | var => "var" | void => "void" | while_ => "while"
  | with_ => "with" | yield => "yield"

/-- Every keyword once, in alphabetical order. -/
def all : List Keyword :=
  [await, break_, case, catch_, class_, const, continue_, debugger, default, delete,
   do_, else_, export_, extends_, false_, finally_, for_, function, if_, import_,
   in_, instanceof, let_, new, null, return_, super, switch, this, throw,
   true_, try_, typeof, var, void, while_, with_, yield]

/-- The keyword that a text spells. -/
def ofText? (s : String) : Option Keyword := all.find? (·.text == s)

/-- The keyword is a value by itself, so an expression can end with it. -/
def isValue : Keyword → Bool
  | this | super | true_ | false_ | null => true
  | _ => false

/-- The keyword begins a statement and stands inside no expression. -/
def startsStatement : Keyword → Bool
  | break_ | case | catch_ | class_ | const | continue_ | debugger | default | do_ | else_
  | export_ | finally_ | for_ | if_ | import_ | let_ | return_ | switch | throw | try_ | var
  | while_ | with_ => true
  | _ => false

theorem mem_all (k : Keyword) : k ∈ all := by cases k <;> decide

theorem ofText?_text (k : Keyword) : ofText? k.text = some k := by cases k <;> decide

theorem text_of_ofText? {s : String} {k : Keyword} (h : ofText? s = some k) : k.text = s := by
  simpa using List.find?_some h

end Keyword

end Scoping
