import Scoping.Token.Basic

/-!
# What stands before a slash

A slash divides behind an operand and begins a regular expression elsewhere. The significant tokens
read so far decide it, and only through what is kept here: whether the last one ends an operand, the
kinds of the last two, and for each open bracket how it was opened. A parenthesis that closes the
header of a statement ends no operand, nor does a brace that closes a block; the kind of token
before the opening bracket tells those from the others.

This is a guess of the statement grammar by one or two tokens. It never asks whether brackets match.
-/

namespace Scoping

/-- What the significant tokens read so far say about a slash that comes next. -/
structure Lookbehind where
  /-- A slash divides. -/
  afterOperand : Bool
  /-- The kind of the last significant token, and of the one before. -/
  last : Option TokenKind
  beforeLast : Option TokenKind
  /-- For each open parenthesis, innermost first: it opens the header of a statement. -/
  headers : List Bool
  /-- For each open brace, innermost first: it opens a block of statements. -/
  blocks : List Bool
  deriving DecidableEq, Repr, Inhabited

namespace Lookbehind

/-- Nothing read yet. -/
def start : Lookbehind := ⟨false, none, none, [], []⟩

/-- A parenthesis behind these two tokens opens the header of a statement. -/
def opensHeader (last beforeLast : Option TokenKind) : Bool :=
  match last with
  | some (.keyword .if_) | some (.keyword .while_) | some (.keyword .for_)
  | some (.keyword .with_) => true
  | some (.keyword .await) => beforeLast == some (.keyword .for_)
  | _ => false

/-- A brace behind this token opens a block of statements. -/
def opensBlock (last : Option TokenKind) : Bool :=
  match last with
  | none => true
  | some (.punctuation .semicolon) | some (.punctuation .openBrace)
  | some (.punctuation .closeBrace) | some (.punctuation .closeParen)
  | some (.punctuation .arrow) => true
  | some (.keyword .else_) | some (.keyword .try_) | some (.keyword .finally_)
  | some (.keyword .do_) => true
  | _ => false

/-- The memory behind one more significant token. -/
def push (l : Lookbehind) (t : Token) : Lookbehind :=
  let moved := { l with last := some t.kind, beforeLast := l.last }
  match t.kind with
  | .punctuation .openParen =>
    { moved with afterOperand := false, headers := opensHeader l.last l.beforeLast :: l.headers }
  | .punctuation .closeParen =>
    { moved with afterOperand := !l.headers.headD false, headers := l.headers.tail }
  | .punctuation .openBrace =>
    { moved with afterOperand := false, blocks := opensBlock l.last :: l.blocks }
  | .punctuation .closeBrace =>
    { moved with afterOperand := !l.blocks.headD false, blocks := l.blocks.tail }
  | _ => { moved with afterOperand := t.endsExpression }

end Lookbehind

end Scoping
