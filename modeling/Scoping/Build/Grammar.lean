import Scoping.Build.State

/-!
# The recursion of the grammar

Statements and expressions contain each other. The productions are written against a `Grammar`,
which says how to read a statement and an expression inside them, and tied together elsewhere. What
a production does can so be stated for every grammar that behaves well, one production at a time.
-/

namespace Scoping

/-- Where a statement stands. -/
inductive StatementPlace where
  /-- In a list of statements. -/
  | list
  /-- As the whole body of a control statement. -/
  | body
  deriving DecidableEq, Repr, Inhabited

/-- Where an expression ends, besides where every one does. -/
structure ExpressionMode where
  /-- At a comma. -/
  stopAtComma : Bool
  /-- At a line end behind which a new operand begins. -/
  insertSemicolons : Bool
  /-- At the words `in` and `of`. -/
  inHeader : Bool
  deriving DecidableEq, Repr, Inhabited

namespace ExpressionMode

/-- An expression in a statement. -/
def statement : ExpressionMode := ⟨false, true, false⟩

/-- An expression between brackets. -/
def nested : ExpressionMode := ⟨false, false, false⟩

/-- An item of a list. -/
def item : ExpressionMode := ⟨true, false, false⟩

/-- The first clause of a loop header. -/
def header : ExpressionMode := ⟨false, false, true⟩

/-- The same, ending at a comma too. -/
def upToComma (m : ExpressionMode) : ExpressionMode := { m with stopAtComma := true }

end ExpressionMode

/-- How statements and expressions inside a production are read. -/
structure Grammar where
  statement : StatementPlace → Build Unit
  expression : ExpressionMode → Build Unit

namespace Builder

variable (g : Grammar)

/-- Statements up to the brace that closes the scope. -/
def statementsFor : (rounds : Nat) → Build Unit
  | 0 => exhausted
  | rounds + 1 => do
    if ← here .closeBrace then return
    if (← current).isEnd then refuse (.punct .closeBrace)
    g.statement .list
    statementsFor rounds

/-- Statements up to the brace that closes the scope. -/
def statements : Build Unit := do statementsFor g (← read).rounds

/-- Braces with statements, as a scope of their own. -/
def block (kind : ScopeKind) (label : String) : Build Unit := do
  if !(← here .openBrace) then refuse (.punct .openBrace)
  let start := (← current).span.start
  let id ← openScope kind label start (.brace (← get).pos)
  advance
  statements g
  closeBraceScope id

/-- Braces with statements, as the rest of a scope that opened at its header. -/
def braceBody (id : ScopeId) : Build Unit := do
  if !(← here .openBrace) then refuse (.punct .openBrace)
  attachBrace
  advance
  statements g
  closeBraceScope id

/-- The expression of a group whose opening bracket is consumed, with its closing bracket. -/
def grouped (close : Punctuation) : Build Unit := do
  enter
  g.expression .nested
  expect close
  leave

end Builder

end Scoping
