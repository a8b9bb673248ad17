import Scoping.Analysis.Basic

/-!
# Questions to an analysis

What a scope declares, which scope or name stands under a cursor, and where else the name occurs. A
cursor between two characters touches what ends before it as well as what begins behind it. Where
one scope ends and the next begins, the later one is answered.

The answers by offset use what a built tree guarantees: children in source order, and occurrences
ordered by where they begin.
-/

namespace Scoping

/-- What a question asks for that is not there. -/
inductive NotFound where
  | scope (id : ScopeId)
  | binding (id : BindingId)
  | offset (offset size : Nat)
  deriving DecidableEq, Repr, Inhabited

/-- The missing thing in words. -/
def NotFound.message : NotFound → String
  | scope id => "no scope with id " ++ toString id
  | binding id => "no binding with id " ++ toString id
  | offset n size =>
    "offset " ++ toString n ++ " is past the end of the source (" ++ toString size ++ " bytes)"

/-- From a scope downwards through the last child that touches the offset, at most `levels` levels
down. -/
def Tree.descendTo (t : Tree) (offset : Nat) : (levels : Nat) → Scope → Scope
  | 0, s => s
  | levels + 1, s =>
    match (s.children.toList.reverse.filterMap t.scope?).find? (·.range.contains offset) with
    | some child => t.descendTo offset levels child
    | none => s

namespace Analysis

/-- The global scope. -/
def root (a : Analysis) : Scope := (a.tree.scope? globalScope).getD default

def scope (a : Analysis) (id : ScopeId) : Except NotFound Scope :=
  match a.tree.scope? id with
  | some s => .ok s
  | none => .error (.scope id)

/-- The bindings that a scope declares, in the order of their declaration. -/
def bindingsOf (a : Analysis) (s : Scope) : List Binding :=
  s.declarations.ids.filterMap a.tree.binding?

/-- The bindings declared in the scope with this number. -/
def variablesIn (a : Analysis) (id : ScopeId) : Except NotFound (List Binding) := do
  return a.bindingsOf (← a.scope id)

/-- The innermost scope at an offset of the source. -/
def scopeContaining (a : Analysis) (offset : Nat) : Except NotFound Scope :=
  let size := a.tree.sourceSize
  if size < offset then .error (.offset offset size)
  else .ok (a.tree.descendTo offset a.tree.scopes.size a.root)

/-- The occurrences of a binding, in source order. -/
def occurrencesOf (a : Analysis) (id : BindingId) : Except NotFound (List Occurrence) :=
  match a.bound.usesOf? id with
  | some ids => .ok (ids.filterMap a.bound.occurrence?)
  | none => .error (.binding id)

/-- The binding that an occurrence means. -/
def declarationOf (a : Analysis) (o : Occurrence) : Option Binding :=
  o.resolved.bind a.tree.binding?

/-- The occurrence that a cursor touches: the last that begins at or before it, if that reaches
it. -/
def occurrenceAt (a : Analysis) (offset : Nat) : Option Occurrence :=
  let os := a.bound.occurrences
  match bisect (fun i => (os[i]?).any (·.span.start ≤ offset)) os.size with
  | 0 => none
  | after + 1 => (os[after]?).filter (·.span.contains offset)

/-- The binding whose declaration, or else whose occurrence, a cursor touches. -/
def bindingAt (a : Analysis) (offset : Nat) : Option Binding :=
  match a.tree.bindings.find? (·.declarations.any (·.contains offset)) with
  | some b => some b
  | none => (a.occurrenceAt offset).bind a.declarationOf

/-- The occurrences that nothing declares. -/
def unresolved (a : Analysis) : List Occurrence := a.bound.unresolved

/-- Where the name under a cursor stands, in source order: its declarations and occurrences, or, for
a name that nothing declares, every such occurrence of it. -/
def highlight (a : Analysis) (offset : Nat) : List Span :=
  let spans : List Span :=
    match a.bindingAt offset with
    | some b =>
      let uses := (a.bound.usesOf? b.id).getD []
      b.declarations ++ (uses.filterMap a.bound.occurrence?).map Occurrence.span
    | none =>
      match a.occurrenceAt offset with
      | some o => (a.unresolved.filter fun (u : Occurrence) => u.name == o.name).map Occurrence.span
      | none => []
  spans.mergeSort Span.precedes

/-- A scope and those around it, innermost first. -/
def scopeChain (a : Analysis) (id : ScopeId) : Except NotFound (List Scope) := do
  let _ ← a.scope id
  return a.tree.ancestors id

/-- The source under a span. -/
def text (a : Analysis) (s : Span) : String := s.text a.source

/-- A span with the positions of its ends. -/
def range (a : Analysis) (s : Span) : SourceRange := a.lines.range s

end Analysis

end Scoping
