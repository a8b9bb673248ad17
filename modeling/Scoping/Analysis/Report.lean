import Scoping.Analysis.Query

/-!
# Reports

A report is an analysis unrolled: each scope with its variables, the occurrences in it that nothing
declares, and the reports of its children. All places are given as offsets and as lines and columns.
-/

namespace Scoping

/-- A binding with its occurrences. -/
structure VariableReport where
  id : BindingId
  name : String
  kind : BindingKind
  declaredAt : SourceRange
  occurrences : List SourceRange
  deriving DecidableEq, Repr, Inhabited

/-- An occurrence that nothing declares. -/
structure UnresolvedReport where
  name : String
  range : SourceRange
  deriving DecidableEq, Repr, Inhabited

/-- A scope with what it holds. -/
inductive ScopeReport where
  | mk (id : ScopeId) (kind : ScopeKind) (label : String) (range : SourceRange)
    (declared : List VariableReport) (unresolved : List UnresolvedReport)
    (children : List ScopeReport)
  deriving Repr, Inhabited

namespace Analysis

/-- What a report says of a binding. -/
def variableReport (a : Analysis) (b : Binding) : VariableReport :=
  ⟨b.id, b.name, b.kind, a.range b.declaredAt,
    match a.occurrencesOf b.id with
    | .ok os => os.map (a.range ·.span)
    | .error _ => []⟩

/-- What a report says of an occurrence that nothing declares. -/
def unresolvedReport (a : Analysis) (o : Occurrence) : UnresolvedReport := ⟨o.name, a.range o.span⟩

/-- The report of a scope and at most `levels` levels below it. -/
def reportFrom (a : Analysis) : (levels : Nat) → Scope → ScopeReport
  | levels, s =>
    .mk s.id s.kind s.label (a.range s.range)
      ((a.bindingsOf s).map a.variableReport)
      ((a.unresolved.filter (·.scope == s.id)).map a.unresolvedReport)
      (match levels with
        | 0 => []
        | levels + 1 => (s.children.toList.filterMap a.tree.scope?).map (a.reportFrom levels))

/-- The report of the whole source. -/
def report (a : Analysis) : ScopeReport := a.reportFrom a.tree.scopes.size a.root

end Analysis

end Scoping
