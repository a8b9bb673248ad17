import Scoping.Analysis.Report
import Scoping.Json.Basic

/-!
# Reports and trees as JSON

How reports, trees and errors are written as JSON values: a span by its two offsets, a range by its
offsets and positions, an error by its stage, its position and its cause. A tree's declarations
become an object that maps names to bindings.
-/

namespace Scoping

def Span.toJson (s : Span) : Json :=
  .object [("start", .number s.start), ("end", .number s.stop)]

def Position.toJson (p : Position) : Json :=
  .object [("line", .number p.line), ("character", .number p.character)]

def SourceRange.toJson (r : SourceRange) : Json :=
  .object [("start", .number r.span.start), ("end", .number r.span.stop),
    ("startPosition", r.startPosition.toJson), ("endPosition", r.endPosition.toJson)]

/-- The kind of a binding as data, where a catch parameter has its full name. -/
def BindingKind.toJson : BindingKind → Json
  | .catchParam => .string "catchParam"
  | kind => .string kind.label

def ScopeKind.toJson (kind : ScopeKind) : Json := .string kind.text

def VariableReport.toJson (v : VariableReport) : Json :=
  .object [("id", .number v.id), ("name", .string v.name), ("kind", v.kind.toJson),
    ("declaredAt", v.declaredAt.toJson),
    ("occurrences", .array (v.occurrences.map SourceRange.toJson))]

def UnresolvedReport.toJson (u : UnresolvedReport) : Json :=
  .object [("name", .string u.name), ("range", u.range.toJson)]

mutual
def ScopeReport.toJson : ScopeReport → Json
  | .mk id kind label range declared unresolved children =>
    .object [("id", .number id), ("kind", kind.toJson), ("label", .string label),
      ("range", range.toJson), ("variables", .array (declared.map VariableReport.toJson)),
      ("unresolved", .array (unresolved.map UnresolvedReport.toJson)),
      ("children", .array (ScopeReport.listToJson children))]
/-- The reports of a list of scopes. -/
def ScopeReport.listToJson : List ScopeReport → List Json
  | [] => []
  | r :: rs => r.toJson :: ScopeReport.listToJson rs
end

def Binding.toJson (b : Binding) : Json :=
  .object ([("id", .number b.id), ("name", .string b.name), ("kind", b.kind.toJson),
    ("declaredAt", b.declaredAt.toJson)] ++
    Json.memberOfList "earlierDeclarations" Span.toJson b.earlier.toList ++
    [("scope", .number b.scope)])

def Reference.toJson (r : Reference) : Json :=
  .object [("name", .string r.name), ("span", r.span.toJson), ("scope", .number r.scope)]

def Scope.toJson (s : Scope) : Json :=
  .object [("id", .number s.id), ("kind", s.kind.toJson), ("label", .string s.label),
    ("parent", Json.ofOption .number s.parent),
    ("children", .array (s.children.toList.map .number)),
    ("declarations", .object (s.declarations.toList.map fun d => (d.1, .number d.2))),
    ("range", s.range.toJson)]

def Tree.toJson (t : Tree) : Json :=
  .object [("scopes", .array (t.scopes.toList.map Scope.toJson)),
    ("bindings", .array (t.bindings.toList.map Binding.toJson)),
    ("references", .array (t.references.toList.map Reference.toJson)),
    ("sourceLen", .number t.sourceSize)]

/-- The cause of a lexical error by its name, with what belongs to it. -/
def LexReason.toJson : LexReason → Json
  | unterminatedString => .object [("kind", .string "unterminatedString")]
  | unterminatedTemplate => .object [("kind", .string "unterminatedTemplate")]
  | unterminatedComment => .object [("kind", .string "unterminatedComment")]
  | unterminatedRegex => .object [("kind", .string "unterminatedRegex")]
  | unexpectedCharacter c =>
    .object [("kind", .string "unexpectedCharacter"), ("character", .string (String.singleton c))]
  | tokenLimitExceeded limit =>
    .object [("kind", .string "tokenLimitExceeded"), ("limit", .number limit)]

/-- The cause of a parse error by its name, with what belongs to it. -/
def ParseReason.toJson : ParseReason → Json
  | unbalanced p => .object [("kind", .string "unbalancedBrace"), ("found", .string p.text)]
  | unexpected expected found =>
    .object [("kind", .string "unexpected"), ("expected", .string expected.text),
      ("found", .string found.describe)]
  | unterminatedScope openedAt =>
    .object [("kind", .string "unterminatedScope"), ("opened_at", .number openedAt)]
  | lexicalDeclaration => .object [("kind", .string "lexicalDeclarationInStatementPosition")]
  | unsupported feature =>
    .object [("kind", .string "unsupported"), ("feature", .string feature.text)]
  | nestingTooDeep limit =>
    .object [("kind", .string "nestingTooDeep"), ("limit", .number limit)]
  | missingEnd => .object [("kind", .string "missingEndOfInput")]

def AnalysisError.toJson : AnalysisError → Json
  | lex e => .object [("stage", .string "lex"), ("position", .number e.position),
      ("reason", e.reason.toJson)]
  | parse e => .object [("stage", .string "parse"), ("position", .number e.position),
      ("reason", e.reason.toJson)]

end Scoping
