import Std.Data.TreeMap.Basic
import Scoping.Tree.Walk

/-!
# Looking a name up

A name seen from a scope means what the first scope on the way up to the global one binds it to.
`Tree.lookUp` is that walk. A memo remembers the walks that were made, those that found nothing
included, and answers them again from memory.
-/

namespace Scoping

/-- The binding of a name as seen from a scope. -/
def Tree.lookUp (t : Tree) (scope : ScopeId) (name : String) : Option BindingId :=
  (t.ancestors scope).findSome? (·.find? name)

/-- Answers given so far, by scope and name. -/
structure Memo where
  answers : Std.TreeMap ScopeId (Std.TreeMap String (Option BindingId))

namespace Memo

/-- No answer given. -/
def empty : Memo := ⟨∅⟩

/-- The answer given before, if one was. -/
def find? (m : Memo) (scope : ScopeId) (name : String) : Option (Option BindingId) :=
  (m.answers[scope]?).bind (·[name]?)

/-- Remembers an answer. -/
def record (m : Memo) (scope : ScopeId) (name : String) (answer : Option BindingId) : Memo :=
  ⟨m.answers.insert scope ((m.answers.getD scope ∅).insert name answer)⟩

/-- The binding of a name as seen from a scope, out of memory where it is known. -/
def resolve (m : Memo) (t : Tree) (scope : ScopeId) (name : String) : Option BindingId × Memo :=
  match m.find? scope name with
  | some answer => (answer, m)
  | none =>
    let answer := t.lookUp scope name
    (answer, m.record scope name answer)

end Memo

end Scoping
