import Scoping.Resolve.Memo

/-!
# Bound references

Binding turns every reference of a tree into an occurrence, which knows the binding it resolves to,
and lists the occurrences of each binding. An occurrence that no scope around it declares stays
unresolved. In a tree put together by hand a name can lead to a binding that does not exist; the
occurrence then keeps that number, and is listed nowhere.
-/

namespace Scoping

/-- The place of an occurrence among all of a tree. -/
abbrev OccurrenceId := Nat

/-- A use of a name. -/
structure Occurrence where
  id : OccurrenceId
  name : String
  span : Span
  /-- The innermost scope around the use. -/
  scope : ScopeId
  /-- The binding that the name means; none for a name that nothing declares. -/
  resolved : Option BindingId
  deriving DecidableEq, Repr, Inhabited

def Occurrence.isResolved (o : Occurrence) : Bool := o.resolved.isSome

/-- The occurrences of a tree, and for each binding those that mean it. -/
structure Bound where
  /-- In the order of the references. -/
  occurrences : Array Occurrence
  uses : Array (Array OccurrenceId)
  deriving DecidableEq, Repr, Inhabited

namespace Bound

def occurrence? (b : Bound) (id : OccurrenceId) : Option Occurrence := b.occurrences[id]?

/-- The occurrences of a binding of the tree. -/
def usesOf? (b : Bound) (id : BindingId) : Option (List OccurrenceId) :=
  (b.uses[id]?).map Array.toList

/-- The occurrences that nothing declares. -/
def unresolved (b : Bound) : List Occurrence := b.occurrences.toList.filter (!·.isResolved)

/-- One more occurrence. -/
def push (b : Bound) (r : Reference) (resolved : Option BindingId) : Bound :=
  let id := b.occurrences.size
  { occurrences := b.occurrences.push ⟨id, r.name, r.span, r.scope, resolved⟩
    uses := match resolved with
      | some binding => b.uses.modify binding (·.push id)
      | none => b.uses }

/-- Binds one reference, out of memory where its name was met before. -/
def step (t : Tree) (state : Memo × Bound) (r : Reference) : Memo × Bound :=
  let (answer, memo) := state.1.resolve t r.scope r.name
  (memo, state.2.push r answer)

end Bound

/-- Binds all references of a tree, starting from the given memory. -/
def Tree.bindFrom (t : Tree) (memo : Memo) : Bound :=
  (t.references.foldl (Bound.step t) (memo, ⟨#[], t.bindings.map fun _ => #[]⟩)).2

/-- Binds all references of a tree. -/
def Tree.bind (t : Tree) : Bound := t.bindFrom .empty

end Scoping
