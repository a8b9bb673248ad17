import Scoping.Build.Statement

/-!
# Building a scope tree

The productions are tied together by levels: at level `n + 1` a statement or expression is read by
its production, and those inside it are read at level `n`; at level zero nothing is read, and the
run is exhausted. A run at some level can so be asked how deep statements and expressions are inside
each other. `Tree.ofTokens` runs at a level that no list of tokens can use up: of two activations
inside each other, at least every second consumes a token before the next.

The tokens have to end with an end of input. Comments are dropped; they mean nothing here.
-/

namespace Scoping

/-- Statements and expressions with at most `level` activations inside each other. -/
def Grammar.level : (level : Nat) → Grammar
  | 0 => ⟨fun _ => Builder.exhausted, fun _ => Builder.exhausted⟩
  | level + 1 =>
    ⟨fun place => Builder.statement (Grammar.level level) place,
      fun mode => Builder.expression (Grammar.level level) mode⟩

namespace Builder

/-- Statements up to the end of input. -/
def programFor (g : Grammar) : (rounds : Nat) → Build Unit
  | 0 => exhausted
  | rounds + 1 => do
    if (← current).isEnd then return
    g.statement .list
    programFor g rounds

/-- A whole program. At its end no scope may be open but the global one. -/
def program (g : Grammar) : Build Unit := do
  let context ← read
  programFor g context.rounds
  match (← get).openFrame? with
  | some f => throw (.inconsistent ⟨context.sourceSize, .unterminatedScope f.start⟩)
  | none => pure ()

/-- The tokens of a list that mean something to the grammar. -/
def significant (ts : List Token) : List Token := ts.filter (!·.isComment)

/-- What a run over `ts` reads, when they end with the given token. -/
def Context.ofTokens (ts : List Token) (final : Token) (limit : Nat) : Context :=
  let kept := significant ts
  ⟨kept.toArray, final, matchBrackets kept, limit⟩

/-- The tree that a run leaves behind: the global scope gets the whole source for its range. -/
def State.tree (s : State) (size : Nat) : Tree :=
  ⟨s.scopes.modify globalScope fun n => { n with range := ⟨0, size⟩ }, s.bindings, s.references,
    size⟩

/-- A run with at most `level` activations inside each other, on a fresh state. -/
def run (level : Nat) (context : Context) : Except Failure State := do
  let ((), s) ← ((program (Grammar.level level)).run context).run State.start
  return s

/-- A level that no run over the context uses up. -/
def Context.levels (c : Context) : Nat := 2 * c.rounds

end Builder

/-- The tree of a list of tokens, or how the run failed, with at most `level` activations of
statements and expressions inside each other. -/
def Tree.build (level : Builder.Context → Nat) (ts : List Token) (limit : Nat) :
    Except Failure Tree :=
  match ts.getLast? with
  | none => .error (.rejected ⟨0, .missingEnd⟩)
  | some final =>
    if final.isEnd then
      let context := Builder.Context.ofTokens ts final limit
      (Builder.run (level context) context).map (·.tree context.sourceSize)
    else .error (.rejected ⟨final.span.stop, .missingEnd⟩)

/-- The error that a failed run is reported as. A run that is exhausted would be one that nests too
deep. -/
def Failure.report (limit : Nat) : Failure → ParseError
  | rejected e => e
  | inconsistent e => e
  | exhausted => ⟨0, .nestingTooDeep limit⟩

/-- The scope tree of a list of tokens, with at most `limit` scopes and groups inside each other. -/
def Tree.ofTokens (ts : List Token) (limit : Nat) : Except ParseError Tree :=
  (Tree.build Builder.Context.levels ts limit).mapError (·.report limit)

end Scoping
