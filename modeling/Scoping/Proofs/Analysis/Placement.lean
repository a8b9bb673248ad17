import Scoping.Proofs.Analysis.Lexical
import Scoping.Proofs.Build.Account
import Scoping.Proofs.Build.Declaration

/-!
# Where declarations end up

Where a declaration of an analysis belongs, in terms of the ranges of its scopes (`Tree.Places`): in the
innermost scope around it, or, where its kind leaves blocks, in the next scope upwards that bounds a
function. The name of a function does the latter where the function is declared by a statement. Any
other function is an expression, whose name is bound inside alone; the two are told apart by what the
run reads (`Context.DeclaresFunction`), and never both apply.

Unlike the meaning of a use, placement has no bound on the nesting. It is decided while the scopes are
open.
-/

namespace Scoping

open Builder

namespace Tree

/-- A declaration at a span leaves the blocks around it for a scope that bounds a function. -/
def Hoists (t : Tree) (span : Span) (i : ScopeId) : Prop :=
  ∃ j, t.Innermost span j ∧ HoistsTo t.scopes j i

/-- The scope is that of a function which begins with the token behind the one at `n`. -/
def OpensBehind (t : Tree) (c : Context) (n : Nat) (i : ScopeId) : Prop :=
  ∃ (x : Scope) (next : Token), t.scopes[i]? = some x ∧ x.kind = .function ∧
    c.tokens[n + 1]? = some next ∧ x.range.start = next.span.start

/-- The name of a function at a span belongs outside where the function is declared, and inside where
it is an expression. -/
def PlacesFunction (t : Tree) (c : Context) (span : Span) (i : ScopeId) : Prop :=
  ∃ (n : Nat) (name : Token), c.tokens[n]? = some name ∧ name.span = span ∧
    (c.DeclaresFunction n → t.Hoists span i) ∧ (¬ c.DeclaresFunction n → t.OpensBehind c n i)

/-- Where a declaration at a span belongs, by its kind. -/
def Places (t : Tree) (c : Context) (span : Span) : BindingKind → ScopeId → Prop
  | .let_, i | .const, i | .param, i | .catchParam, i => t.Innermost span i
  | .var, i => t.Hoists span i
  | .function, i => t.PlacesFunction c span i

end Tree

variable {c : Context} {s : State}

theorem Builder.Context.getElem?_token {n : Nat} (h : n < c.tokens.size) :
    c.tokens[n]? = some (c.token n) := by
  rw [Context.token, Array.getD_eq_getD_getElem?, Array.getElem?_eq_getElem h, Option.getD_some]

/-- The scope behind a name is the one that a function opens there. -/
theorem Builder.OwnScope.opensBehind {n : Nat} {i : ScopeId} (own : OwnScope c s n i)
    (shaped : Shaped c s) : (s.tree c.sourceSize).OpensBehind c n i := by
  obtain ⟨inside, x, at_i, function, begins⟩ := own
  obtain ⟨y, at_i', same⟩ := Alike.getElem? (Eq.symm (alike_tree s c.sourceSize)) at_i
  have inner : i ≠ globalScope := fun root => by
    obtain ⟨z, at_root, isGlobal, _⟩ := shaped.rooted.root
    rw [root, at_root] at at_i
    cases at_i
    rw [isGlobal] at function
    cases function
  refine ⟨y, c.token (n + 1), at_i', (Scope.shape_eq_iff.mp same).2.1.trans function,
    Context.getElem?_token inside, ?_⟩
  rw [← begins, ← rangeIn_of_getElem? at_i, ← rangeIn_of_getElem? at_i', rangeIn_tree_inner _ inner]

/-- A place where a name is declared holds a token, and is not the last one. -/
theorem Builder.Lands.inside {n : Nat} {kind : BindingKind} {i : ScopeId} (lands : Lands c s n kind i)
    (inside : s.pos < c.tokens.size) : n + 1 < c.tokens.size := by
  cases lands with
  | here _ sits => exact Nat.lt_of_le_of_lt sits.before inside
  | hoisted _ sits _ => exact Nat.lt_of_le_of_lt sits.before inside
  | inner before _ _ _ => exact before

section
variable (formed : c.Formed) (spaced : c.Spaced) (ran : Builder.run c.levels c = .ok s)
include formed spaced ran

/-- A scope that a declared function is bound in does not begin behind its name. -/
theorem Builder.Context.DeclaresFunction.not_ownScope {n b : Nat} {x : Binding}
    (declares : c.DeclaresFunction n) (at_b : s.bindings[b]? = some x)
    (mem : (c.token n).span ∈ x.declarations) : ¬ OwnScope c s n x.scope := by
  have w := (run_walk formed ran).1
  obtain ⟨b', y, at_b', mem', outside⟩ := declares.recorded formed spaced ran w.shaped
  obtain ⟨⟨_, _, accounts⟩, _⟩ := w.accounted accounted_start clear_start
  obtain rfl := accounts.binding_eq formed spaced at_b at_b' mem mem'
  obtain rfl := Option.some.inj (at_b.symm.trans at_b')
  exact outside

/-- Where a declaration lands in a run, it belongs in the finished tree. -/
theorem Builder.Lands.places {n : Nat} {kind : BindingKind} {i : ScopeId}
    (lands : Lands c s n kind i) :
    (kind ≠ .function ∧ (s.tree c.sourceSize).Places c (c.token n).span kind i) ∨
      kind = .function ∧ ((s.tree c.sourceSize).Hoists (c.token n).span i ∨ OwnScope c s n i) := by
  have w := (run_walk formed ran).1
  cases lands with
  | here stays sits =>
    have innermost := sits.innermost w formed spaced
    cases kind with
    | let_ | const | param | catchParam => exact .inl ⟨nofun, innermost⟩
    | var | function => cases stays
  | hoisted hoists sits reaches =>
    have leaves : (s.tree c.sourceSize).Hoists (c.token n).span i :=
      ⟨_, sits.innermost w formed spaced, (alike_tree s c.sourceSize).hoistsTo reaches⟩
    cases kind with
    | var => exact .inl ⟨nofun, leaves⟩
    | function => exact .inr ⟨rfl, .inl leaves⟩
    | let_ | const | param | catchParam => cases hoists
  | inner before at_i function begins =>
    exact .inr ⟨rfl, .inr ⟨before, _, at_i, function, begins⟩⟩

/-- A function is bound outside where it is declared, and inside where it is not. -/
theorem Builder.Lands.placesFunction {n b : Nat} {x : Binding} (lands : Lands c s n .function x.scope)
    (at_b : s.bindings[b]? = some x) (latest : (c.token n).span = x.declaredAt)
    (function : x.kind = .function) :
    (s.tree c.sourceSize).PlacesFunction c x.declaredAt x.scope := by
  have w := (run_walk formed ran).1
  have inside := lands.inside (w.inside formed formed.nonempty)
  obtain ⟨m, place, attests⟩ := (run_attested formed ran).functions b x at_b function
  have inside' : m + 1 < c.tokens.size := by
    rcases attests with ⟨_, _, _, _, heads⟩ | own
    · exact (formed.token_at (Token.isEnd_of_isIdentifier heads.isIdentifier)).2
    · exact own.before
  obtain rfl := spaced.place_eq inside inside' (latest.trans place.symm)
  refine ⟨n, c.token n, Context.getElem?_token (Nat.lt_of_succ_lt inside), latest, fun declares => ?_,
    fun not => ?_⟩
  · rcases lands.places formed spaced ran with ⟨other, _⟩ | ⟨_, leaves | own⟩
    · exact absurd rfl other
    · exact latest ▸ leaves
    · refine absurd own (declares.not_ownScope formed spaced ran at_b ?_)
      rw [latest]
      simp [Binding.declarations]
  · rcases attests with declares | own
    · exact absurd declares not
    · exact own.opensBehind w.shaped

end

/-- Every declaration of an analysis belongs where it is: at its latest place by the kind that the
binding has, at an earlier one by some kind. -/
theorem analyze_places {source : String} {options : Options} {a : Analysis}
    (h : analyze source options = .ok a) :
    ∃ ts final, tokenize source options.maxTokens = .ok ts ∧ ts.getLast? = some final ∧
      ∀ b ∈ a.tree.bindings,
        a.tree.Places (Context.ofTokens ts final options.maxNestingDepth) b.declaredAt b.kind b.scope ∧
        ∀ e ∈ b.earlier, ∃ kind,
          a.tree.Places (Context.ofTokens ts final options.maxNestingDepth) e kind b.scope := by
  obtain ⟨ts, final, s, lexed, last, formed, spaced, ran, tree⟩ := treeOf_run (analyze_ok h).1
  have w := (run_walk formed ran).1
  have named := w.named formed spaced
  refine ⟨ts, final, lexed, last, fun b mem => ?_⟩
  rw [tree] at mem ⊢
  obtain ⟨i, at_i⟩ := Array.mem_iff_getElem?.mp mem
  constructor
  · obtain ⟨n, _, place, lands⟩ := named.latest i b at_i
    rcases lands.places formed spaced ran with ⟨_, places⟩ | ⟨function, _⟩
    · exact place ▸ places
    · rw [function] at lands ⊢
      exact lands.placesFunction formed spaced ran at_i place function
  · intro e mem
    obtain ⟨kind, n, _, rfl, lands⟩ := named.earlier i b at_i e mem
    rcases lands.places formed spaced ran with ⟨_, places⟩ | ⟨_, leaves | own⟩
    · exact ⟨kind, places⟩
    · exact ⟨.var, leaves⟩
    · have inside := lands.inside (w.inside formed formed.nonempty)
      refine ⟨.function, n, _, Context.getElem?_token (Nat.lt_of_succ_lt inside), rfl,
        fun declares => absurd own (declares.not_ownScope formed spaced ran at_i ?_),
        fun _ => own.opensBehind w.shaped⟩
      simp [Binding.declarations, mem]

/-- A function that is declared, with a variable that leaves the block of a `catch` for it, and one in
parentheses, whose name is bound inside. -/
theorem analyze_places_functions : ∃ a ts final,
    analyze "function f() { try { } catch (e) { var v } } (function g() { })" Options.standard = .ok a ∧
      tokenize "function f() { try { } catch (e) { var v } } (function g() { })" none = .ok ts ∧
      ts.getLast? = some final ∧
      a.tree.Places (Context.ofTokens ts final Options.standard.maxNestingDepth) ⟨9, 10⟩ .function 0 ∧
      a.tree.Places (Context.ofTokens ts final Options.standard.maxNestingDepth) ⟨30, 31⟩ .catchParam 3 ∧
      a.tree.Places (Context.ofTokens ts final Options.standard.maxNestingDepth) ⟨39, 40⟩ .var 1 ∧
      a.tree.Places (Context.ofTokens ts final Options.standard.maxNestingDepth) ⟨55, 56⟩ .function 4 := by
  have made : (analyze "function f() { try { } catch (e) { var v } } (function g() { })"
      Options.standard).toOption.map (·.tree.bindings) =
        some #[⟨0, "f", .function, ⟨9, 10⟩, #[], 0⟩, ⟨1, "e", .catchParam, ⟨30, 31⟩, #[], 3⟩,
          ⟨2, "v", .var, ⟨39, 40⟩, #[], 1⟩, ⟨3, "g", .function, ⟨55, 56⟩, #[], 4⟩] := by decide +kernel
  obtain ⟨a, ok, bindings⟩ := Option.map_eq_some_iff.mp made
  have h := ok_of_toOption ok
  obtain ⟨ts, final, lexed, last, places⟩ := analyze_places h
  simp only [bindings] at places
  have declared := places ⟨0, "f", .function, ⟨9, 10⟩, #[], 0⟩ (by simp)
  have caught := places ⟨1, "e", .catchParam, ⟨30, 31⟩, #[], 3⟩ (by simp)
  have leaving := places ⟨2, "v", .var, ⟨39, 40⟩, #[], 1⟩ (by simp)
  have own := places ⟨3, "g", .function, ⟨55, 56⟩, #[], 4⟩ (by simp)
  exact ⟨a, ts, final, h, lexed, last, declared.1, caught.1, leaving.1, own.1⟩

end Scoping
