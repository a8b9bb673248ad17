import Scoping.Proofs.Analysis.Lexical
import Scoping.Proofs.Build.Moment
import Scoping.Proofs.Tree.Chain

/-!
# Chains of an analysis

Every scope of an analysis has a way up to the global one, however deep nesting may be. A walk
upwards gives up behind `walkLimit` scopes, so what is read of a chain is right up to there, and the
placement of declarations, which follows the open scopes, can lead further (`analyze_chain`).
-/

namespace Scoping

open Builder

/-- A state that the builder comes through when it makes the tree of a source. -/
def Builds (source : String) (options : Options) (u : State) : Prop :=
  ∃ (ts : List Token) (final : Token) (s : State),
    tokenize source options.maxTokens = .ok ts ∧ ts.getLast? = some final ∧
      let c := Context.ofTokens ts final options.maxNestingDepth
      Builder.run c.levels c = .ok s ∧ Moment c u s

/-- Every scope of an analysis has a chain: parents lead from it to the global scope. A reader sees
of it the first scopes, `walkLimit` at the most, and counts their steps. What is declared by `var`
while the scope is the innermost open one ends up in the first scope of the whole chain that bounds
a function, and a reader names that scope exactly when it is global or among the first ones. -/
theorem analyze_chain {source : String} {options : Options} {a : Analysis}
    (h : analyze source options = .ok a) {i : ScopeId} (inside : i < a.tree.scopes.size) :
    ∃ l, WayUp a.tree.scopes (i :: l) ∧ (i :: l).getLast? = some globalScope ∧
      a.tree.ancestors i = ((i :: l).take walkLimit).filterMap a.tree.scope? ∧
      a.tree.depth i = min l.length (walkLimit - 1) ∧
      ∃ j, HoistsTo a.tree.scopes i j ∧
        (∃ s, Builds source options s ∧ s.currentScope = i) ∧
        (∀ s, Builds source options s → s.currentScope = i → s.target .var = j) ∧
        (a.tree.functionScopeOf i = j ↔ j = globalScope ∨ j ∈ (i :: l).take walkLimit) := by
  obtain ⟨ts, lexed, built⟩ := treeOf_ok (analyze_ok h).1
  obtain ⟨final, s, last, atEnd, made, tree⟩ := ofTokens_run built
  have w := run_ends (ofTokens_formed last atEnd options.maxNestingDepth) (Nat.le_refl _)
  rw [made] at w
  have alike : Alike s.scopes a.tree.scopes := tree ▸ alike_tree s _
  have rooted := alike.rooted w.1.shaped.rooted
  obtain ⟨l, way⟩ := rooted.exists_wayUp inside
  obtain ⟨u, moment, top⟩ := w.1.visited.each i (alike.size_eq ▸ inside)
  have reaches : HoistsTo a.tree.scopes i (u.target .var) :=
    top ▸ alike.hoistsTo (moment.hoistsTo rfl)
  refine ⟨l, way, rooted.getLast?_wayUp way, Tree.ancestors_eq way rooted,
    Tree.depth_eq way rooted, u.target .var, reaches, ⟨u, ?moment, top⟩, ?places,
    Tree.functionScopeOf_eq_iff way rooted reaches⟩
  case moment => exact ⟨ts, final, s, lexed, last, made, moment⟩
  case places =>
    rintro v ⟨ts', final', s', lexed', last', made', moment'⟩ top'
    rw [lexed] at lexed'
    cases lexed'
    rw [last] at last'
    cases last'
    rw [made] at made'
    cases made'
    exact HoistsTo.unique (top' ▸ alike.hoistsTo (moment'.hoistsTo rfl)) reaches

/-- Two blocks inside each other in a function: all of the chain is seen. -/
theorem analyze_chain_blocks : ∃ a, analyze "(function f() { { { x } } })" Options.standard = .ok a ∧
    3 < a.tree.scopes.size ∧ (∃ l, WayUp a.tree.scopes (3 :: l) ∧ l.length = 3) ∧
    a.tree.depth 3 = 3 ∧ a.tree.functionScopeOf 3 = 1 ∧
    ∀ s, Builds "(function f() { { { x } } })" Options.standard s → s.currentScope = 3 →
      s.target .var = 1 := by
  have made : (analyze "(function f() { { { x } } })" Options.standard).toOption.map
      (fun a => (a.tree.scopes.size, a.tree.depth 3, a.tree.functionScopeOf 3)) =
        some (4, 3, 1) := by decide +kernel
  obtain ⟨a, ok, known⟩ := Option.map_eq_some_iff.mp made
  obtain ⟨size, depth, home⟩ : a.tree.scopes.size = 4 ∧ a.tree.depth 3 = 3 ∧
    a.tree.functionScopeOf 3 = 1 := by simpa using known
  have h := ok_of_toOption ok
  have inside : 3 < a.tree.scopes.size := by rw [size]; decide
  obtain ⟨l, way, _, _, steps, j, reaches, _, places, right⟩ := analyze_chain h inside
  have short : l.length = 3 := by
    rw [depth, walkLimit] at steps
    omega
  have met : j ∈ (3 :: l).take walkLimit := by
    rw [List.take_of_length_le (by rw [List.length_cons, short]; decide)]
    exact way.mem_iff.mpr reaches.encloses
  have found : j = 1 := (right.mpr (.inr met)).symm.trans home
  exact ⟨a, h, inside, ⟨l, way, short⟩, depth, home,
    fun s builds top => (places s builds top).trans found⟩

end Scoping
