import Scoping.Analysis.Basic
import Scoping.Proofs.Build.Finish
import Scoping.Proofs.Resolve.Bind

/-!
# Lexical scoping

What an analysis says of the uses of names, put in terms of the ranges of its scopes alone. A use is
recorded in the innermost scope around it, and means what the innermost scope around it that declares
its name declares (`Tree.Means`).

Meaning is bounded: a walk upwards gives up behind `walkLimit` scopes, so nesting has to stay below.
-/

namespace Scoping

namespace Tree

/-- A scope declares a name, as a binding that it owns. -/
structure Declares (t : Tree) (i : ScopeId) (name : String) (b : BindingId) : Prop where
  bound : boundIn t.scopes i name = some b
  owned : ∃ x, t.bindings[b]? = some x ∧ x.name = name ∧ x.scope = i

/-- At a span a name means a binding: of the scopes around the span that declare the name, the
innermost declares it as this one. -/
def Means (t : Tree) (span : Span) (name : String) (b : BindingId) : Prop :=
  ∃ i, t.Covers i span ∧ t.Declares i name b ∧
    ∀ j b', t.Covers j span → t.Declares j name b' → Encloses t.scopes j i

end Tree

open Builder

/-! ## From a source to a run -/

theorem analyze_ok {source : String} {options : Options} {a : Analysis}
    (h : analyze source options = .ok a) :
    treeOf source options = .ok a.tree ∧ a.bound = a.tree.bind := by
  unfold analyze at h
  revert h
  cases treeOf source options with
  | error e => exact fun h => nomatch h
  | ok t =>
    intro h
    cases h
    exact ⟨rfl, rfl⟩

theorem treeOf_ok {source : String} {options : Options} {t : Tree}
    (h : treeOf source options = .ok t) : ∃ ts, tokenize source options.maxTokens = .ok ts ∧
      Tree.ofTokens ts options.maxNestingDepth = .ok t := by
  unfold treeOf at h
  revert h
  cases tokenize source options.maxTokens with
  | error e => exact fun h => nomatch h
  | ok ts =>
    dsimp only
    cases built : Tree.ofTokens ts options.maxNestingDepth with
    | error e => exact fun h => nomatch h
    | ok t =>
      intro h
      cases h
      exact ⟨ts, rfl, built⟩

/-- A tree of a source is what a run over its significant tokens leaves behind. -/
theorem treeOf_run {source : String} {options : Options} {t : Tree}
    (h : treeOf source options = .ok t) : ∃ (ts : List Token) (final : Token) (s : State),
      tokenize source options.maxTokens = .ok ts ∧ ts.getLast? = some final ∧
      (Context.ofTokens ts final options.maxNestingDepth).Formed ∧
      (Context.ofTokens ts final options.maxNestingDepth).Spaced ∧
      Builder.run (Context.ofTokens ts final options.maxNestingDepth).levels
        (Context.ofTokens ts final options.maxNestingDepth) = .ok s ∧
      t = s.tree (Context.ofTokens ts final options.maxNestingDepth).sourceSize := by
  obtain ⟨ts, lexed, built⟩ := treeOf_ok h
  obtain ⟨final, s, last, atEnd, ran, tree⟩ := ofTokens_run built
  obtain ⟨spaced, _⟩ := ofTokens_spaced (tokenize_tiling lexed) last options.maxNestingDepth
  exact ⟨ts, final, s, lexed, last, ofTokens_formed last atEnd _, spaced, ran, tree⟩

/-- It is what a walk over them leaves behind. -/
theorem treeOf_walk {source : String} {options : Options} {t : Tree}
    (h : treeOf source options = .ok t) : ∃ (ts : List Token) (c : Context) (s : State),
      tokenize source options.maxTokens = .ok ts ∧ c.tokens = (significant ts).toArray ∧
      c.limit = options.maxNestingDepth ∧ c.Formed ∧ c.Spaced ∧ Walk c .start s ∧
      t = s.tree c.sourceSize := by
  obtain ⟨ts, final, s, lexed, _, formed, spaced, ran, tree⟩ := treeOf_run h
  exact ⟨ts, _, s, lexed, rfl, rfl, formed, spaced, (run_walk formed ran).1, tree⟩

/-! ## What the end of a run leaves alone -/

section
variable {c : Context} {s : State} {size : Nat}

/-- A name that a scope binds is declared there, as the binding says. -/
theorem declares_tree_iff (listed : Listed s) {i : Nat} {name : String} {b : BindingId} :
    (s.tree size).Declares i name b ↔ boundIn (s.tree size).scopes i name = some b := by
  refine ⟨fun h => h.bound, fun bound => ⟨bound, ?_⟩⟩
  rw [boundIn_tree] at bound
  exact listed.boundIn bound

theorem token_getElem? {ts : List Token} (tokens : c.tokens = (significant ts).toArray) {n : Nat}
    (h : n < c.tokens.size) : (significant ts)[n]? = some (c.token n) := by
  rw [Context.token, Array.getD_eq_getD_getElem?, Array.getElem?_eq_getElem h, Option.getD_some]
  simp only [tokens, List.size_toArray] at h ⊢
  rw [List.getElem_toArray, List.getElem?_eq_getElem h]

end

/-! ## Meaning -/

section
variable {t : Tree} {i : Nat} {l : List ScopeId} {span : Span} {name : String}
  (way : WayUp t.scopes (i :: l)) (enough : l.length < walkLimit) (rooted : Rooted t.scopes)
  (covers : ∀ j, t.Covers j span ↔ Encloses t.scopes j i)
  (declares : ∀ j b, t.Declares j name b ↔ boundIn t.scopes j name = some b)
include way enough rooted covers declares

/-- A look-up from the scope where a span sits finds what the name means there. -/
theorem Tree.lookUp_eq_some_iff_means {b : BindingId} :
    t.lookUp i name = some b ↔ t.Means span name b := by
  simp only [lookUp_eq_some_iff way enough rooted, Means, covers, declares,
    Option.isSome_iff_exists]
  constructor
  · rintro ⟨j, around, binds, innermost⟩
    exact ⟨j, around, binds, fun k b' outside binds => innermost k outside ⟨b', binds⟩⟩
  · rintro ⟨j, around, binds, innermost⟩
    exact ⟨j, around, binds, fun k outside ⟨b', binds⟩ => innermost k b' outside binds⟩

theorem Tree.lookUp_eq_none_iff_undeclared :
    t.lookUp i name = none ↔ ∀ j b, t.Covers j span → ¬ t.Declares j name b := by
  simp only [lookUp_eq_none_iff way enough rooted, covers, declares,
    Option.eq_none_iff_forall_ne_some]
  exact forall_congr' fun j => forall_comm

end

/-- Every use of a name stands in the innermost scope around it, and its answer is what the name
means there; there is none when no scope around it declares the name. -/
theorem analyze_means {source : String} {options : Options} {a : Analysis}
    (h : analyze source options = .ok a) (shallow : options.maxNestingDepth < walkLimit) :
    ∀ o ∈ a.bound.occurrences, a.tree.Innermost o.span o.scope ∧
      (∀ b, o.resolved = some b ↔ a.tree.Means o.span o.name b) ∧
      (o.resolved = none ↔ ∀ i b, a.tree.Covers i o.span → ¬ a.tree.Declares i o.name b) := by
  obtain ⟨built, bound⟩ := analyze_ok h
  obtain ⟨ts, c, s, _, _, limit, formed, spaced, w, tree⟩ := treeOf_walk built
  have named := w.named formed spaced
  intro o mem
  rw [bound] at mem
  obtain ⟨r, isUse, id, rfl⟩ := Tree.exists_of_mem_occurrences mem
  rw [tree] at isUse
  obtain ⟨n, _, stands, sits⟩ := named.uses r isUse
  obtain ⟨l, way, short⟩ := w.shaped.shallow r.scope sits.inside
  have alike := alike_tree s c.sourceSize
  have enough : l.length < walkLimit := Nat.lt_of_le_of_lt (limit ▸ short) shallow
  have covers (j : Nat) := sits.covers_tree w formed spaced (j := j)
  have innermost := sits.innermost w formed spaced
  rw [← tree] at alike innermost
  simp only [stands, ← tree] at covers innermost
  have declares (j : Nat) (b : BindingId) :
      a.tree.Declares j r.name b ↔ boundIn a.tree.scopes j r.name = some b := by
    rw [tree]
    exact declares_tree_iff named.listed
  have way := alike.wayUp way
  have rooted := alike.rooted w.shaped.rooted
  exact ⟨innermost, fun b => Tree.lookUp_eq_some_iff_means way enough rooted covers declares,
    Tree.lookUp_eq_none_iff_undeclared way enough rooted covers declares⟩

/-- A use before the declaration that it means, and a use that means nothing. -/
theorem analyze_means_shadowed : ∃ a,
    analyze "let a; { a; let a; b }" Options.standard = .ok a ∧
      Options.standard.maxNestingDepth < walkLimit ∧ a.tree.Means ⟨9, 10⟩ "a" 1 ∧
      ∀ i b, a.tree.Covers i ⟨19, 20⟩ → ¬ a.tree.Declares i "b" b := by
  have made : (analyze "let a; { a; let a; b }" Options.standard).toOption.map
      (·.bound.occurrences) =
        some #[⟨0, "a", ⟨9, 10⟩, 1, some 1⟩, ⟨1, "b", ⟨19, 20⟩, 1, none⟩] := by decide +kernel
  obtain ⟨a, ok, uses⟩ := Option.map_eq_some_iff.mp made
  have h := ok_of_toOption ok
  have shallow : Options.standard.maxNestingDepth < walkLimit := by decide
  have means := analyze_means h shallow
  simp only [uses] at means
  have first := means ⟨0, "a", ⟨9, 10⟩, 1, some 1⟩ (by simp)
  have second := means ⟨1, "b", ⟨19, 20⟩, 1, none⟩ (by simp)
  exact ⟨a, h, shallow, (first.2.1 1).mp rfl, second.2.2.mp rfl⟩

end Scoping
