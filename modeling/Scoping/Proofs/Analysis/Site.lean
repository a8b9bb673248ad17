import Mathlib.Data.List.Pairwise
import Scoping.Analysis.Query
import Scoping.Proofs.Analysis.Lexical
import Scoping.Proofs.Build.Account
import Scoping.Proofs.Build.Edge
import Scoping.Proofs.Build.Table
import Scoping.Proofs.Resolve.Uses
import Scoping.Proofs.Token.Word

/-!
# Where names stand

An analysis knows a place for each name that is declared or used, and what the name means there: a
binding, or only itself where nothing declares it. The places stand clear of each other (`Span.Apart`):
between two of them is something that belongs to neither, so a cursor touches one of them at most, and
with it one meaning (`Analysis.Regular.touched_once`).
-/

namespace Scoping

/-! ## Spans with something between them -/

namespace Span

/-- Something stands between the spans. -/
def Apart (s t : Span) : Prop := s.stop < t.start ∨ t.stop < s.start

variable {s t : Span} {offset : Nat}

theorem Apart.symm (h : s.Apart t) : t.Apart s := Or.symm h

/-- No cursor touches both. -/
theorem Apart.not_contains (h : s.Apart t) (here : s.contains offset = true) :
    ¬ t.contains offset = true := by
  rw [contains_iff] at here ⊢
  unfold Apart at h
  omega

end Span

namespace Builder

variable {c : Context} {s : State} {uses names : List Nat}

/-- Where no two words touch, no two names that are recorded do. -/
theorem Accounts.scattered (accounts : Accounts c s uses names) (formed : c.Formed)
    (words : c.tokens.toList.Pairwise fun t u =>
      t.isWord = true → u.isWord = true → t.span.stop < u.span.start) (size : Nat) :
    ((s.tree size).recorded.map (·.2)).Pairwise Span.Apart := by
  apply (((accounts.recorded_perm size).map _).pairwise_iff Span.Apart.symm).mpr
  rw [List.map_map]
  apply List.pairwise_map.mpr
  apply accounts.collected.once.imp_of_mem
  intro m n left right different
  have word {n : Nat} (mem : n ∈ uses ++ names) : ∃ inside : n < c.tokens.toList.length,
      c.tokens.toList[n] = c.token n ∧ (c.token n).isWord = true := by
    have at_n := (accounts.inside formed mem).1
    rw [← Array.getElem?_toList] at at_n
    obtain ⟨inside, same⟩ := List.getElem?_eq_some_iff.mp at_n
    exact ⟨inside, same, Token.isWord_of_isIdentifier (accounts.collected.name n mem).2.1⟩
  obtain ⟨inside, at_m, first⟩ := word left
  obtain ⟨inside', at_n, second⟩ := word right
  have words := List.pairwise_iff_getElem.mp words
  rcases Nat.lt_or_gt_of_ne different with less | more
  · have before := words m n inside inside' less
    rw [at_m, at_n] at before
    exact .inl (before first second)
  · have before := words n m inside' inside more
    rw [at_m, at_n] at before
    exact .inr (before second first)

/-- Every name that is recorded takes some room. -/
theorem Accounts.wide (accounts : Accounts c s uses names) (formed : c.Formed) (spaced : c.Spaced)
    (size : Nat) : ∀ r ∈ (s.tree size).recorded, r.2.start < r.2.stop := by
  intro r mem
  obtain ⟨n, place, rfl⟩ := List.mem_map.mp ((accounts.recorded_perm size).mem_iff.mp mem)
  exact spaced.wide n (accounts.inside formed place).2

end Builder

/-! ## Analyses of sources -/

open Builder

/-- What a source guarantees of its analysis. -/
structure Analysis.Regular (a : Analysis) : Prop where
  lines : a.lines = LineMap.ofSource a.source
  bound : a.bound = a.tree.bind
  scopes : a.tree.Ordered
  nested : a.tree.Nested a.tree.sourceSize
  tabled : a.tree.Tabled
  /-- Every use is in a scope of the tree. -/
  inside : ∀ r ∈ a.tree.references, r.scope < a.tree.scopes.size
  ordered : a.tree.references.toList.Pairwise fun r q => r.span.start < q.span.start
  apart : (a.tree.recorded.map (·.2)).Pairwise Span.Apart
  wide : ∀ r ∈ a.tree.recorded, r.2.start < r.2.stop
  /-- No name and no range cuts a character in two. -/
  namesCut : ∀ r ∈ a.tree.recorded,
    Boundary a.source.toList r.2.start ∧ Boundary a.source.toList r.2.stop
  rangesCut : ∀ s ∈ a.tree.scopes,
    Boundary a.source.toList s.range.start ∧ Boundary a.source.toList s.range.stop

theorem analyze_source {source : String} {options : Options} {a : Analysis}
    (h : analyze source options = .ok a) : a.source = source ∧ a.lines = LineMap.ofSource source := by
  unfold analyze at h
  revert h
  cases treeOf source options with
  | error e => exact fun h => nomatch h
  | ok t =>
    intro h
    cases h
    exact ⟨rfl, rfl⟩

theorem analyze_regular {source : String} {options : Options} {a : Analysis}
    (h : analyze source options = .ok a) : a.Regular := by
  obtain ⟨built, bound⟩ := analyze_ok h
  obtain ⟨ts, c, s, lexed, tokens, _, formed, spaced, w, tree⟩ := treeOf_walk built
  obtain ⟨rfl, lines⟩ := analyze_source h
  obtain ⟨⟨uses, names, accounts⟩, _⟩ := w.accounted accounted_start clear_start
  have shaped := w.shaped
  have marked := Context.marked_boundary (tokenize_tiling lexed) tokens formed
  have words : c.tokens.toList.Pairwise fun t u =>
      t.isWord = true → u.isWord = true → t.span.stop < u.span.start := by
    rw [tokens]
    exact (tokenize_words_apart lexed).filter _
  have ordered := accounts.ordered formed spaced
  have inside : ∀ r ∈ s.references, r.scope < s.scopes.size := by
    intro r mem
    obtain ⟨n, _, _, sits⟩ := (w.named formed spaced).uses r mem
    exact sits.inside
  rw [(alike_tree s c.sourceSize).size_eq] at inside
  constructor
  case lines => exact lines
  case bound => exact bound
  case scopes => rw [tree]; exact shaped.ordered _
  case nested => rw [tree]; exact tree_nested w formed spaced
  case tabled => rw [tree]; exact w.table.1.tabled shaped _
  case inside => rw [tree]; exact inside
  case ordered => rw [tree]; exact ordered
  case apart => rw [tree]; exact accounts.scattered formed words _
  case wide => rw [tree]; exact accounts.wide formed spaced _
  case namesCut =>
    intro r mem
    rw [tree] at mem
    obtain ⟨n, _, rfl⟩ := List.mem_map.mp ((accounts.recorded_perm _).mem_iff.mp mem)
    exact ⟨marked.start n, marked.stop n⟩
  case rangesCut => rw [tree]; exact (w.edged marked).tree marked shaped

/-! ## Meanings -/

/-- What a name means where it stands: a binding, or, where nothing declares it, only itself. -/
inductive Meaning where
  | bound (id : BindingId)
  | free (name : String)
  deriving DecidableEq, Repr

/-- What the name of an occurrence means. -/
def Occurrence.meaning (o : Occurrence) : Meaning :=
  match o.resolved with
  | some id => .bound id
  | none => .free o.name

theorem Occurrence.meaning_eq_bound_iff {o : Occurrence} {id : BindingId} :
    o.meaning = .bound id ↔ o.resolved = some id := by
  unfold meaning
  cases o.resolved <;> simp

theorem Occurrence.meaning_eq_free_iff {o : Occurrence} {name : String} :
    o.meaning = .free name ↔ o.isResolved = false ∧ o.name = name := by
  unfold meaning isResolved
  cases o.resolved <;> simp

namespace Analysis

variable {a : Analysis} {m m' : Meaning} {p q : Span} {offset : Nat}

/-- Where names stand that mean this, declarations before uses. -/
def places (a : Analysis) : Meaning → List Span
  | .bound id => ((a.tree.binding? id).map Binding.declarations).getD [] ++
      (a.bound.resolvedTo id).map Occurrence.span
  | .free name => (a.unresolved.filter fun (u : Occurrence) => u.name == name).map Occurrence.span

/-- Where names are used, with what they mean there. -/
def usedSites (a : Analysis) : List (Meaning × Span) :=
  a.bound.occurrences.toList.map fun o => (o.meaning, o.span)

/-- Where names are declared, with what they mean there. -/
def declaredSites (a : Analysis) : List (Meaning × Span) :=
  a.tree.bindings.toList.flatMap fun b => b.declarations.map fun d => (.bound b.id, d)

/-- Every place where a name stands. -/
def sites (a : Analysis) : List (Meaning × Span) := a.usedSites ++ a.declaredSites

theorem mem_usedSites {o : Occurrence} (mem : o ∈ a.bound.occurrences) :
    (o.meaning, o.span) ∈ a.usedSites :=
  List.mem_map_of_mem (Array.mem_toList_iff.mpr mem)

theorem mem_declaredSites {b : Binding} (mem : b ∈ a.tree.bindings) (declared : p ∈ b.declarations) :
    (.bound b.id, p) ∈ a.declaredSites :=
  List.mem_flatMap.mpr ⟨b, Array.mem_toList_iff.mpr mem, List.mem_map_of_mem declared⟩

theorem mem_sites_iff : (m, p) ∈ a.sites ↔
    (∃ o ∈ a.bound.occurrences, o.meaning = m ∧ o.span = p) ∨
      ∃ b ∈ a.tree.bindings, p ∈ b.declarations ∧ .bound b.id = m := by
  simp [sites, usedSites, declaredSites]

namespace Regular

variable (regular : a.Regular)
include regular

theorem binding?_id {b : Binding} (mem : b ∈ a.tree.bindings) : a.tree.binding? b.id = some b := by
  obtain ⟨i, at_i⟩ := Array.mem_iff_getElem?.mp mem
  rw [regular.tabled.id i b at_i]
  exact at_i

/-- The uses of each binding are listed. -/
theorem indexed {b : Binding} (mem : b ∈ a.tree.bindings) :
    a.bound.Indexed ∧ b.id < a.bound.uses.size := by
  obtain ⟨indexed, size⟩ := a.tree.bind_indexed
  rw [← regular.bound] at indexed size
  refine ⟨indexed, ?_⟩
  rw [size]
  exact (Array.getElem?_eq_some_iff.mp (regular.binding?_id mem)).1

/-- The places of a meaning are those where a name has it. -/
theorem mem_places_iff : p ∈ a.places m ↔ (m, p) ∈ a.sites := by
  rw [mem_sites_iff]
  cases m with
  | bound id =>
    simp only [places, Bound.resolvedTo, List.mem_append, List.mem_map, List.mem_filter,
      Array.mem_toList_iff, beq_iff_eq, Occurrence.meaning_eq_bound_iff, Meaning.bound.injEq, and_assoc]
    rw [Or.comm]
    apply or_congr_right
    constructor
    · intro mem
      cases found : a.tree.binding? id with
      | none => simp [found] at mem
      | some b =>
        rw [found] at mem
        exact ⟨b, Array.mem_of_getElem? found, mem, regular.tabled.id id b found⟩
    · rintro ⟨b, mem, declared, rfl⟩
      rw [regular.binding?_id mem]
      exact declared
  | free name =>
    simp only [places, unresolved, Bound.unresolved, List.mem_map, List.mem_filter,
      Array.mem_toList_iff, beq_iff_eq, Bool.not_eq_true', Occurrence.meaning_eq_free_iff, reduceCtorEq,
      and_false, exists_false, or_false, and_assoc]

/-- The spans of the occurrences are those of the references. -/
theorem map_span_occurrences :
    a.bound.occurrences.toList.map (·.span) = a.tree.references.toList.map (·.span) := by
  rw [regular.bound, Tree.bind_occurrences]
  apply List.ext_getElem?
  intro i
  simp [Tree.occurrenceOf, Function.comp_def]

/-- The sites are at what the tree has recorded. -/
theorem map_span_sites : a.sites.map (·.2) = a.tree.recorded.map (·.2) := by
  have used : (usedIn a.tree.references).map (·.2) = a.tree.references.toList.map (·.span) := by
    simp [usedIn]
  rw [sites, Tree.recorded, List.map_append, List.map_append, used, ← regular.map_span_occurrences]
  simp [usedSites, declaredSites, declaredIn, List.map_flatMap, Function.comp_def]

theorem sites_apart : a.sites.Pairwise fun x y => x.2.Apart y.2 := by
  have apart := regular.apart
  rw [← regular.map_span_sites] at apart
  exact List.pairwise_map.mp apart

theorem sites_wide {site : Meaning × Span} (mem : site ∈ a.sites) : site.2.start < site.2.stop := by
  have span : site.2 ∈ a.tree.recorded.map (·.2) := by
    rw [← regular.map_span_sites]
    exact List.mem_map_of_mem mem
  obtain ⟨r, recorded, same⟩ := List.mem_map.mp span
  rw [← same]
  exact regular.wide r recorded

theorem places_wide (mem : p ∈ a.places m) : p.start < p.stop :=
  regular.sites_wide (regular.mem_places_iff.mp mem)

/-- A cursor touches one place at most, with one meaning. -/
theorem touched_once (left : p ∈ a.places m) (right : q ∈ a.places m')
    (here : p.contains offset = true) (here' : q.contains offset = true) : m = m' ∧ p = q := by
  have symm : Std.Symm fun x y : Meaning × Span => x.2.Apart y.2 := ⟨fun _ _ => Span.Apart.symm⟩
  rw [regular.mem_places_iff] at left right
  by_cases same : (m, p) = (m', q)
  · exact Prod.mk.injEq _ _ _ _ ▸ same
  · exact absurd here' ((regular.sites_apart.forall left right same).not_contains here)

/-- The places of one meaning stand clear of each other. -/
theorem places_apart (m : Meaning) : (a.places m).Pairwise Span.Apart := by
  have apart : (a.sites.map (·.2)).Pairwise Span.Apart := List.pairwise_map.mpr regular.sites_apart
  rw [sites, usedSites, declaredSites, List.map_append, List.map_map, List.map_flatMap] at apart
  simp only [List.map_map, Function.comp_def, List.map_id'] at apart
  cases m with
  | bound id =>
    apply (List.perm_append_comm.pairwise_iff Span.Apart.symm).mp
    apply List.Pairwise.sublist _ apart
    apply List.Sublist.append
    · exact List.filter_sublist.map _
    · cases found : a.tree.binding? id with
      | none => exact List.nil_sublist _
      | some b =>
        apply List.sublist_flatten_of_mem
        have mem := Array.mem_of_getElem? found
        exact List.mem_map_of_mem (Array.mem_toList_iff.mpr mem)
  | free name =>
    apply List.Pairwise.sublist _ apart
    apply List.Sublist.trans _ (List.sublist_append_left _ _)
    exact (List.filter_sublist.trans List.filter_sublist).map _

/-- The binding that an occurrence means exists. -/
theorem exists_binding {o : Occurrence} {id : BindingId} (mem : o ∈ a.bound.occurrences)
    (resolved : o.resolved = some id) :
    ∃ b, a.tree.binding? id = some b ∧ b.name = o.name ∧ b.id = id := by
  rw [regular.bound] at mem
  obtain ⟨r, _, _, rfl⟩ := Tree.exists_of_mem_occurrences mem
  obtain ⟨s, inside, declares⟩ := Tree.exists_of_lookUp resolved
  obtain ⟨b, at_id, name, _⟩ := regular.tabled.declared s inside r.name id declares
  exact ⟨b, at_id, name, regular.tabled.id id b at_id⟩

/-- An occurrence has the name of the binding that it means. -/
theorem name_of_resolved {o : Occurrence} {b : Binding} (used : o ∈ a.bound.occurrences)
    (mem : b ∈ a.tree.bindings) (resolved : o.resolved = some b.id) : o.name = b.name := by
  obtain ⟨b', at_id, name, _⟩ := regular.exists_binding used resolved
  have same : b' = b := Option.some.inj (at_id.symm.trans (regular.binding?_id mem))
  rw [← name, same]

end Regular

end Analysis

end Scoping
