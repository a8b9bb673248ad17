import Scoping.Proofs.Analysis.Site
import Scoping.Proofs.Text.Bisect

/-!
# What a cursor highlights

Three searches find the name under a cursor: the first binding that is declared there, the last
occurrence that begins before it, and the occurrences of the same name. As a cursor touches one place
at most, all of them come to that place, whatever their order (`Analysis.Regular.bindingAt_eq`,
`Analysis.Regular.occurrenceAt_eq`). So what is highlighted are the places of one meaning
(`Analysis.Regular.highlight_eq`), and being highlighted together is an equivalence of positions
(`analyze_highlight`).
-/

namespace Scoping

namespace Span

theorem precedes_trans (s t u : Span) (left : s.precedes t = true) (right : t.precedes u = true) :
    s.precedes u = true := by
  simp only [precedes, Bool.or_eq_true, Bool.and_eq_true, decide_eq_true_eq, beq_iff_eq] at *
  omega

theorem precedes_total (s t : Span) : (s.precedes t || t.precedes s) = true := by
  simp only [precedes, Bool.or_eq_true, Bool.and_eq_true, decide_eq_true_eq, beq_iff_eq]
  omega

/-- Of two spans that are apart, the one that precedes ends before the other begins. -/
theorem Apart.stop_lt {s t : Span} (apart : s.Apart t) (wide : t.start < t.stop)
    (first : s.precedes t = true) : s.stop < t.start := by
  simp only [precedes, Bool.or_eq_true, Bool.and_eq_true, decide_eq_true_eq, beq_iff_eq] at first
  unfold Apart at apart
  omega

end Span

namespace Analysis

/-- A cursor at the offset touches a declaration or an occurrence. -/
def Touches (a : Analysis) (offset : Nat) : Prop :=
  (∃ b ∈ a.tree.bindings, ∃ d ∈ b.declarations, d.contains offset = true) ∨
    ∃ o ∈ a.bound.occurrences, o.span.contains offset = true

variable {a : Analysis} {m : Meaning} {p : Span} {offset : Nat}

namespace Regular

variable (regular : a.Regular)
include regular

theorem touches_iff : a.Touches offset ↔ ∃ m, ∃ p ∈ a.places m, p.contains offset = true := by
  simp only [regular.mem_places_iff, mem_sites_iff]
  constructor
  · rintro (⟨b, mem, d, declared, here⟩ | ⟨o, mem, here⟩)
    · exact ⟨.bound b.id, d, .inr ⟨b, mem, declared, rfl⟩, here⟩
    · exact ⟨o.meaning, o.span, .inl ⟨o, mem, rfl, rfl⟩, here⟩
  · rintro ⟨m, p, ⟨o, mem, _, rfl⟩ | ⟨b, mem, declared, _⟩, here⟩
    · exact .inr ⟨o, mem, here⟩
    · exact .inl ⟨b, mem, p, declared, here⟩

/-! ## The occurrence under a cursor -/

/-- Each occurrence ends before the next begins. -/
theorem occurrences_ordered :
    a.bound.occurrences.toList.Pairwise fun o u => o.span.stop < u.span.start := by
  have starts : (a.bound.occurrences.toList.map (·.span)).Pairwise fun s t => s.start < t.start := by
    rw [regular.map_span_occurrences]
    exact List.pairwise_map.mpr regular.ordered
  replace starts := List.pairwise_map.mp starts
  have apart := regular.sites_apart
  rw [sites, List.pairwise_append] at apart
  have apart := List.pairwise_map.mp apart.1
  apply (starts.and apart).imp_of_mem
  rintro o u _ mem ⟨first, apart⟩
  have wide := regular.sites_wide (mem_sites_iff.mpr (.inl ⟨u, Array.mem_toList_iff.mp mem, rfl, rfl⟩))
  apply apart.stop_lt wide
  simp [Span.precedes, first]

/-- The occurrence that a cursor touches is found. -/
theorem occurrenceAt_eq {o : Occurrence} (mem : o ∈ a.bound.occurrences)
    (here : o.span.contains offset = true) : a.occurrenceAt offset = some o := by
  obtain ⟨k, at_k⟩ := Array.mem_iff_getElem?.mp mem
  obtain ⟨inside, same⟩ := Array.getElem?_eq_some_iff.mp at_k
  have ordered := List.pairwise_iff_getElem.mp regular.occurrences_ordered
  simp only [Array.length_toList, Array.getElem_toList] at ordered
  have touched := Span.contains_iff.mp here
  have found : bisect (fun i => (a.bound.occurrences[i]?).any (·.span.start ≤ offset))
      a.bound.occurrences.size = k + 1 := by
    apply bisect_eq
    · intro i less
      have inside' : i < a.bound.occurrences.size := by omega
      rw [Array.getElem?_eq_getElem inside', Option.any_some, decide_eq_true_eq]
      rcases Nat.lt_or_eq_of_le (Nat.le_of_lt_succ less) with before | rfl
      · have := ordered i k inside' inside before
        have wide := regular.sites_wide (mem_sites_iff.mpr
          (.inl ⟨a.bound.occurrences[i], Array.getElem_mem inside', rfl, rfl⟩))
        dsimp only at wide
        rw [same] at this
        omega
      · rw [same]
        exact touched.1
    · intro i more inside'
      have := ordered k i inside inside' more
      rw [same] at this
      rw [Array.getElem?_eq_getElem inside', Option.any_some, decide_eq_false_iff_not]
      omega
    · exact inside
  unfold occurrenceAt
  dsimp only
  rw [found]
  show (a.bound.occurrences[k]?).filter _ = _
  rw [at_k, Option.filter_some, if_pos here]

end Regular

/-- The occurrence that is found, the cursor touches. -/
theorem contains_of_occurrenceAt {o : Occurrence} (found : a.occurrenceAt offset = some o) :
    o ∈ a.bound.occurrences ∧ o.span.contains offset = true := by
  unfold occurrenceAt at found
  dsimp only at found
  split at found
  · cases found
  · obtain ⟨at_k, here⟩ := Option.filter_eq_some_iff.mp found
    exact ⟨Array.mem_of_getElem? at_k, here⟩

/-! ## The binding under a cursor -/

namespace Regular

variable (regular : a.Regular)
include regular

/-- The binding of the declaration that a cursor touches is found. -/
theorem bindingAt_of_declared {b : Binding} {d : Span} (mem : b ∈ a.tree.bindings)
    (declared : d ∈ b.declarations) (here : d.contains offset = true) :
    a.bindingAt offset = some b := by
  have site {b : Binding} {d : Span} (mem : b ∈ a.tree.bindings) (declared : d ∈ b.declarations) :
      d ∈ a.places (.bound b.id) :=
    regular.mem_places_iff.mpr (mem_sites_iff.mpr (.inr ⟨b, mem, declared, rfl⟩))
  unfold bindingAt
  cases found : a.tree.bindings.find? (·.declarations.any (·.contains offset)) with
  | none =>
    have untouched := Array.find?_eq_none.mp found b mem
    exact absurd (List.any_eq_true.mpr ⟨d, declared, here⟩) untouched
  | some b' =>
    have mem' := Array.mem_of_find?_eq_some found
    have touched := Array.find?_some found
    obtain ⟨d', declared', here'⟩ := List.any_eq_true.mp touched
    obtain ⟨same, _⟩ := regular.touched_once (site mem declared) (site mem' declared') here here'
    have at_b := regular.binding?_id mem
    rw [Meaning.bound.inj same, regular.binding?_id mem'] at at_b
    exact at_b

/-- A cursor that touches an occurrence touches no declaration. -/
theorem not_declared_of_used {o : Occurrence} (mem : o ∈ a.bound.occurrences)
    (here : o.span.contains offset = true) :
    a.tree.bindings.find? (·.declarations.any (·.contains offset)) = none := by
  have apart := regular.sites_apart
  rw [sites, List.pairwise_append] at apart
  apply Array.find?_eq_none.mpr
  intro b inside touched
  obtain ⟨d, declared, here'⟩ := List.any_eq_true.mp touched
  have between := apart.2.2 _ (mem_usedSites mem) _ (mem_declaredSites inside declared)
  exact between.not_contains here here'

/-- The binding that an occurrence means is found where a cursor touches the occurrence. -/
theorem bindingAt_of_used {o : Occurrence} (mem : o ∈ a.bound.occurrences)
    (here : o.span.contains offset = true) : a.bindingAt offset = a.declarationOf o := by
  unfold bindingAt
  rw [regular.not_declared_of_used mem here, regular.occurrenceAt_eq mem here]
  rfl

/-! ## What is highlighted -/

theorem highlight_of_bindingAt {b : Binding} (mem : b ∈ a.tree.bindings)
    (found : a.bindingAt offset = some b) :
    a.highlight offset = (a.places (.bound b.id)).mergeSort Span.precedes := by
  obtain ⟨indexed, inside⟩ := regular.indexed mem
  unfold highlight places
  simp only [found, regular.binding?_id mem, indexed.filterMap_usesOf? inside, Option.map_some,
    Option.getD_some]

/-- Where a cursor touches a name, the places of its meaning are highlighted, in source order. -/
theorem highlight_eq (mem : p ∈ a.places m) (here : p.contains offset = true) :
    a.highlight offset = (a.places m).mergeSort Span.precedes := by
  rcases mem_sites_iff.mp (regular.mem_places_iff.mp mem) with
    ⟨o, used, rfl, rfl⟩ | ⟨b, inside, declared, rfl⟩
  · have found := regular.bindingAt_of_used used here
    cases resolved : o.resolved with
    | some id =>
      obtain ⟨b, at_id, _, rfl⟩ := regular.exists_binding used resolved
      rw [declarationOf, resolved, Option.bind_some, at_id] at found
      rw [Occurrence.meaning_eq_bound_iff.mpr resolved]
      exact regular.highlight_of_bindingAt (Array.mem_of_getElem? at_id) found
    | none =>
      have free : o.meaning = .free o.name := by
        rw [Occurrence.meaning_eq_free_iff, Occurrence.isResolved, resolved]
        exact ⟨rfl, rfl⟩
      rw [declarationOf, resolved, Option.bind_none] at found
      rw [free]
      unfold highlight places
      simp only [found, regular.occurrenceAt_eq used here]
  · exact regular.highlight_of_bindingAt inside (regular.bindingAt_of_declared inside declared here)

end Regular

/-- Where a cursor touches no name, nothing is highlighted. -/
theorem highlight_eq_nil (none : ¬ a.Touches offset) : a.highlight offset = [] := by
  have noBinding : a.tree.bindings.find? (·.declarations.any (·.contains offset)) = .none := by
    apply Array.find?_eq_none.mpr
    intro b mem touched
    obtain ⟨d, declared, here⟩ := List.any_eq_true.mp touched
    exact none (.inl ⟨b, mem, d, declared, here⟩)
  have noOccurrence : a.occurrenceAt offset = .none := by
    cases found : a.occurrenceAt offset with
    | none => rfl
    | some o =>
      obtain ⟨mem, here⟩ := contains_of_occurrenceAt found
      exact absurd (.inr ⟨o, mem, here⟩) none
  simp only [highlight, bindingAt, noBinding, noOccurrence, Option.bind_none, List.mergeSort_nil]

end Analysis

/-- Highlighting is an equivalence of positions: what is highlighted stands in source order, and is
something exactly where a cursor touches a declaration or an occurrence; it then holds one place that
the cursor touches, and from each of its places the same is highlighted. -/
theorem analyze_highlight {source : String} {options : Options} {a : Analysis}
    (h : analyze source options = .ok a) (offset : Nat) :
    (a.highlight offset).Pairwise (fun p q => p.start < q.start) ∧
      (a.highlight offset ≠ [] ↔ a.Touches offset) ∧
      (a.Touches offset → ∃! p, p ∈ a.highlight offset ∧ p.contains offset = true) ∧
      ∀ p ∈ a.highlight offset, ∀ offset', p.contains offset' = true →
        a.highlight offset' = a.highlight offset := by
  have regular := analyze_regular h
  by_cases touches : a.Touches offset
  · obtain ⟨m, p, mem, here⟩ := regular.touches_iff.mp touches
    have highlighted := regular.highlight_eq mem here
    have perm : (a.highlight offset).Perm (a.places m) := by
      rw [highlighted]
      exact List.mergeSort_perm _ _
    refine ⟨?ordered, ?touched, ?once, ?same⟩
    case ordered =>
      have sorted : (a.highlight offset).Pairwise fun p q => p.precedes q = true := by
        rw [highlighted]
        exact List.pairwise_mergeSort Span.precedes_trans Span.precedes_total _
      have apart := (perm.pairwise_iff Span.Apart.symm).mpr (regular.places_apart m)
      apply (sorted.and apart).imp_of_mem
      rintro p q left right ⟨first, apart⟩
      have wide := regular.places_wide (perm.mem_iff.mp left)
      have := apart.stop_lt (regular.places_wide (perm.mem_iff.mp right)) first
      omega
    case touched =>
      apply iff_of_true _ touches
      intro none
      rw [none] at perm
      exact absurd (perm.mem_iff.mpr mem) List.not_mem_nil
    case once =>
      intro _
      refine ⟨p, ⟨perm.mem_iff.mpr mem, here⟩, ?_⟩
      rintro q ⟨mem', here'⟩
      exact (regular.touched_once (perm.mem_iff.mp mem') mem here' here).2
    case same =>
      intro q mem' offset' here'
      rw [regular.highlight_eq (perm.mem_iff.mp mem') here', highlighted]
  · rw [Analysis.highlight_eq_nil touches]
    exact ⟨List.Pairwise.nil, iff_of_false (· rfl) touches, fun h => absurd h touches,
      fun _ mem => absurd mem List.not_mem_nil⟩

/-- The end of a variable's use highlights what the end of its declaration does, and a blank between
two statements nothing. -/
theorem analyze_highlight_use : ∃ a, analyze "var a = b; b(a); var a" Options.standard = .ok a ∧
    a.Touches 5 ∧ (∃! p, p ∈ a.highlight 5 ∧ p.contains 5 = true) ∧
    a.highlight 14 = a.highlight 5 ∧ a.highlight 16 = [] := by
  have made : (analyze "var a = b; b(a); var a" Options.standard).toOption.map
      (fun a => (a.tree.bindings, a.bound.occurrences)) =
        some (#[⟨0, "a", .var, ⟨21, 22⟩, #[⟨4, 5⟩], 0⟩],
          #[⟨0, "b", ⟨8, 9⟩, 0, none⟩, ⟨1, "b", ⟨11, 12⟩, 0, none⟩, ⟨2, "a", ⟨13, 14⟩, 0, some 0⟩]) := by
    decide +kernel
  obtain ⟨a, ok, found⟩ := Option.map_eq_some_iff.mp made
  obtain ⟨bindings, occurrences⟩ := Prod.mk.inj found
  have h := ok_of_toOption ok
  have regular := analyze_regular h
  have declared : (⟨4, 5⟩ : Span) ∈ a.places (.bound 0) := by
    rw [regular.mem_places_iff, Analysis.mem_sites_iff, bindings]
    exact .inr ⟨⟨0, "a", .var, ⟨21, 22⟩, #[⟨4, 5⟩], 0⟩, by simp, by decide, rfl⟩
  have used : (⟨13, 14⟩ : Span) ∈ a.places (.bound 0) := by
    rw [regular.mem_places_iff, Analysis.mem_sites_iff, occurrences]
    exact .inl ⟨⟨2, "a", ⟨13, 14⟩, 0, some 0⟩, by simp, rfl, rfl⟩
  have touches : a.Touches 5 := regular.touches_iff.mpr ⟨_, _, declared, rfl⟩
  have untouched : ¬ a.Touches 16 := by
    unfold Analysis.Touches
    rw [bindings, occurrences]
    decide
  have together : (⟨13, 14⟩ : Span) ∈ a.highlight 5 := by
    rw [regular.highlight_eq declared rfl, List.mem_mergeSort]
    exact used
  obtain ⟨_, _, once, same⟩ := analyze_highlight h 5
  obtain ⟨_, some, _, _⟩ := analyze_highlight h 16
  exact ⟨a, h, touches, once touches, same _ together 14 rfl, not_not.mp (untouched ∘ some.mp)⟩

end Scoping
