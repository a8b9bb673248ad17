import Scoping.Proofs.Analysis.Highlight
import Scoping.Proofs.Analysis.Report

/-!
# Lookups tell what a search through everything would

Two tables spare a search through all occurrences: their order, in which the one under a cursor is
found by halving, and the list of uses that is kept for each binding. Neither loses anything. The
places of names are apart, so what halving comes to is the only occurrence that can be meant
(`analyze_cursor`); and each occurrence is in the list of the binding that it means and in no other,
or, where it means none, among the unresolved (`analyze_occurrencesOf`).
-/

namespace Scoping

/-! ## Under a cursor -/

/-- Of spans that stand apart, a cursor touches one at most. -/
theorem Span.length_filter_contains_le {α : Type} {f : α → Span} {l : List α}
    (apart : l.Pairwise fun x y => (f x).Apart (f y)) (offset : Nat) :
    (l.filter fun x => (f x).contains offset).length ≤ 1 := by
  induction apart with
  | nil => exact Nat.zero_le 1
  | @cons x l first _ ih =>
    by_cases here : (f x).contains offset = true
    · have others : (l.filter fun y => (f y).contains offset) = [] := by
        apply List.filter_eq_nil_iff.mpr
        intro y mem
        exact (first y mem).not_contains here
      rw [List.filter_cons, if_pos here, others]
      exact Nat.le_refl 1
    · rw [List.filter_cons, if_neg here]
      exact ih

namespace Analysis

namespace Regular

variable {a : Analysis} (regular : a.Regular) {offset : Nat}
include regular

theorem occurrenceAt_eq_some_iff {o : Occurrence} : a.occurrenceAt offset = some o ↔
    o ∈ a.bound.occurrences ∧ o.span.contains offset = true := by
  constructor
  · exact contains_of_occurrenceAt
  · rintro ⟨mem, here⟩
    exact regular.occurrenceAt_eq mem here

/-- Halving finds what going through all occurrences would. -/
theorem occurrenceAt_eq_find? :
    a.occurrenceAt offset = a.bound.occurrences.find? (·.span.contains offset) := by
  cases found : a.bound.occurrences.find? (·.span.contains offset) with
  | none =>
    have untouched := Array.find?_eq_none.mp found
    apply Option.eq_none_iff_forall_ne_some.mpr
    intro o touched
    obtain ⟨mem, here⟩ := contains_of_occurrenceAt touched
    exact untouched o mem here
  | some o =>
    apply regular.occurrenceAt_eq (Array.mem_of_find?_eq_some found)
    have here := Array.find?_some found
    exact here

/-- The binding that an occurrence means is the one it is resolved to. -/
theorem declarationOf_eq_some_iff {o : Occurrence} {b : Binding} (mem : b ∈ a.tree.bindings) :
    a.declarationOf o = some b ↔ o.resolved = some b.id := by
  unfold declarationOf
  constructor
  · intro means
    obtain ⟨id, resolved, at_id⟩ := Option.bind_eq_some_iff.mp means
    rw [resolved, regular.tabled.id id b at_id]
  · intro resolved
    rw [resolved, Option.bind_some]
    exact regular.binding?_id mem

theorem bindingAt_eq_some_iff {b : Binding} : a.bindingAt offset = some b ↔
    b ∈ a.tree.bindings ∧ ((∃ d ∈ b.declarations, d.contains offset = true) ∨
      ∃ o ∈ a.bound.occurrences, o.resolved = some b.id ∧ o.span.contains offset = true) := by
  constructor
  · intro found
    unfold bindingAt at found
    cases declared : a.tree.bindings.find? (·.declarations.any (·.contains offset)) with
    | some b' =>
      rw [declared] at found
      obtain rfl : b' = b := Option.some.inj found
      have touched := Array.find?_some declared
      exact ⟨Array.mem_of_find?_eq_some declared, .inl (List.any_eq_true.mp touched)⟩
    | none =>
      rw [declared] at found
      obtain ⟨o, touched, means⟩ := Option.bind_eq_some_iff.mp found
      obtain ⟨used, here⟩ := contains_of_occurrenceAt touched
      obtain ⟨_, _, at_id⟩ := Option.bind_eq_some_iff.mp means
      have mem := Array.mem_of_getElem? at_id
      exact ⟨mem, .inr ⟨o, used, (regular.declarationOf_eq_some_iff mem).mp means, here⟩⟩
  · rintro ⟨mem, ⟨d, declared, here⟩ | ⟨o, used, resolved, here⟩⟩
    · exact regular.bindingAt_of_declared mem declared here
    · rw [regular.bindingAt_of_used used here]
      exact (regular.declarationOf_eq_some_iff mem).mpr resolved

end Regular

end Analysis

/-- A cursor touches one place of a name at most. The occurrence and the binding that are found under
it are the ones it touches: the occurrence that a search through all of them would find, and the
binding that is declared there or that such an occurrence means. -/
theorem analyze_cursor {source : String} {options : Options} {a : Analysis}
    (h : analyze source options = .ok a) (offset : Nat) :
    (a.sites.filter fun site => site.2.contains offset).length ≤ 1 ∧
      (∀ o, a.occurrenceAt offset = some o ↔
        o ∈ a.bound.occurrences ∧ o.span.contains offset = true) ∧
      (∀ b, a.bindingAt offset = some b ↔
        b ∈ a.tree.bindings ∧ ((∃ d ∈ b.declarations, d.contains offset = true) ∨
          ∃ o ∈ a.bound.occurrences, o.resolved = some b.id ∧ o.span.contains offset = true)) ∧
      a.occurrenceAt offset = a.bound.occurrences.find? (·.span.contains offset) := by
  have regular := analyze_regular h
  refine ⟨?once, ?occurrence, ?binding, regular.occurrenceAt_eq_find?⟩
  case once => exact Span.length_filter_contains_le regular.sites_apart offset
  case occurrence =>
    intro o
    exact regular.occurrenceAt_eq_some_iff
  case binding =>
    intro b
    exact regular.bindingAt_eq_some_iff

/-- Behind its last character a name is still touched, and so is its binding. -/
theorem analyze_cursor_end : ∃ a, analyze "let ab; ab+c" Options.standard = .ok a ∧
    (∃ o, a.occurrenceAt 10 = some o ∧ o.name = "ab") ∧
    (∃ b, a.bindingAt 10 = some b ∧ a.bindingAt 6 = some b) ∧ a.occurrenceAt 6 = none := by
  have made : (analyze "let ab; ab+c" Options.standard).toOption.map
      (fun a => (a.tree.bindings, a.bound.occurrences)) =
        some (#[⟨0, "ab", .let_, ⟨4, 6⟩, #[], 0⟩],
          #[⟨0, "ab", ⟨8, 10⟩, 0, some 0⟩, ⟨1, "c", ⟨11, 12⟩, 0, none⟩]) := by
    decide +kernel
  obtain ⟨a, ok, found⟩ := Option.map_eq_some_iff.mp made
  obtain ⟨bindings, occurrences⟩ := Prod.mk.inj found
  have h := ok_of_toOption ok
  obtain ⟨_, occurrence, binding, _⟩ := analyze_cursor h 10
  obtain ⟨_, _, declared, searched⟩ := analyze_cursor h 6
  rw [bindings, occurrences] at binding
  rw [bindings] at declared
  rw [occurrences] at occurrence searched
  refine ⟨a, h, ⟨⟨0, "ab", ⟨8, 10⟩, 0, some 0⟩, ?_, rfl⟩, ⟨⟨0, "ab", .let_, ⟨4, 6⟩, #[], 0⟩, ?_, ?_⟩, ?_⟩
  · exact (occurrence _).mpr ⟨by simp, by decide⟩
  · exact (binding _).mpr ⟨by simp, .inr ⟨⟨0, "ab", ⟨8, 10⟩, 0, some 0⟩, by simp, rfl, by decide⟩⟩
  · exact (declared _).mpr ⟨by simp, .inl ⟨⟨4, 6⟩, by decide, by decide⟩⟩
  · rw [searched]
    rfl

/-! ## Under a binding -/

namespace Analysis

namespace Regular

variable {a : Analysis} (regular : a.Regular)
include regular

/-- The occurrences under a binding are those that are resolved to it. -/
theorem occurrencesOf_id {b : Binding} (mem : b ∈ a.tree.bindings) :
    a.occurrencesOf b.id = .ok (a.bound.resolvedTo b.id) := by
  obtain ⟨indexed, inside⟩ := regular.indexed mem
  have found := indexed.filterMap_usesOf? inside
  unfold occurrencesOf
  rw [indexed.usesOf? inside, Option.getD_some] at *
  show Except.ok _ = _
  rw [found]

/-- Only of what is no binding the occurrences are not told. -/
theorem occurrencesOf_eq_error_iff {id : BindingId} {e : NotFound} :
    a.occurrencesOf id = .error e ↔ a.tree.binding? id = none ∧ e = .binding id := by
  cases known : a.tree.binding? id with
  | some b =>
    have mem : b ∈ a.tree.bindings := Array.mem_of_getElem? known
    rw [← regular.tabled.id id b known, regular.occurrencesOf_id mem]
    simp
  | none =>
    have size : a.bound.uses.size = a.tree.bindings.size := by
      rw [regular.bound]
      exact a.tree.bind_indexed.2
    have outside : a.bound.usesOf? id = none := by
      have := Array.getElem?_eq_none_iff.mp known
      unfold Bound.usesOf?
      rw [Array.getElem?_eq_none (by omega), Option.map_none]
    unfold occurrencesOf
    rw [outside]
    constructor
    · intro told
      exact ⟨rfl, (Except.error.inj told).symm⟩
    · rintro ⟨_, rfl⟩
      rfl

/-- The occurrences are numbered in the order in which they stand. -/
theorem occurrences_numbered : a.bound.occurrences.toList.Pairwise fun o u =>
    o.id < u.id ∧ o.span.start < u.span.start := by
  have starts := regular.occurrences_ordered
  rw [List.pairwise_iff_getElem] at starts ⊢
  intro i j left right less
  have id (k : Nat) (inside : k < a.bound.occurrences.toList.length) :
      a.bound.occurrences.toList[k].id = k := by
    have indexed := a.tree.bind_indexed.1
    rw [← regular.bound] at indexed
    apply indexed.id
    rw [← Array.getElem?_toList]
    exact List.getElem?_eq_getElem inside
  have wide := regular.sites_wide (mem_sites_iff.mpr
    (.inl ⟨_, Array.mem_toList_iff.mp (List.getElem_mem left), rfl, rfl⟩))
  have between := starts i j left right less
  dsimp only at wide
  rw [id i left, id j right]
  exact ⟨less, by omega⟩

theorem occurrences_nodup : a.bound.occurrences.toList.Nodup := by
  apply regular.occurrences_numbered.imp
  rintro o u ⟨less, _⟩ rfl
  exact Nat.lt_irrefl _ less

/-- The lists of all bindings and what is unresolved are together all occurrences. -/
theorem resolvedTo_append_unresolved_perm :
    ((a.tree.bindings.toList.flatMap fun b => a.bound.resolvedTo b.id) ++ a.unresolved).Perm
      a.bound.occurrences.toList := by
  apply (regular.flatMap_resolvedTo.append_right _).trans
  exact List.filter_append_perm (fun o : Occurrence => o.isResolved) _

end Regular

end Analysis

/-- The occurrences are told of bindings and of nothing else. Under a binding stand the occurrences
that mean it, which have its name, in the order of their numbers and of their places. Together with
the unresolved ones these are all occurrences, each once. -/
theorem analyze_occurrencesOf {source : String} {options : Options} {a : Analysis}
    (h : analyze source options = .ok a) :
    (∀ id e, a.occurrencesOf id = .error e ↔ a.tree.binding? id = none ∧ e = .binding id) ∧
      ∃ listed : Binding → List Occurrence,
        (∀ b ∈ a.tree.bindings, a.occurrencesOf b.id = .ok (listed b) ∧
          (∀ o ∈ a.bound.occurrences, o ∈ listed b ↔ a.declarationOf o = some b) ∧
          (∀ o ∈ listed b, o.name = b.name) ∧
          (listed b).Pairwise fun o u => o.id < u.id ∧ o.span.start < u.span.start) ∧
        ((a.tree.bindings.toList.flatMap listed) ++ a.unresolved).Perm a.bound.occurrences.toList ∧
        a.bound.occurrences.toList.Nodup := by
  have regular := analyze_regular h
  refine ⟨fun _ _ => regular.occurrencesOf_eq_error_iff, fun b => a.bound.resolvedTo b.id, ?_,
    regular.resolvedTo_append_unresolved_perm, regular.occurrences_nodup⟩
  intro b mem
  refine ⟨regular.occurrencesOf_id mem, ?means, ?named, ?ordered⟩
  case means =>
    intro o used
    show o ∈ a.bound.resolvedTo b.id ↔ _
    rw [regular.declarationOf_eq_some_iff mem]
    unfold Bound.resolvedTo
    rw [List.mem_filter, beq_iff_eq]
    exact and_iff_right (Array.mem_toList_iff.mpr used)
  case named =>
    intro o listed
    obtain ⟨used, resolved⟩ := List.mem_filter.mp listed
    exact regular.name_of_resolved (Array.mem_toList_iff.mp used) mem (eq_of_beq resolved)
  case ordered => exact regular.occurrences_numbered.sublist List.filter_sublist

/-- Of two variables of one name the inner is used in its block and the outer behind it, and there is
no third. -/
theorem analyze_occurrencesOf_inner :
    ∃ a, analyze "let a; { let a; a } a(b)" Options.standard = .ok a ∧
      a.occurrencesOf 2 = .error (.binding 2) ∧
      ∃ inner, a.occurrencesOf 1 = .ok inner ∧
        ⟨0, "a", ⟨16, 17⟩, 1, some 1⟩ ∈ inner ∧ ⟨1, "a", ⟨20, 21⟩, 0, some 0⟩ ∉ inner := by
  have made : (analyze "let a; { let a; a } a(b)" Options.standard).toOption.map
      (fun a => (a.tree.bindings, a.bound.occurrences)) =
        some (#[⟨0, "a", .let_, ⟨4, 5⟩, #[], 0⟩, ⟨1, "a", .let_, ⟨13, 14⟩, #[], 1⟩],
          #[⟨0, "a", ⟨16, 17⟩, 1, some 1⟩, ⟨1, "a", ⟨20, 21⟩, 0, some 0⟩,
            ⟨2, "b", ⟨22, 23⟩, 0, none⟩]) := by
    decide +kernel
  obtain ⟨a, ok, found⟩ := Option.map_eq_some_iff.mp made
  obtain ⟨bindings, occurrences⟩ := Prod.mk.inj found
  have h := ok_of_toOption ok
  obtain ⟨fails, listed, lists, _, _⟩ := analyze_occurrencesOf h
  have known (id : BindingId) : a.tree.binding? id = a.tree.bindings[id]? := rfl
  rw [occurrences] at lists
  obtain ⟨told, means, _, _⟩ := lists ⟨1, "a", .let_, ⟨13, 14⟩, #[], 1⟩ (by simp [bindings])
  refine ⟨a, h, (fails 2 _).mpr ⟨by rw [known, bindings]; rfl, rfl⟩, _, told, ?_, ?_⟩
  · apply (means _ (by simp)).mpr
    show a.tree.binding? 1 = _
    rw [known, bindings]
    rfl
  · intro mem
    have other := (means _ (by simp)).mp mem
    change a.tree.binding? 0 = _ at other
    rw [known, bindings] at other
    cases other

end Scoping
