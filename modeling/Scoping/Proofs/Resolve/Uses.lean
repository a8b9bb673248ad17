import Mathlib.Data.List.Basic
import Scoping.Proofs.Resolve.Bind

/-!
# The lists of uses

Binding lists the uses of each binding while it makes the occurrences. The lists are an index: each is
what a search through all occurrences would find (`Bound.Indexed`), in their order.
-/

namespace Scoping

/-- The occurrences that mean a binding. -/
def Bound.resolvedTo (b : Bound) (id : BindingId) : List Occurrence :=
  b.occurrences.toList.filter (·.resolved == some id)

/-- Occurrences are numbered by their places, and each list holds the numbers of those that mean its
binding. -/
structure Bound.Indexed (b : Bound) : Prop where
  id : ∀ (i : Nat) (o : Occurrence), b.occurrences[i]? = some o → o.id = i
  uses : ∀ (i : Nat) (ids : Array OccurrenceId), b.uses[i]? = some ids →
    ids.toList = (b.resolvedTo i).map (·.id)

namespace Bound

variable {b : Bound}

theorem resolvedTo_push (r : Reference) (resolved : Option BindingId) (i : BindingId) :
    (b.push r resolved).resolvedTo i = b.resolvedTo i ++
      if resolved = some i then [⟨b.occurrences.size, r.name, r.span, r.scope, resolved⟩] else [] := by
  show (b.occurrences.push _).toList.filter _ = _
  rw [Array.toList_push, List.filter_append]
  congr 1
  simp only [List.filter_cons, List.filter_nil, beq_iff_eq]

theorem size_uses_push (r : Reference) (resolved : Option BindingId) :
    (b.push r resolved).uses.size = b.uses.size := by
  cases resolved with
  | none => rfl
  | some id => exact Array.size_modify

/-- The lists behind one more occurrence: that of the binding it means has grown. -/
theorem uses_push (r : Reference) (resolved : Option BindingId) (i : Nat) :
    (b.push r resolved).uses[i]? = (b.uses[i]?).map fun ids =>
      if resolved = some i then ids.push b.occurrences.size else ids := by
  cases resolved with
  | none => simp [push]
  | some id =>
    show (b.uses.modify id _)[i]? = _
    rw [Array.getElem?_modify]
    by_cases same : id = i
    · subst same
      simp
    · have other : ¬ some id = some i := fun h => same (Option.some.inj h)
      simp [same]

theorem Indexed.push (indexed : b.Indexed) (r : Reference) (resolved : Option BindingId) :
    (b.push r resolved).Indexed := by
  constructor
  case id =>
    intro i o at_i
    have at_i : (b.occurrences.push _)[i]? = some o := at_i
    rw [Array.getElem?_push] at at_i
    split at at_i
    · next same => rw [← Option.some.inj at_i, same]
    · exact indexed.id i o at_i
  case uses =>
    intro i ids at_i
    rw [uses_push] at at_i
    obtain ⟨before, known, rfl⟩ := Option.map_eq_some_iff.mp at_i
    rw [resolvedTo_push, List.map_append, ← indexed.uses i before known]
    by_cases means : resolved = some i
    · rw [if_pos means, if_pos means, Array.toList_push, List.map_singleton]
    · rw [if_neg means, if_neg means, List.map_nil, List.append_nil]

/-- The uses of a binding, where there is a list of them. -/
theorem Indexed.usesOf? (indexed : b.Indexed) {i : BindingId} (inside : i < b.uses.size) :
    b.usesOf? i = some ((b.resolvedTo i).map (·.id)) := by
  unfold Bound.usesOf?
  rw [Array.getElem?_eq_getElem inside, Option.map_some,
    indexed.uses i _ (Array.getElem?_eq_getElem inside)]

/-- Each number leads back to its occurrence. -/
theorem Indexed.filterMap_occurrence? (indexed : b.Indexed) {os : List Occurrence}
    (known : ∀ o ∈ os, o ∈ b.occurrences) :
    (os.map (·.id)).filterMap b.occurrence? = os := by
  rw [List.filterMap_map]
  calc os.filterMap (b.occurrence? ∘ (·.id))
      = os.filterMap some := ?_
    _ = os := List.filterMap_some
  apply List.filterMap_congr
  intro o mem
  obtain ⟨i, at_i⟩ := Array.mem_iff_getElem?.mp (known o mem)
  show b.occurrences[o.id]? = some o
  rw [indexed.id i o at_i, at_i]

/-- The occurrences of a binding, as they are looked up. -/
theorem Indexed.filterMap_usesOf? (indexed : b.Indexed) {i : BindingId} (inside : i < b.uses.size) :
    ((b.usesOf? i).getD []).filterMap b.occurrence? = b.resolvedTo i := by
  rw [indexed.usesOf? inside, Option.getD_some]
  apply indexed.filterMap_occurrence?
  intro o mem
  exact Array.mem_toList_iff.mp (List.mem_filter.mp mem).1

/-- One walk after the other keeps the index. -/
theorem Indexed.foldl_walk {t : Tree} (indexed : b.Indexed) (rs : List Reference) :
    (rs.foldl (walk t) b).Indexed ∧ (rs.foldl (walk t) b).uses.size = b.uses.size := by
  induction rs generalizing b with
  | nil => exact ⟨indexed, rfl⟩
  | cons r rs ih =>
    obtain ⟨kept, size⟩ := ih (b := b.walk t r) (indexed.push r _)
    exact ⟨kept, size.trans (size_uses_push r _)⟩

end Bound

/-- Binding makes the index, with a list for each binding of the tree. -/
theorem Tree.bind_indexed (t : Tree) : t.bind.Indexed ∧ t.bind.uses.size = t.bindings.size := by
  have empty : Bound.Indexed ⟨#[], t.bindings.map fun _ => #[]⟩ := by
    constructor
    case id =>
      intro i o at_i
      cases at_i
    case uses =>
      intro i ids at_i
      rw [Array.getElem?_map] at at_i
      obtain ⟨_, _, rfl⟩ := Option.map_eq_some_iff.mp at_i
      rfl
  obtain ⟨indexed, size⟩ := empty.foldl_walk (t := t) t.references.toList
  rw [Tree.bind_eq]
  exact ⟨indexed, size.trans Array.size_map⟩

end Scoping
