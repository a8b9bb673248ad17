import Scoping.Proofs.Tree.WayUp

/-!
# Chains as they are read

A walk upwards visits a way up, or as much of it as a walk may (`Tree.ancestors_eq`), and what is
read off the walk is read off that part: the depth (`Tree.depth_eq`), and the scope where
declarations end up that leave blocks, which is the right one as long as it is met on the part that
is visited (`Tree.functionScopeOf_eq_iff`), or is the global one.
-/

namespace Scoping

variable {scopes : Array Scope} {i j k p : Nat} {l : List ScopeId}

/-! ## Ways up to the global scope -/

namespace Rooted

variable (rooted : Rooted scopes)
include rooted

/-- Every scope has a way up. -/
theorem exists_wayUp (inside : i < scopes.size) : ∃ l, WayUp scopes (i :: l) := by
  induction i using Nat.strongRecOn with
  | _ i ih =>
    by_cases root : i = globalScope
    · subst root
      exact ⟨[], .root rooted.parentIn_root inside⟩
    · obtain ⟨p, parent⟩ := rooted.exists_parentIn inside root
      have less := rooted.parentIn_lt parent
      obtain ⟨l, way⟩ := ih p less (Nat.lt_trans less inside)
      exact ⟨p :: l, .step parent way⟩

/-- Every way up ends with the global scope. -/
theorem getLast?_wayUp (way : WayUp scopes l) : l.getLast? = some globalScope := by
  induction way with
  | root top inside => rw [rooted.eq_root top inside, List.getLast?_singleton]
  | step _ _ ih => rw [List.getLast?_cons_cons, ih]

end Rooted

/-! ## The scope that declarations reach -/

namespace HoistsTo

theorem bounds (h : HoistsTo scopes i j) :
    ∃ x, scopes[j]? = some x ∧ x.kind.boundsFunction = true := by
  induction h with
  | here at_i bounds => exact ⟨_, at_i, bounds⟩
  | out _ _ _ _ ih => exact ih

/-- Declarations reach a scope around them. -/
theorem encloses (h : HoistsTo scopes i j) : Encloses scopes j i := by
  induction h with
  | here at_i _ => exact .self (Array.getElem?_eq_some_iff.mp at_i).1
  | out at_i _ parent _ ih => exact .outer ((parentIn_of_getElem? at_i).trans parent) ih

/-- Declarations reach one scope only. -/
theorem unique (h : HoistsTo scopes i j) (g : HoistsTo scopes i k) : j = k := by
  induction h with
  | here at_i bounds =>
    cases g with
    | here _ _ => rfl
    | out at_i' inner _ _ =>
      rw [at_i] at at_i'
      cases at_i'
      rw [bounds] at inner
      cases inner
  | out at_i inner parent _ ih =>
    cases g with
    | here at_i' bounds =>
      rw [at_i] at at_i'
      cases at_i'
      rw [inner] at bounds
      cases bounds
    | out at_i' _ parent' g =>
      rw [at_i] at at_i'
      cases at_i'
      rw [parent] at parent'
      cases parent'
      exact ih g

/-- Of the first scopes on a way up, that one bounds a function first, if it is among them. -/
theorem find?_take (h : HoistsTo scopes i j) (way : WayUp scopes (i :: l)) (n : Nat) :
    ((i :: l).take n).find? (fun k => (scopes[k]?).any (·.kind.boundsFunction)) =
      if j ∈ (i :: l).take n then some j else none := by
  induction h generalizing l n with
  | @here i x at_i bounds =>
    cases n with
    | zero => rw [List.take_zero, List.find?_nil, if_neg List.not_mem_nil]
    | succ n =>
      rw [List.take_succ_cons, List.find?_cons, at_i, Option.any_some, bounds,
        if_pos List.mem_cons_self]
  | @out i j p x at_i inner parent reaches ih =>
    cases n with
    | zero => rw [List.take_zero, List.find?_nil, if_neg List.not_mem_nil]
    | succ n =>
      have ne : j ≠ i := by
        rintro rfl
        obtain ⟨y, at_j, bounds⟩ := reaches.bounds
        rw [at_i] at at_j
        cases at_j
        rw [inner] at bounds
        cases bounds
      cases way with
      | root top _ =>
        rw [parentIn_of_getElem? at_i, parent] at top
        cases top
      | @step _ q l parent' way =>
        rw [parentIn_of_getElem? at_i, parent] at parent'
        cases parent'
        rw [List.take_succ_cons, List.find?_cons, at_i, Option.any_some, inner, ih way n]
        simp only [List.mem_cons, ne, false_or]

end HoistsTo

/-! ## What is read of a chain -/

namespace Tree

variable {t : Tree}

/-- A walk upwards visits the first scopes of the way up. -/
theorem chainFrom_eq (way : WayUp t.scopes (i :: l)) (steps : Nat) :
    t.chainFrom steps i = ((i :: l).take steps).filterMap t.scope? := by
  generalize e : i :: l = all at way
  induction way generalizing i l steps with
  | @root i top inside =>
    cases e
    have at_i : t.scopes[i]? = some t.scopes[i] := Array.getElem?_eq_getElem inside
    rw [parentIn_of_getElem? at_i] at top
    cases steps with
    | zero => rfl
    | succ steps =>
      rw [List.take_succ_cons, List.take_nil]
      simp only [chainFrom, scope?, at_i, top, List.filterMap_cons, List.filterMap_nil]
  | @step i p l parent way ih =>
    cases e
    obtain ⟨x, at_i, parent⟩ := Option.bind_eq_some_iff.mp parent
    cases steps with
    | zero => rfl
    | succ steps =>
      rw [List.take_succ_cons]
      simp only [chainFrom, scope?, at_i, parent, List.filterMap_cons]
      rw [ih steps rfl]

variable (way : WayUp t.scopes (i :: l)) (rooted : Rooted t.scopes)
include way rooted

/-- The scopes around a scope are those on the way up, as far as a walk goes. -/
theorem ancestors_eq : t.ancestors i = ((i :: l).take walkLimit).filterMap t.scope? := by
  have inside := way.lt_size
  have at_i : t.scopes[i]? = some t.scopes[i] := Array.getElem?_eq_getElem inside
  have same : t.scopes[i].id = i := rooted.id i _ at_i
  have found : t.ancestors i = t.chainFrom walkLimit i := by
    simp only [ancestors, scope?, at_i, same]
  rw [found, chainFrom_eq way]

/-- Each scope on a way up exists, under its own number. -/
theorem map_id_filterMap {m : List ScopeId} (inside : ∀ j ∈ m, j ∈ i :: l) :
    (m.filterMap t.scope?).map (·.id) = m := by
  induction m with
  | nil => rfl
  | cons j m ih =>
    have exist := (way.mem_iff.mp (inside j List.mem_cons_self)).lt_size_left rooted
    have at_j : t.scope? j = some t.scopes[j] := Array.getElem?_eq_getElem exist
    rw [List.filterMap_cons, at_j, List.map_cons, rooted.id j _ at_j,
      ih fun k mem => inside k (List.mem_cons_of_mem _ mem)]

theorem map_id_ancestors : (t.ancestors i).map (·.id) = (i :: l).take walkLimit := by
  rw [ancestors_eq way rooted]
  exact map_id_filterMap way rooted fun j mem => List.mem_of_mem_take mem

/-- The depth is the number of steps up, as far as a walk goes. -/
theorem depth_eq : t.depth i = min l.length (walkLimit - 1) := by
  have length := congrArg List.length (map_id_ancestors way rooted)
  rw [List.length_map, List.length_take, List.length_cons] at length
  have positive : 0 < walkLimit := by decide
  unfold depth
  omega

/-- The scope found for declarations that leave blocks is the one that they reach, or the global one
when a walk does not go that far. -/
theorem functionScopeOf_eq (h : HoistsTo t.scopes i j) :
    t.functionScopeOf i = if j ∈ (i :: l).take walkLimit then j else globalScope := by
  have inside : j < t.scopes.size := by
    obtain ⟨x, at_j, _⟩ := h.bounds
    exact (Array.getElem?_eq_some_iff.mp at_j).1
  have at_j : t.scope? j = some t.scopes[j] := Array.getElem?_eq_getElem inside
  have found := h.find?_take way walkLimit
  unfold functionScopeOf
  rw [ancestors_eq way rooted, List.find?_filterMap]
  unfold scope? at at_j ⊢
  rw [found]
  by_cases mem : j ∈ (i :: l).take walkLimit
  · rw [if_pos mem, if_pos mem, Option.bind_some, at_j]
    exact rooted.id j _ at_j
  · rw [if_neg mem, if_neg mem, Option.bind_none]

/-- It is the right one exactly when it is global or a walk goes that far. -/
theorem functionScopeOf_eq_iff (h : HoistsTo t.scopes i j) :
    t.functionScopeOf i = j ↔ j = globalScope ∨ j ∈ (i :: l).take walkLimit := by
  rw [functionScopeOf_eq way rooted h]
  split
  · next mem => exact iff_of_true rfl (.inr mem)
  · next further => exact ⟨fun e => .inl e.symm, fun e => (e.resolve_right further).symm⟩

end Tree

end Scoping
