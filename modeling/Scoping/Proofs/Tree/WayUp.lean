import Scoping.Proofs.Tree.Shape
import Scoping.Resolve.Memo

/-!
# The way up

A scope and those around it, as a list that ends with the global scope. A way up that is no longer
than a walk may be is what the walk finds, so a name is looked up in the scopes that enclose the
place of its use, and the innermost that declares it decides (`Tree.lookUp_eq_some_iff`). A
declaration that leaves blocks ends up in the scope that `HoistsTo` leads to.
-/

namespace Scoping

/-- The scopes from the head of the list up to the global one. -/
inductive WayUp (scopes : Array Scope) : List ScopeId → Prop
  | root {i : Nat} : parentIn scopes i = none → i < scopes.size → WayUp scopes [i]
  | step {i p : Nat} {l : List ScopeId} : parentIn scopes i = some p → WayUp scopes (p :: l) →
    WayUp scopes (i :: p :: l)

variable {scopes : Array Scope} {i j p : Nat} {l : List ScopeId}

namespace WayUp

/-- On the way up from a scope stand those that enclose it. -/
theorem mem_iff (way : WayUp scopes (j :: l)) : i ∈ j :: l ↔ Encloses scopes i j := by
  generalize e : j :: l = all at way
  induction way generalizing j l with
  | root top inside =>
    cases e
    rw [List.mem_singleton]
    refine ⟨fun same => by subst same; exact .self inside, fun encloses => ?_⟩
    cases encloses with
    | self _ => rfl
    | outer parent _ =>
      rw [top] at parent
      cases parent
  | @step j p l parent way ih =>
    cases e
    rw [List.mem_cons, ih rfl]
    constructor
    · rintro (rfl | outside)
      · exact .self (lt_size_of_parentIn parent)
      · exact .outer parent outside
    · intro encloses
      by_cases same : i = j
      · exact .inl same
      · obtain ⟨q, parent', outside⟩ := encloses.of_ne same
        rw [parent] at parent'
        cases parent'
        exact .inr outside

theorem lt_size (way : WayUp scopes (i :: l)) : i < scopes.size :=
  (way.mem_iff.mp List.mem_cons_self).lt_size

theorem tail (way : WayUp scopes (i :: l)) (h : l ≠ []) : WayUp scopes l := by
  cases way with
  | root _ _ => exact absurd rfl h
  | step _ way => exact way

/-- The scopes further up come earlier. -/
theorem lt_head (way : WayUp scopes (i :: l)) (rooted : Rooted scopes) (h : j ∈ l) : j < i := by
  cases way with
  | root _ _ => cases h
  | step parent way =>
    exact Nat.lt_of_le_of_lt ((way.mem_iff.mp h).le rooted) (rooted.parentIn_lt parent)

theorem mono {a b : Array Scope} (size : a.size ≤ b.size)
    (parents : ∀ j < a.size, parentIn b j = parentIn a j) (way : WayUp a l) : WayUp b l := by
  induction way with
  | root top inside => exact .root ((parents _ inside).trans top) (Nat.lt_of_lt_of_le inside size)
  | step parent _ ih => exact .step ((parents _ (lt_size_of_parentIn parent)).trans parent) ih

end WayUp

/-! ## Where declarations end up -/

/-- The scope `j` is the first on the way up from `i` that bounds a function. -/
inductive HoistsTo (scopes : Array Scope) : ScopeId → ScopeId → Prop
  | here {i : Nat} {x : Scope} : scopes[i]? = some x → x.kind.boundsFunction = true →
    HoistsTo scopes i i
  | out {i j p : Nat} {x : Scope} : scopes[i]? = some x → x.kind.boundsFunction = false →
    x.parent = some p → HoistsTo scopes p j → HoistsTo scopes i j

/-- The first scope that bounds a function is found on the way up. -/
theorem WayUp.hoistsTo {found : ScopeId} (way : WayUp scopes (i :: l))
    (h : (i :: l).find? (fun j => (scopes[j]?).any (·.kind.boundsFunction)) = some found) :
    HoistsTo scopes i found := by
  generalize e : i :: l = all at way
  induction way generalizing i l with
  | @root i _ inside =>
    cases e
    rw [List.find?_singleton, Option.ite_none_right_eq_some] at h
    obtain ⟨bounds, same⟩ := h
    cases same
    obtain ⟨x, at_i, bounds⟩ := (Option.any_eq_true _ _).mp bounds
    exact .here at_i bounds
  | @step i p l parent way ih =>
    cases e
    obtain ⟨x, at_i, parent⟩ := Option.bind_eq_some_iff.mp parent
    rw [List.find?_cons, at_i, Option.any_some] at h
    cases bounds : x.kind.boundsFunction with
    | true =>
      rw [bounds] at h
      cases h
      exact .here at_i bounds
    | false =>
      rw [bounds] at h
      exact .out at_i bounds parent (ih h rfl)

theorem Alike.wayUp {a b : Array Scope} (h : Alike a b) (way : WayUp a l) : WayUp b l :=
  way.mono (Nat.le_of_eq h.size_eq) fun _ _ => by rw [h.parentIn_eq]

theorem Alike.hoistsTo {a b : Array Scope} (h : Alike a b) (reaches : HoistsTo a i j) :
    HoistsTo b i j := by
  have same {i : Nat} {x : Scope} (at_i : a[i]? = some x) :
      ∃ y, b[i]? = some y ∧ y.kind = x.kind ∧ y.parent = x.parent := by
    obtain ⟨y, at_i', same⟩ := Alike.getElem? (Eq.symm h) at_i
    obtain ⟨_, kind, parent, _⟩ := Scope.shape_eq_iff.mp same
    exact ⟨y, at_i', kind, parent⟩
  induction reaches with
  | here at_i bounds =>
    obtain ⟨y, at_i', kind, _⟩ := same at_i
    exact .here at_i' (kind ▸ bounds)
  | out at_i bounds up _ ih =>
    obtain ⟨y, at_i', kind, parent⟩ := same at_i
    exact .out at_i' (kind ▸ bounds) (parent.trans up) ih

/-! ## Looking up -/

/-- What a scope of its own binds a name to. -/
def boundIn (scopes : Array Scope) (i : ScopeId) (name : String) : Option BindingId :=
  (scopes[i]?).bind (·.find? name)

namespace Tree

variable {t : Tree} {steps : Nat} {name : String} {b : BindingId}

/-- What a walk upwards finds first, the way up finds first. -/
theorem findSome?_chainFrom {α : Type} (f : Scope → Option α) (way : WayUp t.scopes (i :: l))
    (enough : l.length < steps) :
    (t.chainFrom steps i).findSome? f = (i :: l).findSome? fun j => (t.scopes[j]?).bind f := by
  generalize e : i :: l = all at way
  induction way generalizing i l steps with
  | @root i top inside =>
    cases e
    obtain ⟨steps, rfl⟩ := Nat.exists_eq_add_of_lt enough
    have at_i : t.scopes[i]? = some t.scopes[i] := Array.getElem?_eq_getElem inside
    rw [parentIn_of_getElem? at_i] at top
    simp only [chainFrom, scope?, at_i, top, List.findSome?_cons, Option.bind_some,
      List.findSome?_nil]
  | @step i p l parent way ih =>
    cases e
    obtain ⟨steps, rfl⟩ := Nat.exists_eq_add_of_lt enough
    obtain ⟨x, at_i, parent⟩ := Option.bind_eq_some_iff.mp parent
    have rest : (t.chainFrom ((p :: l).length + steps) p).findSome? f = _ :=
      ih (by simp only [List.length_cons]; omega) rfl
    simp only [chainFrom, scope?, at_i, parent]
    rw [List.findSome?_cons, List.findSome?_cons, at_i, Option.bind_some, rest]

/-- A name is looked up on the way up, in one scope after the other. -/
theorem lookUp_eq (way : WayUp t.scopes (i :: l)) (enough : l.length < walkLimit)
    (rooted : Rooted t.scopes) :
    t.lookUp i name = (i :: l).findSome? (boundIn t.scopes · name) := by
  have inside := way.lt_size
  have at_i : t.scopes[i]? = some t.scopes[i] := Array.getElem?_eq_getElem inside
  have found : t.ancestors i = t.chainFrom walkLimit i := by
    simp only [ancestors, scope?, at_i, rooted.id i _ at_i]
  rw [lookUp, found, findSome?_chainFrom _ way enough]
  rfl

/-- The first scope on the way up that binds a name is the innermost of those that do. -/
theorem findSome?_boundIn (way : WayUp t.scopes (i :: l)) (rooted : Rooted t.scopes) :
    (i :: l).findSome? (boundIn t.scopes · name) = some b ↔
      ∃ j, Encloses t.scopes j i ∧ boundIn t.scopes j name = some b ∧
        ∀ k, Encloses t.scopes k i → (boundIn t.scopes k name).isSome → Encloses t.scopes k j := by
  generalize e : i :: l = all at way
  induction way generalizing i l with
  | @root i top inside =>
    cases e
    have only {j : Nat} (h : Encloses t.scopes j i) : j = i := by
      simpa using (WayUp.root top inside).mem_iff.mpr h
    rw [List.findSome?_singleton]
    constructor
    · exact fun bound => ⟨i, .self inside, bound, fun k outside _ => outside⟩
    · rintro ⟨j, outside, bound, _⟩
      exact only outside ▸ bound
  | @step i p l parent way ih =>
    cases e
    have self : Encloses t.scopes i i := .self (lt_size_of_parentIn parent)
    rw [List.findSome?_cons]
    cases own : boundIn t.scopes i name with
    | some b' =>
      constructor
      · rintro ⟨⟩
        exact ⟨i, self, own, fun k outside _ => outside⟩
      · rintro ⟨j, outside, bound, innermost⟩
        have inner := innermost i self (by rw [own]; rfl)
        have same := Nat.le_antisymm (outside.le rooted) (inner.le rooted)
        rw [← own, ← same, bound]
    | none =>
      have further {j : Nat} (outside : Encloses t.scopes j i)
          (bound : (boundIn t.scopes j name).isSome) : Encloses t.scopes j p := by
        obtain ⟨q, parent', outside⟩ := outside.of_ne fun same => by simp [same, own] at bound
        rw [parent] at parent'
        cases parent'
        exact outside
      refine (ih rfl).trans ?_
      constructor
      · rintro ⟨j, outside, bound, innermost⟩
        exact ⟨j, .outer parent outside, bound,
          fun k around bound => innermost k (further around bound) bound⟩
      · rintro ⟨j, outside, bound, innermost⟩
        exact ⟨j, further outside (by rw [bound]; rfl), bound,
          fun k around bound => innermost k (.outer parent around) bound⟩

/-- A name means what the innermost scope binds it to of all that enclose its use and bind it. -/
theorem lookUp_eq_some_iff (way : WayUp t.scopes (i :: l)) (enough : l.length < walkLimit)
    (rooted : Rooted t.scopes) :
    t.lookUp i name = some b ↔
      ∃ j, Encloses t.scopes j i ∧ boundIn t.scopes j name = some b ∧
        ∀ k, Encloses t.scopes k i → (boundIn t.scopes k name).isSome → Encloses t.scopes k j := by
  rw [lookUp_eq way enough rooted, findSome?_boundIn way rooted]

/-- A name means nothing when no scope around its use binds it. -/
theorem lookUp_eq_none_iff (way : WayUp t.scopes (i :: l)) (enough : l.length < walkLimit)
    (rooted : Rooted t.scopes) :
    t.lookUp i name = none ↔ ∀ j, Encloses t.scopes j i → boundIn t.scopes j name = none := by
  rw [lookUp_eq way enough rooted, List.findSome?_eq_none_iff]
  exact forall_congr' fun j => by rw [way.mem_iff]

end Tree

end Scoping
