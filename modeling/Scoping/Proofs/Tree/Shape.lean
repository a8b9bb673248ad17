import Scoping.Tree.Walk

/-!
# Shapes of scope trees

Parents alone say which scope stands around which: `Encloses scopes i j` when `i` is `j` or is met
on the way up from it. `Rooted` scopes have their ways up end in the global scope and know their
children, and `Contiguous` ones number everything inside a scope without a gap, as happens when a
scope is closed before the next one beside it is opened. Of such scopes the walk downwards meets
each once, in the order of the numbers (`Tree.preorder_eq_range`).
-/

namespace Scoping

/-- The parent of a scope, if the scope exists and has one. -/
def parentIn (scopes : Array Scope) (i : ScopeId) : Option ScopeId := (scopes[i]?).bind (·.parent)

/-- The scope `i` is `j` or stands around it. -/
inductive Encloses (scopes : Array Scope) : ScopeId → ScopeId → Prop
  | self {i : Nat} : i < scopes.size → Encloses scopes i i
  | outer {i j p : Nat} : parentIn scopes j = some p → Encloses scopes i p → Encloses scopes i j

/-- The scopes are one tree: the first is the global scope, every other one is inside an earlier
one, and each lists those right inside it in their order. -/
structure Rooted (scopes : Array Scope) : Prop where
  root : ∃ x, scopes[globalScope]? = some x ∧ x.kind = .global ∧ x.parent = none
  id : ∀ (i : Nat) (x : Scope), scopes[i]? = some x → x.id = i
  inner : ∀ (i : Nat) (x : Scope), scopes[i]? = some x → i ≠ globalScope →
    x.kind ≠ .global ∧ ∃ p : Nat, x.parent = some p ∧ p < i
  children : ∀ (p : Nat) (x : Scope), scopes[p]? = some x →
    x.children.toList = (List.range scopes.size).filter (parentIn scopes · = some p)

/-- What a scope encloses is numbered without a gap. -/
def Contiguous (scopes : Array Scope) : Prop :=
  ∀ i j k : Nat, i ≤ j → j ≤ k → Encloses scopes i k → Encloses scopes i j

variable {scopes : Array Scope} {i j k p : Nat}

theorem lt_size_of_parentIn (h : parentIn scopes i = some p) : i < scopes.size := by
  obtain ⟨x, at_i, _⟩ := Option.bind_eq_some_iff.mp h
  exact (Array.getElem?_eq_some_iff.mp at_i).1

theorem parentIn_of_getElem? {x : Scope} (h : scopes[i]? = some x) :
    parentIn scopes i = x.parent := by
  rw [parentIn, h, Option.bind_some]

namespace Rooted

variable (rooted : Rooted scopes)
include rooted

theorem size_pos : globalScope < scopes.size := by
  obtain ⟨x, at_root, _⟩ := rooted.root
  exact (Array.getElem?_eq_some_iff.mp at_root).1

theorem parentIn_root : parentIn scopes globalScope = none := by
  obtain ⟨x, at_root, _, parent⟩ := rooted.root
  rw [parentIn_of_getElem? at_root, parent]

theorem ne_root_of_parentIn (h : parentIn scopes i = some p) : i ≠ globalScope := by
  rintro rfl
  rw [rooted.parentIn_root] at h
  cases h

theorem parentIn_lt (h : parentIn scopes i = some p) : p < i := by
  obtain ⟨x, at_i, parent⟩ := Option.bind_eq_some_iff.mp h
  obtain ⟨_, q, parent', less⟩ := rooted.inner i x at_i (rooted.ne_root_of_parentIn h)
  rw [parent] at parent'
  cases parent'
  exact less

/-- Every scope but the global one has a parent. -/
theorem exists_parentIn (h : i < scopes.size) (inner : i ≠ globalScope) :
    ∃ p : Nat, parentIn scopes i = some p := by
  have at_i : scopes[i]? = some scopes[i] := Array.getElem?_eq_getElem h
  obtain ⟨_, p, parent, _⟩ := rooted.inner i _ at_i inner
  exact ⟨p, (parentIn_of_getElem? at_i).trans parent⟩

/-- Only the global scope has no parent. -/
theorem eq_root (top : parentIn scopes i = none) (h : i < scopes.size) : i = globalScope := by
  refine Decidable.byContradiction fun inner => ?_
  obtain ⟨p, parent⟩ := rooted.exists_parentIn h inner
  rw [top] at parent
  cases parent

end Rooted

/-! ## Enclosing -/

namespace Encloses

theorem lt_size (h : Encloses scopes i j) : j < scopes.size := by
  cases h with
  | self inside => exact inside
  | outer parent _ => exact lt_size_of_parentIn parent

theorem trans (h : Encloses scopes i j) (g : Encloses scopes j k) : Encloses scopes i k := by
  induction g with
  | self _ => exact h
  | outer parent _ ih => exact .outer parent ih

theorem le (h : Encloses scopes i j) (rooted : Rooted scopes) : i ≤ j := by
  induction h with
  | self _ => exact Nat.le_refl _
  | outer parent _ ih => exact Nat.le_trans ih (Nat.le_of_lt (rooted.parentIn_lt parent))

theorem lt_size_left (h : Encloses scopes i j) (rooted : Rooted scopes) : i < scopes.size :=
  Nat.lt_of_le_of_lt (h.le rooted) h.lt_size

theorem parent (h : parentIn scopes j = some p) (rooted : Rooted scopes) : Encloses scopes p j :=
  .outer h (.self (Nat.lt_trans (rooted.parentIn_lt h) (lt_size_of_parentIn h)))

/-- What encloses a scope from outside encloses its parent. -/
theorem of_ne (h : Encloses scopes i j) (ne : i ≠ j) :
    ∃ p : Nat, parentIn scopes j = some p ∧ Encloses scopes i p := by
  cases h with
  | self _ => exact absurd rfl ne
  | outer parent inner => exact ⟨_, parent, inner⟩

/-- The next scope on the way down to one that is enclosed. -/
theorem child (h : Encloses scopes i j) (ne : i ≠ j) :
    ∃ c : Nat, parentIn scopes c = some i ∧ Encloses scopes c j := by
  induction h with
  | self _ => exact absurd rfl ne
  | @outer j p parent inner ih =>
    by_cases same : i = p
    · exact ⟨j, same ▸ parent, .self (lt_size_of_parentIn parent)⟩
    · obtain ⟨c, child, below⟩ := ih same
      exact ⟨c, child, .outer parent below⟩

/-- Of two scopes around a third, one encloses the other. -/
theorem total (h : Encloses scopes i k) (g : Encloses scopes j k) :
    Encloses scopes i j ∨ Encloses scopes j i := by
  induction h with
  | self inside => exact .inr g
  | outer parent inner ih =>
    cases g with
    | self _ => exact .inl (.outer parent inner)
    | outer parent' g =>
      rw [parent] at parent'
      cases parent'
      exact ih g

/-- The one with the lower number is outside. -/
theorem of_le (h : Encloses scopes i k) (g : Encloses scopes j k) (rooted : Rooted scopes)
    (less : i ≤ j) : Encloses scopes i j := by
  rcases total h g with outside | inside
  · exact outside
  · rw [Nat.le_antisymm less (inside.le rooted)]
    exact .self (g.lt_size_left rooted)

end Encloses

/-- The global scope stands around all others. -/
theorem Rooted.encloses (rooted : Rooted scopes) (h : i < scopes.size) :
    Encloses scopes globalScope i := by
  induction i using Nat.strongRecOn with
  | _ i ih =>
    by_cases root : i = globalScope
    · exact root ▸ .self h
    · obtain ⟨p, parent⟩ := rooted.exists_parentIn h root
      have less := rooted.parentIn_lt parent
      exact .outer parent (ih p less (Nat.lt_trans less h))

/-! ## The way down -/

theorem Rooted.mem_children {x : Scope} (rooted : Rooted scopes) (h : scopes[p]? = some x) :
    i ∈ x.children.toList ↔ parentIn scopes i = some p := by
  rw [rooted.children p x h, List.mem_filter, List.mem_range]
  simp only [decide_eq_true_eq, and_iff_right_iff_imp]
  exact lt_size_of_parentIn

/-- The children of a scope stand in the order of their numbers. -/
theorem Rooted.pairwise_children {x : Scope} (rooted : Rooted scopes) (h : scopes[p]? = some x) :
    x.children.toList.Pairwise (· < ·) := by
  rw [rooted.children p x h]
  exact List.pairwise_lt_range.filter _

/-- Of two scopes side by side, all of the earlier one comes before all of the later one. -/
theorem Contiguous.lt_of_siblings {l m : Nat} (contiguous : Contiguous scopes)
    (rooted : Rooted scopes) (left : parentIn scopes i = some p) (right : parentIn scopes j = some p)
    (less : i < j) (h : Encloses scopes i l) (g : Encloses scopes j m) : l < m := by
  apply Nat.not_le.mp
  intro notLess
  have inside := contiguous i m l (Nat.le_trans (Nat.le_of_lt less) (g.le rooted)) notLess h
  have around : Encloses scopes i j := inside.of_le g rooted (Nat.le_of_lt less)
  obtain ⟨q, parent, outside⟩ := around.of_ne (Nat.ne_of_lt less)
  rw [right] at parent
  cases parent
  have := outside.le rooted
  have := rooted.parentIn_lt left
  omega

namespace Tree

variable {t : Tree} {levels : Nat}

theorem descendFrom_succ {x : Scope} (h : t.scopes[i]? = some x) :
    t.descendFrom (levels + 1) i = i :: x.children.toList.flatMap (t.descendFrom levels) := by
  simp only [descendFrom, scope?, h]

/-- The walk downwards from a scope meets what the scope encloses. -/
theorem mem_descendFrom (rooted : Rooted t.scopes) (inside : i < t.scopes.size)
    (enough : t.scopes.size - i < levels) :
    j ∈ t.descendFrom levels i ↔ Encloses t.scopes i j := by
  induction levels generalizing i j with
  | zero => omega
  | succ levels ih =>
    have at_i : t.scopes[i]? = some t.scopes[i] := Array.getElem?_eq_getElem inside
    rw [descendFrom_succ at_i, List.mem_cons, List.mem_flatMap]
    have below {c : Nat} (child : parentIn t.scopes c = some i) :
        j ∈ t.descendFrom levels c ↔ Encloses t.scopes c j := by
      have := rooted.parentIn_lt child
      have := lt_size_of_parentIn child
      exact ih (by omega) (by omega)
    constructor
    · rintro (rfl | ⟨c, child, mem⟩)
      · exact .self inside
      · have child := (rooted.mem_children at_i).mp child
        exact (Encloses.parent child rooted).trans ((below child).mp mem)
    · intro encloses
      by_cases same : i = j
      · exact .inl same.symm
      · obtain ⟨c, child, inner⟩ := encloses.child same
        exact .inr ⟨c, (rooted.mem_children at_i).mpr child, (below child).mpr inner⟩

/-- The walk downwards goes through the numbers upwards. -/
theorem pairwise_descendFrom (rooted : Rooted t.scopes) (contiguous : Contiguous t.scopes)
    (inside : i < t.scopes.size) (enough : t.scopes.size - i < levels) :
    (t.descendFrom levels i).Pairwise (· < ·) := by
  induction levels generalizing i with
  | zero => omega
  | succ levels ih =>
    have at_i : t.scopes[i]? = some t.scopes[i] := Array.getElem?_eq_getElem inside
    have below {c : Nat} (child : parentIn t.scopes c = some i) :
        c < t.scopes.size ∧ t.scopes.size - c < levels := by
      have := rooted.parentIn_lt child
      have := lt_size_of_parentIn child
      omega
    have sorted := rooted.pairwise_children at_i
    rw [descendFrom_succ at_i, List.pairwise_cons, List.pairwise_flatMap]
    refine ⟨fun j mem => ?_, fun c mem => ?_, ?_⟩
    · obtain ⟨c, child, mem⟩ := List.mem_flatMap.mp mem
      have child := (rooted.mem_children at_i).mp child
      have encloses := (mem_descendFrom rooted (below child).1 (below child).2).mp mem
      exact Nat.lt_of_lt_of_le (rooted.parentIn_lt child) (encloses.le rooted)
    · have child := (rooted.mem_children at_i).mp mem
      exact ih (below child).1 (below child).2
    · refine sorted.imp_of_mem fun {c d} left right less l hl m hm => ?_
      have left := (rooted.mem_children at_i).mp left
      have right := (rooted.mem_children at_i).mp right
      exact contiguous.lt_of_siblings rooted left right less
        ((mem_descendFrom rooted (below left).1 (below left).2).mp hl)
        ((mem_descendFrom rooted (below right).1 (below right).2).mp hm)

/-- The walk downwards meets every scope once, in the order of the numbers. -/
theorem preorder_eq_range (rooted : Rooted t.scopes) (contiguous : Contiguous t.scopes) :
    t.preorder = List.range t.scopes.size := by
  have inside := rooted.size_pos
  have enough : t.scopes.size - globalScope < t.scopes.size + 1 := by omega
  have notEmpty : t.scopes.isEmpty = false := by
    cases e : t.scopes.isEmpty with
    | false => rfl
    | true =>
      rw [Array.isEmpty_iff_size_eq_zero.mp e] at inside
      cases inside
  have sorted := pairwise_descendFrom rooted contiguous inside enough
  rw [preorder, notEmpty]
  simp only [Bool.false_eq_true, ↓reduceIte]
  refine List.Perm.eq_of_pairwise (fun i j _ _ less more => absurd more (Nat.lt_asymm less))
    sorted List.pairwise_lt_range ?_
  rw [List.perm_ext_iff_of_nodup (sorted.imp Nat.ne_of_lt) List.nodup_range]
  intro i
  rw [mem_descendFrom rooted inside enough, List.mem_range]
  exact ⟨Encloses.lt_size, rooted.encloses⟩

end Tree

/-! ## Changes that leave shapes alone -/

/-- The part of a scope that its tree is made of. -/
def Scope.shape (x : Scope) : ScopeId × ScopeKind × Option ScopeId × Array ScopeId :=
  (x.id, x.kind, x.parent, x.children)

theorem Scope.shape_eq_iff {x y : Scope} : y.shape = x.shape ↔
    y.id = x.id ∧ y.kind = x.kind ∧ y.parent = x.parent ∧ y.children = x.children := by
  simp only [shape, Prod.mk.injEq]

/-- The scopes differ in labels, names and ranges at most. -/
def Alike (a b : Array Scope) : Prop := a.map Scope.shape = b.map Scope.shape

theorem alike_modify {f : Scope → Scope} (same : ∀ x, (f x).shape = x.shape) (i : Nat) :
    Alike scopes (scopes.modify i f) := by
  apply Array.ext_getElem?
  intro j
  rw [Array.getElem?_map, Array.getElem?_map, Array.getElem?_modify]
  split
  · rw [Option.map_map]
    exact congrArg (fun g => Option.map g scopes[j]?) (funext fun x => (same x).symm)
  · rfl

namespace Alike

variable {a b : Array Scope}

theorem size_eq (h : Alike a b) : a.size = b.size := by
  simpa using congrArg Array.size h

theorem getElem? (h : Alike a b) {x : Scope} (at_i : b[i]? = some x) :
    ∃ y, a[i]? = some y ∧ y.shape = x.shape := by
  have same : (a.map Scope.shape)[i]? = (b.map Scope.shape)[i]? := by rw [h]
  rw [Array.getElem?_map, Array.getElem?_map, at_i] at same
  obtain ⟨y, at_i, same⟩ := Option.map_eq_some_iff.mp same
  exact ⟨y, at_i, same⟩

theorem parentIn_eq (h : Alike a b) : parentIn a = parentIn b := by
  funext i
  unfold parentIn
  cases at_i : b[i]? with
  | none =>
    have := h.size_eq
    rw [Array.getElem?_eq_none_iff] at at_i
    rw [Array.getElem?_eq_none (by omega)]
  | some x =>
    obtain ⟨y, at_i, same⟩ := h.getElem? at_i
    rw [at_i]
    exact (Scope.shape_eq_iff.mp same).2.2.1

theorem encloses (h : Alike a b) (encloses : Encloses a i j) : Encloses b i j := by
  induction encloses with
  | self inside => exact .self (h.size_eq ▸ inside)
  | outer parent _ ih => exact .outer (h.parentIn_eq ▸ parent) ih

theorem encloses_iff (h : Alike a b) : Encloses a i j ↔ Encloses b i j :=
  ⟨h.encloses, Alike.encloses (Eq.symm h)⟩

theorem contiguous (h : Alike a b) (contiguous : Contiguous a) : Contiguous b :=
  fun i j k ij jk outside => h.encloses (contiguous i j k ij jk (h.encloses_iff.mpr outside))

theorem rooted (h : Alike a b) (rooted : Rooted a) : Rooted b where
  root := by
    obtain ⟨x, at_root, kind, parent⟩ := rooted.root
    obtain ⟨y, at_root, same⟩ := Alike.getElem? (Eq.symm h) at_root
    obtain ⟨_, kind', parent', _⟩ := Scope.shape_eq_iff.mp same
    exact ⟨y, at_root, kind'.trans kind, parent'.trans parent⟩
  id i x at_i := by
    obtain ⟨y, at_i, same⟩ := h.getElem? at_i
    exact (Scope.shape_eq_iff.mp same).1.symm.trans (rooted.id i y at_i)
  inner i x at_i inner := by
    obtain ⟨y, at_i, same⟩ := h.getElem? at_i
    obtain ⟨_, kind, parent, _⟩ := Scope.shape_eq_iff.mp same
    rw [← kind, ← parent]
    exact rooted.inner i y at_i inner
  children p x at_p := by
    obtain ⟨y, at_p, same⟩ := h.getElem? at_p
    obtain ⟨_, _, _, children⟩ := Scope.shape_eq_iff.mp same
    rw [← children, ← h.size_eq, ← h.parentIn_eq]
    exact rooted.children p y at_p

end Alike

/-- A way up that exists in some scopes exists in more. -/
theorem Encloses.mono {a b : Array Scope} (size : a.size ≤ b.size)
    (parents : ∀ j p : Nat, parentIn a j = some p → parentIn b j = some p)
    (h : Encloses a i j) : Encloses b i j := by
  induction h with
  | self inside => exact .self (Nat.lt_of_lt_of_le inside size)
  | outer parent _ ih => exact .outer (parents _ _ parent) ih

/-- New scopes stand around no old one. -/
theorem Encloses.of_grown {a b : Array Scope} (rooted : Rooted a)
    (parents : ∀ j < a.size, parentIn b j = parentIn a j)
    (inside : j < a.size) (h : Encloses b i j) : Encloses a i j := by
  induction h with
  | self _ => exact .self inside
  | outer parent _ ih =>
    rw [parents _ inside] at parent
    exact .outer parent (ih (Nat.lt_trans (rooted.parentIn_lt parent) inside))

end Scoping
