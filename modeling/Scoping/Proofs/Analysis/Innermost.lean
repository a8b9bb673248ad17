import Scoping.Analysis.Query
import Scoping.Proofs.Analysis.Lexical
import Scoping.Proofs.Text.Line

/-!
# The innermost scope at an offset

A cursor touches a scope at both of its ends, so between two scopes that stand side by side it touches
both. The descent from the global scope takes the last child that is touched and never comes back. That
is right for two reasons: what encloses a touched scope is touched too, and all that is inside an
earlier child has lower numbers than what is inside a later one. So the descent comes to the scope with
the highest number of all that are touched (`Tree.descendTo_last`), in any analysis
(`analyze_scopeContaining`).
-/

namespace Scoping

namespace Tree

/-- A cursor at the offset touches the scope. -/
def Touches (t : Tree) (offset : Nat) (i : ScopeId) : Prop :=
  ∃ x, t.scopes[i]? = some x ∧ x.range.contains offset = true

/-- Of the given scopes that a cursor touches, this one has the highest number. -/
structure LastTouched (t : Tree) (offset : Nat) (given : ScopeId → Prop) (i : ScopeId) : Prop where
  isGiven : given i
  touches : t.Touches offset i
  last : ∀ j, given j → t.Touches offset j → j ≤ i

section
variable {t : Tree} {offset p : Nat} {x : Scope} (rooted : Rooted t.scopes)
  (at_p : t.scopes[p]? = some x)
include rooted at_p

theorem not_touches_of_find? {c : Nat} (child : parentIn t.scopes c = some p)
    (none : (x.children.toList.reverse.filterMap t.scope?).find? (·.range.contains offset) = none) :
    ¬ t.Touches offset c := by
  rintro ⟨y, at_c, touches⟩
  have listed := (rooted.mem_children at_p).mpr child
  have mem : y ∈ x.children.toList.reverse.filterMap t.scope? :=
    List.mem_filterMap.mpr ⟨c, List.mem_reverse.mpr listed, at_c⟩
  exact List.find?_eq_none.mp none y mem touches

/-- The child that is found first from behind is the last one touched. -/
theorem lastTouched_of_find? {y : Scope}
    (found : (x.children.toList.reverse.filterMap t.scope?).find? (·.range.contains offset) =
      some y) :
    ∃ c, t.scopes[c]? = some y ∧ t.LastTouched offset (parentIn t.scopes · = some p) c := by
  obtain ⟨touches, later, earlier, split, passed⟩ := List.find?_eq_some_iff_append.mp found
  have listed {z : Scope} {d : Nat} (at_d : t.scopes[d]? = some z)
      (child : parentIn t.scopes d = some p) : z ∈ later ++ y :: earlier := by
    rw [← split]
    exact List.mem_filterMap.mpr
      ⟨d, List.mem_reverse.mpr ((rooted.mem_children at_p).mpr child), at_d⟩
  have mem : y ∈ x.children.toList.reverse.filterMap t.scope? := by
    rw [split]
    exact List.mem_append_right _ List.mem_cons_self
  obtain ⟨c, inside, at_c⟩ := List.mem_filterMap.mp mem
  have child := (rooted.mem_children at_p).mp (List.mem_reverse.mp inside)
  have number {d : Nat} {z : Scope} (at_d : t.scopes[d]? = some z) : z.id = d := rooted.id d z at_d
  have falling : (later ++ y :: earlier).Pairwise fun a b => b.id < a.id := by
    rw [← split, List.pairwise_filterMap, List.pairwise_reverse]
    refine (rooted.pairwise_children at_p).imp fun {d e} less a at_e b at_d => ?_
    rw [number at_e, number at_d]
    exact less
  refine ⟨c, at_c, child, ⟨y, at_c, touches⟩, ?_⟩
  rintro d child' ⟨z, at_d, touches'⟩
  rcases List.mem_append.mp (listed at_d child') with mem | mem
  · have := passed z mem
    rw [touches'] at this
    cases this
  · rcases List.mem_cons.mp mem with rfl | mem
    · exact Nat.le_of_eq ((number at_d).symm.trans (number at_c))
    · have less := (List.pairwise_cons.mp (List.pairwise_append.mp falling).2.1).1 z mem
      rw [number at_d, number at_c] at less
      exact Nat.le_of_lt less

end

/-- The descent comes to the last scope touched of those inside the one where it begins. -/
theorem descendTo_last {t : Tree} {offset i levels : Nat} {x : Scope} (rooted : Rooted t.scopes)
    (contiguous : Contiguous t.scopes)
    (outward : ∀ j k, Encloses t.scopes j k → t.Touches offset k → t.Touches offset j)
    (at_i : t.scopes[i]? = some x) (touches : x.range.contains offset = true)
    (enough : t.scopes.size - i ≤ levels) :
    ∃ j, t.scopes[j]? = some (t.descendTo offset levels x) ∧
      t.LastTouched offset (Encloses t.scopes i) j := by
  have inside : i < t.scopes.size := (Array.getElem?_eq_some_iff.mp at_i).1
  -- On the levels left; every child has a higher number than its parent, so they suffice for it.
  induction levels generalizing i x with
  | zero => omega
  | succ levels ih =>
    unfold descendTo
    split
    · next y found =>
      obtain ⟨c, at_c, child, _, latest⟩ := lastTouched_of_find? rooted at_i found
      have less := rooted.parentIn_lt child
      have within := lt_size_of_parentIn child
      have touches' := List.find?_some (p := fun z : Scope => z.range.contains offset) found
      obtain ⟨j, at_j, below, there, last⟩ := ih at_c touches' (by omega) within
      refine ⟨j, at_j, (Encloses.parent child rooted).trans below, there, fun k around reached => ?_⟩
      by_cases same : i = k
      · rw [← same]
        exact Nat.le_of_lt (Nat.lt_of_lt_of_le less (below.le rooted))
      · obtain ⟨d, child', below'⟩ := around.child same
        have le : d ≤ c := latest d child' (outward d k below' reached)
        rcases Nat.lt_or_eq_of_le le with earlier | rfl
        · exact Nat.le_of_lt (contiguous.lt_of_siblings rooted child' child earlier below' below)
        · exact last k below' reached
    · next none =>
      refine ⟨i, at_i, .self inside, ⟨x, at_i, touches⟩, fun j around touched => ?_⟩
      by_cases same : i = j
      · exact Nat.le_of_eq same.symm
      · -- The child on the way there would be touched.
        obtain ⟨c, child, below⟩ := around.child same
        exact absurd (outward c j below touched) (not_touches_of_find? rooted at_i child none)

end Tree

open Builder

/-- What encloses a scope that is touched is touched. -/
theorem Builder.Walk.touches_outward {c : Context} {s : State} (w : Walk c .start s)
    (formed : c.Formed) (spaced : c.Spaced) {offset i j : Nat}
    (around : Encloses (s.tree c.sourceSize).scopes i j)
    (touches : (s.tree c.sourceSize).Touches offset j) : (s.tree c.sourceSize).Touches offset i := by
  have alike := alike_tree s c.sourceSize
  obtain ⟨y, at_j, touched⟩ := touches
  have inside : i < (s.tree c.sourceSize).scopes.size :=
    around.lt_size_left (alike.rooted w.shaped.rooted)
  have at_i := Array.getElem?_eq_getElem inside
  have covers := Span.covers_iff.mp
    (tree_encloses_covers w formed spaced (alike.encloses_iff.mpr around))
  rw [rangeIn_of_getElem? at_i, rangeIn_of_getElem? at_j] at covers
  have touched := Span.contains_iff.mp touched
  exact ⟨_, at_i, Span.contains_iff.mpr
    ⟨Nat.le_trans covers.1 touched.1, Nat.le_trans touched.2 covers.2⟩⟩

/-- The global scope takes all of the source. -/
theorem treeOf_root {source : String} {options : Options} {t : Tree}
    (h : treeOf source options = .ok t) : t.sourceSize = source.utf8ByteSize ∧
      ∃ x, t.scopes[globalScope]? = some x ∧ x.range = ⟨0, source.utf8ByteSize⟩ := by
  obtain ⟨ts, lexed, made⟩ := treeOf_ok h
  obtain ⟨_, c, s, _, _, _, formed, spaced, w, rfl⟩ := treeOf_walk h
  obtain ⟨x, at_root, range⟩ := (tree_nested w formed spaced).root
  obtain ⟨y, at_root', range'⟩ := ((ofTokens_wellFormed made).2 _ _ lexed).root
  rw [at_root] at at_root'
  cases at_root'
  rw [byteSize_toList] at range'
  exact ⟨congrArg Span.stop (range.symm.trans range'), x, at_root, range'⟩

/-- An offset past the end of the source has no scope. At any other the scope that is found is the one
with the highest number of all that a cursor touches there. -/
theorem analyze_scopeContaining {source : String} {options : Options} {a : Analysis}
    (h : analyze source options = .ok a) (offset : Nat) :
    (a.scopeContaining offset = .error (.offset offset source.utf8ByteSize) ↔
      source.utf8ByteSize < offset) ∧
    (offset ≤ source.utf8ByteSize → ∃ x ∈ a.tree.scopes, a.scopeContaining offset = .ok x ∧
      x.range.contains offset = true ∧
      ∀ y ∈ a.tree.scopes, y.range.contains offset = true → y.id ≤ x.id) := by
  obtain ⟨built, _⟩ := analyze_ok h
  obtain ⟨_, c, s, _, _, _, formed, spaced, w, tree⟩ := treeOf_walk built
  have alike := alike_tree s c.sourceSize
  have rooted := alike.rooted w.shaped.rooted
  have contiguous := alike.contiguous w.shaped.contiguous
  have outward (i j : Nat) : Encloses (s.tree c.sourceSize).scopes i j →
      (s.tree c.sourceSize).Touches offset j → (s.tree c.sourceSize).Touches offset i :=
    w.touches_outward formed spaced
  obtain ⟨size, root, at_root, range⟩ := treeOf_root built
  rw [← tree] at rooted contiguous outward
  have isRoot : a.root = root := by
    rw [Analysis.root, Tree.scope?, at_root, Option.getD_some]
  unfold Analysis.scopeContaining
  rw [size]
  by_cases past : source.utf8ByteSize < offset
  · rw [if_pos past]
    exact ⟨⟨fun _ => past, fun _ => rfl⟩, fun le => absurd past (Nat.not_lt.mpr le)⟩
  · rw [if_neg past]
    refine ⟨⟨fun never => ?_, fun less => absurd less past⟩, fun le => ?_⟩
    · cases never
    have touches : root.range.contains offset = true := by
      rw [range]
      exact Span.contains_iff.mpr ⟨Nat.zero_le _, le⟩
    obtain ⟨i, at_i, _, ⟨x, at_i', touched⟩, last⟩ :=
      Tree.descendTo_last rooted contiguous outward at_root touches (Nat.sub_le _ _)
    rw [isRoot]
    rw [at_i] at at_i'
    cases at_i'
    refine ⟨_, Array.mem_of_getElem? at_i, rfl, touched, fun y mem touched => ?_⟩
    obtain ⟨j, at_j⟩ := Array.mem_iff_getElem?.mp mem
    rw [rooted.id j y at_j, rooted.id i _ at_i]
    exact last j (rooted.encloses (Array.getElem?_eq_some_iff.mp at_j).1) ⟨y, at_j, touched⟩

/-- Where two blocks meet the later one is found. -/
theorem analyze_scopeContaining_between : ∃ a x, analyze "{}{}" Options.standard = .ok a ∧
    a.tree.scopes.map (fun y => (y.id, y.range)) = #[(0, ⟨0, 4⟩), (1, ⟨0, 2⟩), (2, ⟨2, 4⟩)] ∧
      2 ≤ "{}{}".utf8ByteSize ∧ a.scopeContaining 2 = .ok x ∧ x.id = 2 := by
  have made : (analyze "{}{}" Options.standard).toOption.map (fun a =>
      a.tree.scopes.map fun y => (y.id, y.range)) =
        some #[(0, ⟨0, 4⟩), (1, ⟨0, 2⟩), (2, ⟨2, 4⟩)] := by decide +kernel
  obtain ⟨a, ok, scopes⟩ := Option.map_eq_some_iff.mp made
  have h := ok_of_toOption ok
  have le : 2 ≤ "{}{}".utf8ByteSize := by decide
  obtain ⟨x, mem, found, _, last⟩ := (analyze_scopeContaining h 2).2 le
  have most : x.id ≤ 2 := by
    have listed := Array.mem_map_of_mem (f := fun y : Scope => (y.id, y.range)) mem
    rw [scopes] at listed
    simp only [List.mem_toArray, List.mem_cons, Prod.mk.injEq, List.not_mem_nil, or_false] at listed
    rcases listed with ⟨id, _⟩ | ⟨id, _⟩ | ⟨id, _⟩ <;> rw [id] <;> decide
  have later : (2, ⟨2, 4⟩) ∈ a.tree.scopes.map fun y => (y.id, y.range) := by
    rw [scopes]
    simp
  obtain ⟨y, inside, same⟩ := Array.mem_map.mp later
  obtain ⟨second, range⟩ := Prod.mk.inj same
  have least := last y inside (by rw [range]; rfl)
  rw [second] at least
  exact ⟨a, x, h, scopes, le, found, Nat.le_antisymm most least⟩

end Scoping
