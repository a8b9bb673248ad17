import Mathlib.Data.List.Nodup
import Mathlib.Data.List.Perm.Basic
import Scoping.Analysis.Report
import Scoping.Proofs.Analysis.Site

/-!
# Reports tell all

A report unrolls an analysis scope by scope, and picks what belongs to each out of lists of the whole
source. Nothing is lost and nothing is told twice (`Analysis.Reported`): the reports of the scopes, in
pre-order, are the scopes (`Analysis.Regular.map_alone_preorder`), and what is picked by the scope or
by the binding that it belongs to is, put together again, the whole list (`flatMap_filter_perm`).
-/

namespace Scoping

/-! ## Lists put together from their parts -/

section
variable {α β κ : Type} [BEq κ] [LawfulBEq κ]

/-- What is picked out of a list by one owner after the other is the whole list, where each element
has one owner. -/
theorem flatMap_filter_perm {key : α → κ} {f : β → κ} {owners : List β} {l : List α}
    (nodup : (owners.map f).Nodup) (all : ∀ x ∈ l, ∃ y ∈ owners, f y = key x) :
    (owners.flatMap fun y => l.filter (key · == f y)).Perm l := by
  induction owners generalizing l with
  | nil =>
    cases l with
    | nil => exact .nil
    | cons x l =>
      obtain ⟨y, mem, _⟩ := all x List.mem_cons_self
      cases mem
  | cons y owners ih =>
    obtain ⟨new, nodup⟩ := List.nodup_cons.mp nodup
    -- The other owners pick from what the first has left.
    have others : (owners.flatMap fun z => l.filter (key · == f z)) =
        owners.flatMap fun z => (l.filter (!key · == f y)).filter (key · == f z) := by
      apply List.flatMap_congr
      intro z mem
      rw [List.filter_filter]
      apply List.filter_congr
      intro x _
      by_cases same : key x = f z
      · have other : f z ≠ f y := fun equal => new (equal ▸ List.mem_map_of_mem mem)
        simp [same, other]
      · simp [same]
    rw [List.flatMap_cons, others]
    have rest : (owners.flatMap fun z => (l.filter (!key · == f y)).filter (key · == f z)).Perm
        (l.filter (!key · == f y)) := by
      apply ih nodup
      intro x mem
      obtain ⟨mem, other⟩ := List.mem_filter.mp mem
      obtain ⟨z, listed, owns⟩ := all x mem
      rcases List.mem_cons.mp listed with rfl | listed
      · simp [owns] at other
      · exact ⟨z, listed, owns⟩
    exact (rest.append_left _).trans (List.filter_append_perm (key · == f y) l)

end

theorem filterMap_getElem?_range {α : Type} (l : List α) :
    (List.range l.length).filterMap (l[·]?) = l := by
  induction l with
  | nil => rfl
  | cons x l ih =>
    rw [List.length_cons, List.range_succ_eq_map, List.filterMap_cons, List.filterMap_map]
    simp only [List.getElem?_cons_zero, Function.comp_def, Nat.succ_eq_add_one,
      List.getElem?_cons_succ, ih]

/-- Where each thing is numbered by its place, the numbers go upwards from zero. -/
theorem map_toList_eq_range {α : Type} {xs : Array α} {f : α → Nat}
    (h : ∀ (i : Nat) (x : α), xs[i]? = some x → f x = i) : xs.toList.map f = List.range xs.size := by
  apply List.ext_getElem
  · simp
  · intro i left right
    have inside : i < xs.size := by simpa using right
    rw [List.getElem_map, Array.getElem_toList, List.getElem_range]
    exact h i _ (Array.getElem?_eq_getElem inside)

/-- In a list without repeated names each name leads to the binding that stands beside it. -/
theorem Declarations.find?_of_mem {ds : Declarations} {name : String} {b : BindingId}
    (names : (ds.toList.map (·.1)).Nodup) (mem : (name, b) ∈ ds) : ds.find? name = some b := by
  cases found : ds.find? name with
  | none =>
    have absent := Declarations.find?_eq_none_iff.mp found
    exact absurd (List.mem_map_of_mem (Array.mem_toList_iff.mpr mem)) absent
  | some b' =>
    have mem' := Array.mem_toList_iff.mpr (Builder.mem_of_find? found)
    have same := List.inj_on_of_nodup_map names mem' (Array.mem_toList_iff.mpr mem) rfl
    rw [(Prod.mk.inj same).2]

/-! ## Reports in pre-order -/

namespace ScopeReport

def id : ScopeReport → ScopeId
  | .mk id _ _ _ _ _ _ => id

def kind : ScopeReport → ScopeKind
  | .mk _ kind _ _ _ _ _ => kind

def label : ScopeReport → String
  | .mk _ _ label _ _ _ _ => label

def range : ScopeReport → SourceRange
  | .mk _ _ _ range _ _ _ => range

def declared : ScopeReport → List VariableReport
  | .mk _ _ _ _ declared _ _ => declared

def unresolved : ScopeReport → List UnresolvedReport
  | .mk _ _ _ _ _ unresolved _ => unresolved

/-- The report without those of the scopes inside. -/
def alone : ScopeReport → ScopeReport
  | .mk id kind label range declared unresolved _ =>
    .mk id kind label range declared unresolved []

mutual
/-- A report, and then those of the scopes inside. -/
def preorder : ScopeReport → List ScopeReport
  | .mk id kind label range declared unresolved children =>
    .mk id kind label range declared unresolved children :: listPreorder children
/-- The reports of a list of scopes, each before those of the scopes inside. -/
def listPreorder : List ScopeReport → List ScopeReport
  | [] => []
  | r :: rs => r.preorder ++ listPreorder rs
end

/-- Every range that the report itself gives. -/
def ranges (r : ScopeReport) : List SourceRange :=
  r.range :: (r.declared.flatMap fun v => v.declaredAt :: v.occurrences) ++
    r.unresolved.map (·.range)

theorem ranges_alone (r : ScopeReport) : r.alone.ranges = r.ranges := by
  cases r
  rfl

end ScopeReport

namespace Analysis

/-- A report tells what an analysis holds: each scope, in the order of their numbers; under it each
binding that it owns; under the binding each occurrence that means it, and under the scope each
occurrence in it that means nothing. -/
structure Reported (a : Analysis) (r : ScopeReport) : Prop where
  ids : r.preorder.map (·.id) = List.range a.tree.scopes.size
  scopes : r.preorder.map (fun r => (r.id, r.kind, r.label, r.range)) =
    a.tree.scopes.toList.map fun s => (s.id, s.kind, s.label, a.range s.range)
  bindings : (r.preorder.flatMap fun r => r.declared.map (·.id)).Perm
    (List.range a.tree.bindings.size)
  owners : (r.preorder.flatMap fun r =>
      r.declared.map fun v => (r.id, v.id, v.name, v.kind, v.declaredAt)).Perm
    (a.tree.bindings.toList.map fun b => (b.scope, b.id, b.name, b.kind, a.range b.declaredAt))
  uses : (r.preorder.flatMap fun r => r.declared.flatMap fun v =>
      v.occurrences.map fun range => (some v.id, v.name, range)).Perm
    ((a.bound.occurrences.toList.filter (·.isResolved)).map fun o =>
      (o.resolved, o.name, a.range o.span))
  free : (r.preorder.flatMap fun r => r.unresolved.map fun u => (r.id, u.name, u.range)).Perm
    ((a.bound.occurrences.toList.filter (!·.isResolved)).map fun o =>
      (o.scope, o.name, a.range o.span))
  /-- No two occurrences have one span, so each is told once. -/
  apart : (a.bound.occurrences.toList.map (·.span)).Nodup
  ranges : ∀ node ∈ r.preorder, ∀ range ∈ node.ranges,
    range = (LineMap.ofSource a.source).range range.span ∧
      ¬ range.endPosition.Before range.startPosition

namespace Regular

variable {a : Analysis} (regular : a.Regular)
include regular

/-! ## The scopes -/

/-- In pre-order a report goes through the scopes that a walk downwards meets. -/
theorem preorder_reportFrom {s : Scope} (here : a.tree.scope? s.id = some s) (levels : Nat) :
    (a.reportFrom levels s).preorder.map ScopeReport.alone =
      ((a.tree.descendFrom (levels + 1) s.id).filterMap a.tree.scope?).map (a.reportFrom 0) := by
  induction levels generalizing s with
  | zero =>
    have single : a.tree.descendFrom 1 s.id = [s.id] := by
      simp only [Tree.descendFrom, here]
      simp
    rw [single, List.filterMap_cons, here]
    rfl
  | succ levels ih =>
    have below (cs : List ScopeId) :
        (ScopeReport.listPreorder ((cs.filterMap a.tree.scope?).map (a.reportFrom levels))).map
          ScopeReport.alone =
        ((cs.flatMap (a.tree.descendFrom (levels + 1))).filterMap a.tree.scope?).map
          (a.reportFrom 0) := by
      induction cs with
      | nil => rfl
      | cons c cs rest =>
        rw [List.flatMap_cons, List.filterMap_append, List.map_append, ← rest]
        cases at_c : a.tree.scope? c with
        | none =>
          have nothing : a.tree.descendFrom (levels + 1) c = [c] := by
            simp only [Tree.descendFrom, at_c]
          rw [nothing, List.filterMap_cons, List.filterMap_cons, at_c]
          rfl
        | some x =>
          obtain rfl : x.id = c := regular.scopes.id c x at_c
          rw [List.filterMap_cons, at_c, List.map_cons, ScopeReport.listPreorder, List.map_append,
            ih at_c]
    have deeper : a.tree.descendFrom (levels + 2) s.id =
        s.id :: s.children.toList.flatMap (a.tree.descendFrom (levels + 1)) := by
      rw [Tree.descendFrom, here]
    rw [deeper, List.filterMap_cons, here, List.map_cons, ← below]
    rfl

/-- The outermost scope is one of the tree, and none is around it. -/
theorem root_here : a.tree.scope? a.root.id = some a.root ∧ a.root.parent = none := by
  obtain ⟨x, at_root, _, parent⟩ := regular.scopes.root
  have id := regular.scopes.id _ x at_root
  have root : a.root = x := by
    rw [root, Tree.scope?, at_root, Option.getD_some]
  rw [root, id]
  exact ⟨at_root, parent⟩

/-- A walk downwards from the outermost scope meets the scopes in the order of their numbers. -/
theorem descendFrom_root : (a.tree.descendFrom (a.tree.scopes.size + 1) a.root.id).filterMap
    a.tree.scope? = a.tree.scopes.toList := by
  obtain ⟨x, at_root, _⟩ := regular.scopes.root
  have root : a.root.id = globalScope := by
    rw [root, Tree.scope?, at_root, Option.getD_some]
    exact regular.scopes.id _ x at_root
  have some : a.tree.scopes.isEmpty = false := by
    have inside := (Array.getElem?_eq_some_iff.mp at_root).1
    rw [Array.isEmpty_eq_false_iff]
    rintro none
    rw [none] at inside
    cases inside
  have order := regular.scopes.preorder
  rw [Tree.preorder, some] at order
  simp only [Bool.false_eq_true, ↓reduceIte] at order
  have found (i : Nat) : a.tree.scope? i = a.tree.scopes.toList[i]? := Array.getElem?_toList.symm
  rw [root, order, funext found, ← Array.length_toList, filterMap_getElem?_range]

/-- The reports of all scopes are, in pre-order, the scopes in the order of their numbers. -/
theorem map_alone_preorder :
    a.report.preorder.map ScopeReport.alone = a.tree.scopes.toList.map (a.reportFrom 0) := by
  rw [report, regular.preorder_reportFrom regular.root_here.1, regular.descendFrom_root]

/-- What is read off the reports of all scopes is read off the scopes, where it does not depend on
the reports of those inside. -/
theorem map_preorder {α : Type} {f : ScopeReport → α} (alone : ∀ r, f r.alone = f r) :
    a.report.preorder.map f = a.tree.scopes.toList.map fun s => f (a.reportFrom 0 s) := by
  calc a.report.preorder.map f
      = (a.report.preorder.map ScopeReport.alone).map f := by
        rw [List.map_map]
        exact List.map_congr_left fun r _ => (alone r).symm
    _ = a.tree.scopes.toList.map fun s => f (a.reportFrom 0 s) := by
        rw [regular.map_alone_preorder, List.map_map]
        rfl

theorem flatMap_preorder {α : Type} {f : ScopeReport → List α} (alone : ∀ r, f r.alone = f r) :
    a.report.preorder.flatMap f = a.tree.scopes.toList.flatMap fun s => f (a.reportFrom 0 s) := by
  rw [List.flatMap_def, List.flatMap_def, regular.map_preorder alone]

/-! ## The bindings of the scopes -/

/-- A scope lists the bindings that it owns. -/
theorem mem_bindingsOf_iff {s : Scope} (mem : s ∈ a.tree.scopes) {b : Binding} :
    b ∈ a.bindingsOf s ↔ b ∈ a.tree.bindings ∧ b.scope = s.id := by
  obtain ⟨i, at_i⟩ := Array.mem_iff_getElem?.mp mem
  have id := regular.scopes.id i s at_i
  unfold bindingsOf
  rw [List.mem_filterMap]
  constructor
  · rintro ⟨k, listed, at_k⟩
    obtain ⟨name, declares⟩ := Declarations.exists_mem_of_mem_ids listed
    have bound : s.find? name = some k :=
      Declarations.find?_of_mem (regular.tabled.names s mem) declares
    obtain ⟨x, at_x, _, owner⟩ := regular.tabled.declared s mem name k bound
    have same : x = b := Option.some.inj (at_x.symm.trans at_k)
    exact ⟨Array.mem_of_getElem? at_k, same ▸ owner⟩
  · rintro ⟨known, owner⟩
    obtain ⟨s', at_owner, bound⟩ := regular.tabled.found b known
    rw [owner, id, at_i] at at_owner
    cases at_owner
    have listed := List.mem_map_of_mem (f := (·.2))
      (Array.mem_toList_iff.mpr (Builder.mem_of_find? bound))
    exact ⟨b.id, listed, regular.binding?_id known⟩

theorem map_id_scopes : a.tree.scopes.toList.map (·.id) = List.range a.tree.scopes.size :=
  map_toList_eq_range regular.scopes.id

theorem map_id_bindings : a.tree.bindings.toList.map (·.id) = List.range a.tree.bindings.size :=
  map_toList_eq_range regular.tabled.id

theorem bindingsOf_perm {s : Scope} (mem : s ∈ a.tree.scopes) :
    (a.bindingsOf s).Perm (a.tree.bindings.toList.filter (·.scope == s.id)) := by
  have nodup : a.tree.bindings.toList.Nodup :=
    .of_map (·.id) (regular.map_id_bindings ▸ List.nodup_range)
  have nodup' : (a.bindingsOf s).Nodup := by
    apply List.Nodup.filterMap _ ((regular.tabled.ordered s mem).imp Nat.ne_of_lt)
    intro i j b at_i at_j
    rw [← regular.tabled.id i b at_i, regular.tabled.id j b at_j]
  apply (List.perm_ext_iff_of_nodup nodup' (nodup.filter _)).mpr
  intro b
  rw [regular.mem_bindingsOf_iff mem, List.mem_filter, Array.mem_toList_iff, beq_iff_eq]

/-- The bindings of all scopes are all bindings. -/
theorem flatMap_bindingsOf :
    (a.tree.scopes.toList.flatMap a.bindingsOf).Perm a.tree.bindings.toList := by
  have each : (a.tree.scopes.toList.flatMap a.bindingsOf).Perm
      (a.tree.scopes.toList.flatMap fun s => a.tree.bindings.toList.filter (·.scope == s.id)) := by
    apply List.Perm.flatMap_left
    intro s mem
    exact regular.bindingsOf_perm (Array.mem_toList_iff.mp mem)
  apply each.trans (flatMap_filter_perm (regular.map_id_scopes ▸ List.nodup_range) _)
  intro b mem
  obtain ⟨s, at_owner, _⟩ := regular.tabled.found b (Array.mem_toList_iff.mp mem)
  exact ⟨s, Array.mem_toList_iff.mpr (Array.mem_of_getElem? at_owner),
    regular.scopes.id _ s at_owner⟩

/-! ## The occurrences -/

/-- The occurrences that mean some binding, binding by binding. -/
theorem flatMap_resolvedTo :
    (a.tree.bindings.toList.flatMap fun b => a.bound.resolvedTo b.id).Perm
      (a.bound.occurrences.toList.filter (·.isResolved)) := by
  have picked (b : Binding) : a.bound.resolvedTo b.id =
      (a.bound.occurrences.toList.filter (·.isResolved)).filter (·.resolved == some b.id) := by
    rw [List.filter_filter]
    apply List.filter_congr
    intro o _
    cases resolved : o.resolved <;> simp [Occurrence.isResolved, resolved]
  have nodup : (a.tree.bindings.toList.map fun b => some b.id).Nodup := by
    apply List.Nodup.of_map (·.getD 0)
    rw [List.map_map]
    exact regular.map_id_bindings ▸ List.nodup_range
  simp only [picked]
  apply flatMap_filter_perm nodup
  intro o mem
  obtain ⟨mem, isResolved⟩ := List.mem_filter.mp mem
  obtain ⟨id, resolved⟩ := Option.isSome_iff_exists.mp isResolved
  obtain ⟨b, at_id, _, same⟩ := regular.exists_binding (Array.mem_toList_iff.mp mem) resolved
  exact ⟨b, Array.mem_toList_iff.mpr (Array.mem_of_getElem? at_id), by rw [same, resolved]⟩

/-- The occurrences that mean nothing, scope by scope. -/
theorem flatMap_unresolved :
    (a.tree.scopes.toList.flatMap fun s => a.unresolved.filter (·.scope == s.id)).Perm
      a.unresolved := by
  apply flatMap_filter_perm (regular.map_id_scopes ▸ List.nodup_range)
  intro o mem
  have mem := Array.mem_toList_iff.mp (List.mem_filter.mp mem).1
  rw [regular.bound] at mem
  obtain ⟨r, used, _, rfl⟩ := Tree.exists_of_mem_occurrences mem
  have inside := regular.inside r used
  exact ⟨a.tree.scopes[r.scope], Array.mem_toList_iff.mpr (Array.getElem_mem inside),
    regular.scopes.id _ _ (Array.getElem?_eq_getElem inside)⟩

/-- The report of a binding gives the places of the occurrences that mean it. -/
theorem occurrences_variableReport {b : Binding} (mem : b ∈ a.tree.bindings) :
    (a.variableReport b).occurrences = (a.bound.resolvedTo b.id).map fun o => a.range o.span := by
  obtain ⟨indexed, inside⟩ := regular.indexed mem
  have found := indexed.filterMap_usesOf? inside
  rw [indexed.usesOf? inside, Option.getD_some] at found
  unfold variableReport occurrencesOf
  rw [indexed.usesOf? inside]
  dsimp only
  rw [found]

/-! ## The ranges -/

/-- A range that cuts no character and does not run backwards. -/
theorem range_ordered {span : Span} (start : Boundary a.source.toList span.start)
    (stop : Boundary a.source.toList span.stop) (le : span.start ≤ span.stop) :
    a.range span = (LineMap.ofSource a.source).range span ∧
      ¬ (a.range span).endPosition.Before (a.range span).startPosition := by
  rw [range, regular.lines]
  refine ⟨rfl, ?_⟩
  show ¬ ((LineMap.ofSource a.source).position span.stop).Before
    ((LineMap.ofSource a.source).position span.start)
  rcases Nat.lt_or_eq_of_le le with less | same
  · exact (LineMap.position_before start stop less).asymm
  · rw [same]
    exact Position.not_before_self _

/-- Each range of a scope's report is one of the analysis. -/
theorem ranges_reportFrom {s : Scope} (mem : s ∈ a.tree.scopes) {range : SourceRange}
    (told : range ∈ (a.reportFrom 0 s).ranges) : range = a.range s.range ∨
      ∃ r ∈ a.tree.recorded, range = a.range r.2 := by
  have used {o : Occurrence} (mem : o ∈ a.bound.occurrences) :
      ∃ r ∈ a.tree.recorded, a.range o.span = a.range r.2 := by
    rw [regular.bound] at mem
    obtain ⟨r, used, _, rfl⟩ := Tree.exists_of_mem_occurrences mem
    exact ⟨(r.name, r.span), List.mem_append_left _ (List.mem_map_of_mem
      (Array.mem_toList_iff.mpr used)), rfl⟩
  rcases List.mem_append.mp told with told | told
  · rcases List.mem_cons.mp told with rfl | told
    · exact .inl rfl
    · right
      obtain ⟨v, listed, told⟩ := List.mem_flatMap.mp told
      obtain ⟨b, inScope, rfl⟩ := List.mem_map.mp listed
      have known := ((regular.mem_bindingsOf_iff mem).mp inScope).1
      rcases List.mem_cons.mp told with rfl | told
      · refine ⟨(b.name, b.declaredAt), List.mem_append_right _ ?_, rfl⟩
        apply List.mem_flatMap.mpr
        refine ⟨b, Array.mem_toList_iff.mpr known, List.mem_map_of_mem ?_⟩
        exact List.mem_append_right _ (List.mem_singleton_self _)
      · rw [regular.occurrences_variableReport known] at told
        obtain ⟨o, means, rfl⟩ := List.mem_map.mp told
        exact used (Array.mem_toList_iff.mp (List.mem_filter.mp means).1)
  · right
    obtain ⟨u, listed, rfl⟩ := List.mem_map.mp told
    obtain ⟨o, free, rfl⟩ := List.mem_map.mp listed
    have free := (List.mem_filter.mp free).1
    exact used (Array.mem_toList_iff.mp (List.mem_filter.mp free).1)

/-- Every scope's range runs forwards. -/
theorem range_le {s : Scope} (mem : s ∈ a.tree.scopes) : s.range.start ≤ s.range.stop := by
  obtain ⟨i, at_i⟩ := Array.mem_iff_getElem?.mp mem
  by_cases root : i = globalScope
  · obtain ⟨x, at_root, range⟩ := regular.nested.root
    rw [root, at_root] at at_i
    cases at_i
    rw [range]
    exact Nat.zero_le _
  · exact Nat.le_of_lt (regular.nested.wide i s at_i root)

/-! ## The whole -/

/-- What is told of the bindings of each scope is told of all bindings. -/
theorem flatMap_declared {α : Type} {f : ScopeId → VariableReport → List α} :
    (a.report.preorder.flatMap fun r => r.declared.flatMap (f r.id)).Perm
      (a.tree.bindings.toList.flatMap fun b => f b.scope (a.variableReport b)) := by
  have owned : (a.report.preorder.flatMap fun r => r.declared.flatMap (f r.id)) =
      (a.tree.scopes.toList.flatMap a.bindingsOf).flatMap fun b =>
        f b.scope (a.variableReport b) := by
    rw [regular.flatMap_preorder (by rintro ⟨⟩; rfl), List.flatMap_assoc]
    apply List.flatMap_congr
    intro s mem
    show ((a.bindingsOf s).map a.variableReport).flatMap (f s.id) = _
    rw [List.flatMap_map]
    apply List.flatMap_congr
    intro b inScope
    rw [((regular.mem_bindingsOf_iff (Array.mem_toList_iff.mp mem)).mp inScope).2]
  rw [owned]
  exact regular.flatMap_bindingsOf.flatMap_right _

theorem reported : a.Reported a.report := by
  constructor
  case ids =>
    rw [regular.map_preorder (by rintro ⟨⟩; rfl)]
    exact regular.map_id_scopes
  case scopes => exact regular.map_preorder (by rintro ⟨⟩; rfl)
  case bindings =>
    rw [← regular.map_id_bindings, List.map_eq_flatMap]
    simp only [List.map_eq_flatMap]
    exact regular.flatMap_declared (f := fun _ v => [v.id])
  case owners =>
    simp only [List.map_eq_flatMap]
    exact regular.flatMap_declared (f := fun owner v => [(owner, v.id, v.name, v.kind, v.declaredAt)])
  case uses =>
    apply (regular.flatMap_declared
      (f := fun _ v => v.occurrences.map fun range => (some v.id, v.name, range))).trans
    apply List.Perm.trans _ (regular.flatMap_resolvedTo.map _)
    rw [List.map_flatMap]
    apply List.Perm.of_eq
    apply List.flatMap_congr
    intro b mem
    have mem := Array.mem_toList_iff.mp mem
    rw [regular.occurrences_variableReport mem, List.map_map]
    apply List.map_congr_left
    intro o means
    obtain ⟨used, resolved⟩ := List.mem_filter.mp means
    have resolved := eq_of_beq resolved
    rw [resolved, regular.name_of_resolved (Array.mem_toList_iff.mp used) mem resolved]
    rfl
  case free =>
    rw [regular.flatMap_preorder (by rintro ⟨⟩; rfl)]
    apply List.Perm.trans _ (regular.flatMap_unresolved.map _)
    rw [List.map_flatMap]
    apply List.Perm.of_eq
    apply List.flatMap_congr
    intro s _
    show ((a.unresolved.filter (·.scope == s.id)).map a.unresolvedReport).map _ = _
    rw [List.map_map]
    apply List.map_congr_left
    intro o mem
    rw [eq_of_beq (List.mem_filter.mp mem).2]
    rfl
  case apart =>
    rw [regular.map_span_occurrences]
    apply List.pairwise_map.mpr
    apply regular.ordered.imp
    intro r q less same
    rw [same] at less
    exact Nat.lt_irrefl _ less
  case ranges =>
    intro node mem range told
    have alone : node.alone ∈ a.tree.scopes.toList.map (a.reportFrom 0) := by
      rw [← regular.map_alone_preorder]
      exact List.mem_map_of_mem mem
    obtain ⟨s, inside, same⟩ := List.mem_map.mp alone
    rw [← node.ranges_alone, ← same] at told
    have inside := Array.mem_toList_iff.mp inside
    rcases regular.ranges_reportFrom inside told with rfl | ⟨r, recorded, rfl⟩
    · obtain ⟨start, stop⟩ := regular.rangesCut s inside
      exact regular.range_ordered start stop (regular.range_le inside)
    · obtain ⟨start, stop⟩ := regular.namesCut r recorded
      exact regular.range_ordered start stop (Nat.le_of_lt (regular.wide r recorded))

end Regular

end Analysis

/-- The report of a source loses nothing and invents nothing. -/
theorem analyze_report {source : String} {options : Options} {a : Analysis}
    (h : analyze source options = .ok a) : a.Reported a.report :=
  (analyze_regular h).reported

/-- A block that uses a variable from outside, and a name that nothing declares: both are told, the one
under the variable and the other under the block. -/
theorem analyze_report_block : ∃ a, analyze "let a;\r\n{ b(a) }" Options.standard = .ok a ∧
    a.Reported a.report ∧ a.report.preorder.map (·.id) = [0, 1] ∧
    (a.report.preorder.flatMap fun r => r.declared.flatMap fun v =>
      v.occurrences.map fun range => (some v.id, v.name, range)) =
        [(some 0, "a", a.range ⟨12, 13⟩)] ∧
    (a.report.preorder.flatMap fun r => r.unresolved.map fun u => (r.id, u.name, u.range)) =
      [(1, "b", a.range ⟨10, 11⟩)] := by
  have made : (analyze "let a;\r\n{ b(a) }" Options.standard).toOption.map
      (fun a => (a.tree.scopes.size, a.bound.occurrences)) =
        some (2, #[⟨0, "b", ⟨10, 11⟩, 1, none⟩, ⟨1, "a", ⟨12, 13⟩, 1, some 0⟩]) := by
    decide +kernel
  obtain ⟨a, ok, found⟩ := Option.map_eq_some_iff.mp made
  obtain ⟨size, occurrences⟩ := Prod.mk.inj found
  have h := ok_of_toOption ok
  have reported := analyze_report h
  have ids := reported.ids
  have uses := reported.uses
  have free := reported.free
  rw [size] at ids
  rw [occurrences] at uses free
  exact ⟨a, h, reported, ids, List.perm_singleton.mp uses, List.perm_singleton.mp free⟩

end Scoping
