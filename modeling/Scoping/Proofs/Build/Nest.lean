import Scoping.Proofs.Build.BothWays
import Scoping.Proofs.Build.Finish
import Scoping.Proofs.Build.Inside

/-!
# The tree of a program in braces

Two steps lead from a program to the program in braces. Its run is told again with a block open inside
the global scope (`Halves`), and that run is told again a byte further, where the block is the braces'
(`Program.run_braced`). Put together they say what the tree of the program in braces is: the tree of the
program in a block (`Program.tree_inBlock`), as long as the global scope declares no name both ways.
-/

namespace Scoping

open Builder

theorem Declarations.renamed_id (ds : Declarations) : ds.renamed id = ds := by
  unfold renamed
  exact Array.map_id' ds

namespace Builder

/-- A list that stands beside another by a function is its image. -/
theorem eq_map_of_forall₂ {α β : Type} {R : α → β → Prop} {f : α → β} {xs : Array α} {ys : Array β}
    (both : List.Forall₂ R xs.toList ys.toList) (image : ∀ x y, R x y → y = f x) :
    ys = xs.map f := by
  rw [← Array.toList_inj, Array.toList_map]
  have same : List.Forall₂ Eq (xs.toList.map f) ys.toList :=
    List.forall₂_map_left_iff.mpr (both.imp fun x y rel => (image x y rel).symm)
  rw [List.forall₂_eq_eq_eq] at same
  exact same.symm

/-! ## The halves of the global scope -/

namespace Halves

variable {s h : State} {name : String} {b : BindingId}

/-- Where the first run has a scope, the second has what stands for it. -/
theorem Split.scope_at (split : Split s h) {i : Nat} {x : Scope} (at_i : s.scopes[i]? = some x) :
    ∃ x', h.scopes[i + 1]? = some x' ∧ x.Halved x' := by
  have rel := split.scope_rel i
  rw [at_i] at rel
  generalize h.scopes[i + 1]? = x' at rel
  cases rel with
  | some halved => exact ⟨_, rfl, halved⟩

/-- A binding that the global scope declares is found in the half where it is at home. -/
theorem Tables.hoists_eq (tables : Tables s h) (shared : Shared s h) (size : Nat) {i : Nat}
    (whole : boundIn s.scopes globalScope name = some b) (half : boundIn h.scopes i name = some b) :
    (s.tree size).hoists b = decide (i = globalScope) := by
  obtain ⟨x, at_b, _, owner⟩ := shared.listed.boundIn whole
  obtain ⟨x', at_b', _, owner'⟩ := shared.listed'.boundIn half
  have same : h.bindings[b]? = some x.halved := by
    rw [tables.bindings, Array.getElem?_map, at_b, Option.map_some]
  rw [same] at at_b'
  cases at_b'
  have home : x.kind.home x.scope = i := owner'
  have found : (s.tree size).binding? b = some x := at_b
  rw [Tree.hoists, found, Option.any_some, ← home, Bool.eq_iff_iff, decide_eq_true_iff,
    BindingKind.home_eq_global_iff]
  simp [owner]

/-- When no name is in both halves, each has its share of the bindings. -/
theorem Tables.boundIn_halves (tables : Tables s h) (shared : Shared s h) (apart : ¬ Clash h)
    (size : Nat) (name : String) :
    boundIn h.scopes globalScope name =
        (boundIn s.scopes globalScope name).filter ((s.tree size).hoists ·) ∧
      boundIn h.scopes 1 name =
        (boundIn s.scopes globalScope name).filter (! (s.tree size).hoists ·) := by
  have whole := tables.global name
  have never : ¬ ((boundIn h.scopes globalScope name).isSome ∧ (boundIn h.scopes 1 name).isSome) :=
    fun both => apart ⟨name, by rw [find?_declarationsIn]; exact both.1,
      by rw [find?_declarationsIn]; exact both.2⟩
  rw [find?_declarationsIn, find?_declarationsIn, find?_declarationsIn] at whole
  change boundIn s.scopes globalScope name =
    (boundIn h.scopes globalScope name).or (boundIn h.scopes 1 name) at whole
  cases outer : boundIn h.scopes globalScope name with
  | some b =>
    rw [outer] at whole never
    have leaves := tables.hoists_eq shared size whole outer
    cases inner : boundIn h.scopes 1 name with
    | some b' =>
      rw [inner] at never
      exact absurd ⟨rfl, rfl⟩ never
    | none =>
      rw [whole, inner, Option.or_none, Option.filter_some, Option.filter_some, leaves]
      exact ⟨rfl, rfl⟩
  | none =>
    rw [outer, Option.none_or] at whole
    cases inner : boundIn h.scopes 1 name with
    | some b =>
      rw [inner] at whole
      have stays := tables.hoists_eq shared size whole inner
      rw [whole, Option.filter_some, Option.filter_some, stays]
      exact ⟨rfl, rfl⟩
    | none =>
      rw [whole, inner]
      exact ⟨rfl, rfl⟩

end Halves

namespace Program

variable {P : Program}

/-! ## A byte further -/

theorem moved_of_sameSpan {x x' : Span} (same : P.retelling.SameSpan x x') : x' = x.moved 1 := by
  have start : x'.start = x.start + 1 := same.start
  have stop : x'.stop = x.stop + 1 := same.stop
  rw [Span.moved, ← start, ← stop]

/-- The scope is the same but for its range. -/
theorem eq_of_sameScope {x x' : Scope} (same : P.retelling.SameScope x x') :
    x' = { x with range := x'.range } := by
  have label : x'.label = x.label := by
    have spelled {t t' : Token} (told : SameInside P.size t t') (notEnd : t.isEnd = false) :
        t'.lexeme = t.lexeme := by
      rcases told with ⟨_, rfl⟩ | ⟨ends, _⟩
      · rfl
      · rw [notEnd] at ends
        cases ends
    have labels := same.label
    generalize x.label = l, x'.label = l' at labels
    cases labels with
    | fixed _ => rfl
    | name told spells => exact spelled told (isEnd_of_spellsName spells)
    | key told string => rw [spelled told (by rw [Token.isEnd, string]; rfl)]
  have declarations : x'.declarations = x.declarations :=
    same.declarations.trans (Declarations.renamed_id _)
  obtain ⟨_, _, _, _, _, _, _⟩ := x
  obtain ⟨_, _, _, _, _, _, _⟩ := x'
  cases same.id
  cases same.kind
  cases label
  cases same.parent
  cases same.children
  cases declarations
  rfl

section
variable {h t : State} (beside : P.retelling.Beside h t)
include beside

theorem bindings_moved : t.bindings = h.bindings.map fun b =>
    { b with declaredAt := b.declaredAt.moved 1, earlier := b.earlier.map (Span.moved 1) } := by
  refine eq_map_of_forall₂ beside.bindings fun b b' same => ?_
  have earlier := eq_map_of_forall₂ same.earlier fun _ _ => moved_of_sameSpan
  have declaredAt := moved_of_sameSpan same.declaredAt
  obtain ⟨_, _, _, _, _, _⟩ := b
  obtain ⟨_, _, _, _, _, _⟩ := b'
  cases same.id
  cases same.name
  cases same.kind
  cases same.scope
  cases declaredAt
  cases earlier
  rfl

theorem references_moved : t.references = h.references.map fun r =>
    { r with span := r.span.moved 1 } := by
  refine eq_map_of_forall₂ beside.references fun r r' same => ?_
  have span := moved_of_sameSpan same.span
  obtain ⟨_, _, _⟩ := r
  obtain ⟨_, _, _⟩ := r'
  cases same.name
  cases same.scope
  cases span
  rfl

/-- A scope has its counterpart, which is the same but for its range. -/
theorem scope_moved {i : Nat} {x : Scope} (at_i : h.scopes[i]? = some x) :
    ∃ range, t.scopes[i]? = some { x with range := range } ∧
      (2 ≤ x.id → range = x.range.moved 1) := by
  have rel := beside.scope_rel i
  rw [at_i] at rel
  generalize at_i' : t.scopes[i]? = x' at rel
  cases rel with
  | @some x x' same =>
    exact ⟨x'.range, congrArg some (eq_of_sameScope same),
      fun late => moved_of_sameSpan (same.range late)⟩

end

/-! ## The block closed -/

section
variable {t : State} {i : Nat}

/-- Only the block ends where the braces do. -/
theorem scope_closed (i : Nat) : (P.closed t).scopes[i]? = (t.scopes[i]?).map fun x =>
    if 1 = i then { x with range := { x.range with stop := P.size + 3 } } else x :=
  State.popScope_scope (P.braced.behind t) 1 (P.size + 3) i

/-- In the tree the global scope has the whole text for its range as well. -/
theorem scope?_closed (i : Nat) : ((P.closed t).tree (P.size + 3)).scope? i =
    (t.scopes[i]?).map fun x =>
      if globalScope = i then { x with range := ⟨0, P.size + 3⟩ }
      else if 1 = i then { x with range := { x.range with stop := P.size + 3 } } else x := by
  dsimp only [Tree.scope?, State.tree]
  rw [Array.getElem?_modify, scope_closed]
  split
  · next root =>
    subst root
    rw [Option.map_map]
    rfl
  · rfl

theorem boundIn_closed (name : String) :
    boundIn ((P.closed t).tree (P.size + 3)).scopes i name = boundIn t.scopes i name := by
  rw [boundIn_tree, boundIn, boundIn, scope_closed, Option.bind_map]
  refine congrArg _ (funext fun x => ?_)
  rw [Function.comp_apply]
  split <;> rfl

end

/-! ## Both steps -/

section
variable {s h t : State} (split : Halves.Split s h) (beside : P.retelling.Beside h t)
include split beside

theorem global_inBlock : ∃ ds, ((P.closed t).tree (P.size + 3)).scope? globalScope =
    some ⟨globalScope, .global, "Global", none, #[1], ds, ⟨0, P.size + 3⟩⟩ := by
  obtain ⟨x, at_outer, outer⟩ := split.outer
  obtain ⟨range, at_outer', _⟩ := scope_moved beside at_outer
  refine ⟨x.declarations, ?_⟩
  rw [scope?_closed, at_outer', Option.map_some, if_pos rfl]
  obtain ⟨_, _, _, _, _, _, _⟩ := x
  cases outer.id
  cases outer.kind
  cases outer.label
  cases outer.parent
  cases outer.children
  rfl

theorem block_inBlock (w : Walk P.braced blockBegun t) :
    ∃ x ds, (s.tree P.size).scope? globalScope = some x ∧
      ((P.closed t).tree (P.size + 3)).scope? 1 = some
        ⟨1, .block, "block", some globalScope, x.children.map (· + 1), ds, ⟨0, P.size + 3⟩⟩ := by
  obtain ⟨x, at_global⟩ : ∃ x, s.scopes[globalScope]? = some x :=
    ⟨_, Array.getElem?_eq_getElem split.nonempty⟩
  obtain ⟨x', at_inner, halved⟩ := split.scope_at at_global
  obtain ⟨range, at_block, _⟩ := scope_moved beside at_inner
  have at_block : t.scopes[1]? = some { x' with range := range } := at_block
  -- The block begins where it began before anything in it was read.
  obtain ⟨y, at_block', keeps⟩ := w.grows.scope 1 _ rfl
  rw [at_block] at at_block'
  cases at_block'
  have start : range.start = 0 := keeps.start
  have root : x.id = globalScope := split.ids _ _ at_global
  have id := halved.id
  have children := halved.children
  obtain ⟨kind, label, parent⟩ := halved.inner root
  rw [root] at id
  refine ⟨{ x with range := ⟨0, P.size⟩ }, x'.declarations, ?_, ?_⟩
  · dsimp only [Tree.scope?, State.tree]
    rw [Array.getElem?_modify, if_pos rfl, at_global, Option.map_some]
  · rw [scope?_closed, at_block, Option.map_some, if_neg (by decide), if_pos rfl]
    obtain ⟨_, _, _, _, _, _, _⟩ := x'
    cases id
    cases kind
    cases label
    cases parent
    cases children
    simp only [start]
    rfl

theorem inner_inBlock (tables : Halves.Tables s h) {i : Nat} {x : Scope} (inner : i ≠ globalScope)
    (at_i : (s.tree P.size).scope? i = some x) :
    ((P.closed t).tree (P.size + 3)).scope? (i + 1) = some x.inBlock := by
  have at_i : s.scopes[i]? = some x := by
    rw [← at_i]
    dsimp only [Tree.scope?, State.tree]
    rw [Array.getElem?_modify, if_neg inner.symm]
  obtain ⟨x', at_i', halved⟩ := split.scope_at at_i
  obtain ⟨range, at_i'', moved⟩ := scope_moved beside at_i'
  have number : x.id = i := split.ids i x at_i
  have id := halved.id
  have children := halved.children
  obtain ⟨kind, label, parent, same⟩ := halved.other (by rw [number]; exact inner)
  have declarations : x'.declarations = x.declarations := by
    have other := tables.other i inner
    rw [declarationsIn_of_getElem? at_i, declarationsIn_of_getElem? at_i'] at other
    exact other
  have notRoot : globalScope ≠ i + 1 := (Nat.succ_ne_zero i).symm
  have notBlock : 1 ≠ i + 1 := fun first => inner (Nat.succ.inj first).symm
  have late : 2 ≤ x'.id := by
    rw [id, number]
    exact Nat.succ_le_succ (Nat.one_le_iff_ne_zero.mpr inner)
  rw [scope?_closed, at_i'', Option.map_some, if_neg notRoot, if_neg notBlock, moved late, same]
  obtain ⟨_, _, _, _, _, _, _⟩ := x'
  cases id
  cases kind
  cases label
  cases parent
  cases children
  cases declarations
  rfl

end

/-- What the run over a program in braces leaves behind is the tree of the program in a block. -/
theorem tree_inBlock {s h t : State} (alongside : Halves.Alongside s h) (apart : ¬ Halves.Clash h)
    (beside : P.retelling.Beside h t) (w : Walk P.braced blockBegun t) :
    (s.tree P.size).InBlock ((P.closed t).tree (P.size + 3)) := by
  have split := alongside.split
  have tables := alongside.tables.resolve_left apart
  have halves := tables.boundIn_halves alongside.shared apart P.size
  have bound (i : Nat) (name : String) :
      boundIn ((P.closed t).tree (P.size + 3)).scopes i name = boundIn h.scopes i name :=
    (boundIn_closed name).trans (beside.find?_eq i name)
  refine ⟨rfl, ?size, global_inBlock split beside, block_inBlock split beside w,
    fun _ _ => inner_inBlock split beside tables, ?bindings, ?references, fun name => ?outside,
    fun name => ?inside⟩
  case size =>
    dsimp only [State.tree]
    rw [Array.size_modify, Array.size_modify, ← split.size_eq, ← beside.size_eq]
    exact State.popScope_size ..
  case bindings =>
    change t.bindings = s.bindings.map Binding.inBlock
    rw [bindings_moved beside, tables.bindings, Array.map_map]
    rfl
  case references =>
    change t.references = s.references.map Reference.inBlock
    rw [references_moved beside, split.references, Array.map_map]
    rfl
  case outside => rw [bound, boundIn_tree, (halves name).1]
  case inside => rw [bound, boundIn_tree, (halves name).2]

end Program

/-! ## From a list of tokens -/

section
variable {before : List Token} {final : Token} {limit : Nat} {s : State}

/-- Tokens that make a tree, and of which none but the last is an end of input, have their brackets in
pairs. -/
theorem balanced_of_ofTokens {tree : Tree} (h : Tree.ofTokens (before ++ [final]) limit = .ok tree)
    (notEnds : ∀ t ∈ before, t.isEnd = false) : Balanced (significant before) := by
  obtain ⟨final', s, last, formed, w, ended, _⟩ := ofTokens_ok h
  rw [List.getLast?_concat] at last
  cases last
  have atEnd : final.isEnd = true := formed.final_isEnd
  have read := (w.balanced_takeWhile formed ended).1
  change Balanced ((significant (before ++ [final])).takeWhile (!·.isEnd)) at read
  rw [significant_append_end before atEnd, List.takeWhile_append_of_pos fun u mem => by
    rw [notEnds u (List.mem_filter.mp mem).1]; rfl] at read
  simpa [atEnd] using read

/-- A program that makes a tree makes in braces the tree in a block, unless the global scope declares a
name both ways. -/
theorem Program.ofTokens_braced (P : Program) {tree : Tree}
    (h : Tree.ofTokens (P.before ++ [P.final]) P.limit = .ok tree) (apart : bothWays P.plain = []) :
    ∃ tree', Tree.ofTokens (bracedTokens P.before P.size) (P.limit + 1) = .ok tree' ∧
      tree.InBlock tree' ∧ Rooted tree.scopes ∧ Rooted tree'.scopes := by
  obtain ⟨final, s, last, _, ran, rfl⟩ := ofTokens_run h
  rw [P.getLast?_plain] at last
  cases last
  have ends := run_ends P.plain_formed (Nat.le_refl _)
  rw [ran] at ends
  obtain ⟨w, ended⟩ := ends
  obtain ⟨h, ranHalved, alongside⟩ := Halves.run_halved (run_ok_iff.mp ran).1
  have ended : (P.plain.token h.pos).isEnd = true := by
    rw [alongside.split.pos]
    exact ended
  obtain ⟨t, beside, w', ran'⟩ := P.run_braced ranHalved ended
  refine ⟨_, ?built, tree_inBlock alongside (not_clash apart ranHalved) beside w',
    (alike_tree s _).rooted w.shaped.rooted, ?rooted⟩
  case built =>
    have atEnd : (endAt (P.size + 3)).isEnd = true := rfl
    unfold Tree.ofTokens Tree.build
    simp only [P.getLast?_braced, atEnd, ↓reduceIte]
    rw [ran']
    rfl
  case rooted =>
    have ends := run_ends P.braced_formed (Nat.le_refl _)
    rw [ran'] at ends
    exact (alike_tree _ _).rooted ends.1.shaped.rooted

end

end Builder

end Scoping
