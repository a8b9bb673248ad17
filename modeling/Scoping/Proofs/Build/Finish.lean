import Scoping.Proofs.Build.Name
import Scoping.Proofs.Build.Run
import Scoping.Proofs.Token.Tiling

/-!
# The finished tree

What holds at the end of a run, said of the tree that it leaves behind. The global scope is the only
one still open, and gets the whole source for its range. So over the tokens of a source ranges nest
as scopes do (`Tree.Nested`), and the innermost scope around a token is the one it sits in.
-/

namespace Scoping

namespace Tree

/-- The scopes of the tree are numbered in the order in which they begin, and hang together. -/
structure Ordered (t : Tree) : Prop where
  id : ∀ (i : Nat) (x : Scope), t.scopes[i]? = some x → x.id = i
  root : ∃ x, t.scopes[globalScope]? = some x ∧ x.kind = .global ∧ x.parent = none
  inner : ∀ (i : Nat) (x : Scope), t.scopes[i]? = some x → i ≠ globalScope →
    x.kind ≠ .global ∧ ∃ p : Nat, x.parent = some p ∧ p < i
  listed : ∀ (i p : Nat) (x y : Scope), t.scopes[i]? = some x → t.scopes[p]? = some y →
    y.children.toList.count i = if x.parent = some p then 1 else 0
  preorder : t.preorder = List.range t.scopes.size

/-- The ranges of the tree nest as its scopes do, in a source of the given size. -/
structure Nested (t : Tree) (size : Nat) : Prop where
  root : ∃ x, t.scopes[globalScope]? = some x ∧ x.range = ⟨0, size⟩
  wide : ∀ (i : Nat) (x : Scope), t.scopes[i]? = some x → i ≠ globalScope →
    x.range.start < x.range.stop
  inside : ∀ (i p : Nat) (x y : Scope), t.scopes[i]? = some x → t.scopes[p]? = some y →
    x.parent = some p → y.range.covers x.range = true
  siblings : ∀ (p : Nat) (y : Scope), t.scopes[p]? = some y →
    y.children.toList.Pairwise fun i j => ∀ a b, t.scopes[i]? = some a → t.scopes[j]? = some b →
      a.range.stop ≤ b.range.start
  disjoint : ∀ (i j : Nat) (x y : Scope), t.scopes[i]? = some x → t.scopes[j]? = some y →
    x.range.covers y.range = true ∨ y.range.covers x.range = true ∨
      x.range.stop ≤ y.range.start ∨ y.range.stop ≤ x.range.start

/-- The range of a scope covers a span. -/
def Covers (t : Tree) (i : ScopeId) (span : Span) : Prop :=
  ∃ x, t.scopes[i]? = some x ∧ x.range.covers span = true

/-- Of the scopes whose range covers a span, this one has the others around it. -/
structure Innermost (t : Tree) (span : Span) (i : ScopeId) : Prop where
  covers : t.Covers i span
  outer : ∀ j, t.Covers j span → Encloses t.scopes j i

theorem covers_iff {t : Tree} {i : Nat} {span : Span} :
    t.Covers i span ↔ i < t.scopes.size ∧ (rangeIn t.scopes i).covers span = true := by
  unfold Covers
  constructor
  · rintro ⟨x, at_i, covers⟩
    exact ⟨(Array.getElem?_eq_some_iff.mp at_i).1, by rw [rangeIn_of_getElem? at_i]; exact covers⟩
  · rintro ⟨inside, covers⟩
    have at_i : t.scopes[i]? = some t.scopes[i] := Array.getElem?_eq_getElem inside
    exact ⟨_, at_i, by rw [rangeIn_of_getElem? at_i] at covers; exact covers⟩

/-- There is one innermost scope at most. -/
theorem Innermost.unique {t : Tree} {span : Span} {i j : Nat} (rooted : Rooted t.scopes)
    (h : t.Innermost span i) (g : t.Innermost span j) : i = j :=
  Nat.le_antisymm ((g.outer i h.covers).le rooted) ((h.outer j g.covers).le rooted)

/-- Scopes in shape make an ordered tree. -/
theorem ordered_of_rooted {t : Tree} (rooted : Rooted t.scopes) (contiguous : Contiguous t.scopes) :
    t.Ordered where
  id := rooted.id
  root := rooted.root
  inner := rooted.inner
  listed i p x y at_i at_p := by
    have nodup : y.children.toList.Nodup := by
      rw [rooted.children p y at_p]
      exact List.nodup_range.filter _
    rw [nodup.count]
    simp only [rooted.mem_children at_p, parentIn_of_getElem? at_i]
  preorder := preorder_eq_range rooted contiguous

end Tree

namespace Builder

variable {c : Context} {s : State}

/-! ## The end of a run -/

/-- At the end only the global scope is open. -/
theorem Walk.open_iff_root (w : Walk c .start s) {i : Nat} : s.Open i ↔ i = globalScope := by
  rw [State.Open, w.frames_eq, start_frames]
  simp only [List.mem_singleton, exists_eq_left]
  exact eq_comm

theorem Walk.closed_iff (w : Walk c .start s) {i : Nat} : ¬ s.Open i ↔ i ≠ globalScope :=
  not_congr w.open_iff_root

theorem alike_tree (s : State) (size : Nat) : Alike s.scopes (s.tree size).scopes := by
  dsimp only [State.tree]
  apply alike_modify
  intro x
  rfl

/-- Only the range of the global scope is set at the end. -/
theorem boundIn_tree (s : State) (size i : Nat) (name : String) :
    boundIn (s.tree size).scopes i name = boundIn s.scopes i name := by
  dsimp only [boundIn, State.tree]
  rw [Array.getElem?_modify]
  split
  · rw [Option.bind_map]
    rfl
  · rfl

theorem Shaped.ordered (shaped : Shaped c s) (size : Nat) : (s.tree size).Ordered :=
  Tree.ordered_of_rooted ((alike_tree s size).rooted shaped.rooted)
    ((alike_tree s size).contiguous shaped.contiguous)

theorem rangeIn_tree_root (shaped : Shaped c s) (size : Nat) :
    rangeIn (s.tree size).scopes globalScope = ⟨0, size⟩ := by
  obtain ⟨x, at_root, _⟩ := shaped.rooted.root
  dsimp only [rangeIn, State.tree]
  rw [Array.getElem?_modify, if_pos rfl, at_root]
  rfl

theorem rangeIn_tree_inner {i : Nat} (size : Nat) (inner : i ≠ globalScope) :
    rangeIn (s.tree size).scopes i = rangeIn s.scopes i := by
  dsimp only [rangeIn, State.tree]
  rw [Array.getElem?_modify, if_neg (Ne.symm inner)]

/-- Tokens that are read end within the source. -/
theorem Context.Spaced.stop_le_size (spaced : c.Spaced) (formed : c.Formed) {n : Nat}
    (h : n < c.tokens.size) : (c.token n).span.stop ≤ c.sourceSize := by
  have last := formed.last
  rw [Array.back?_eq_getElem?] at last
  have final : c.token (c.tokens.size - 1) = c.final := by
    rw [Context.token, Array.getD_eq_getD_getElem?, last, Option.getD_some]
  by_cases isLast : n = c.tokens.size - 1
  · rw [isLast, final]
    exact Nat.le_refl _
  · have before := spaced.stop_le_start (m := n) (n := c.tokens.size - 1) (by omega) (by omega)
    rw [final] at before
    exact Nat.le_trans before spaced.ends

theorem Context.Spaced.endBefore_le_size (spaced : c.Spaced) (formed : c.Formed) {n : Nat}
    (h : n < c.tokens.size) : c.endBefore n ≤ c.sourceSize := by
  cases n with
  | zero => exact Nat.zero_le _
  | succ n => exact spaced.stop_le_size formed (Nat.lt_of_succ_lt h)

/-- A scope of the finished tree covers a token as it did when the token was read. -/
theorem tree_covers_iff (w : Walk c .start s) (formed : c.Formed) (spaced : c.Spaced) {n j : Nat}
    (read : n < s.pos) : (s.tree c.sourceSize).Covers j (c.token n).span ↔
      j < s.scopes.size ∧ s.Covers j (c.token n).span := by
  have inside := (w.ranged formed spaced).inside
  rw [Tree.covers_iff, ← (alike_tree s c.sourceSize).size_eq, Span.covers_iff, State.Covers,
    w.open_iff_root]
  by_cases root : j = globalScope
  · have begins := (w.ranged formed spaced).stack globalScope 0
      (by rw [State.stack, w.frames_eq, start_frames]; exact List.mem_singleton_self _)
    have ends := spaced.stop_le_size formed (Nat.lt_trans read inside)
    rw [root, rangeIn_tree_root w.shaped, begins]
    simp only [Nat.zero_le, ends, and_self, true_or]
  · rw [rangeIn_tree_inner _ root]
    simp only [root, false_or]

/-- In the finished tree, around a token are the scopes around the one it sits in. -/
theorem Sits.covers_tree (w : Walk c .start s) (formed : c.Formed) (spaced : c.Spaced)
    {n i j : Nat} (sits : Sits c s n i) : (s.tree c.sourceSize).Covers j (c.token n).span ↔
      Encloses (s.tree c.sourceSize).scopes j i := by
  rw [tree_covers_iff w formed spaced sits.before, ← (alike_tree s c.sourceSize).encloses_iff]
  constructor
  · rintro ⟨inside, covers⟩
    exact (sits.covers j inside).mp covers
  · intro around
    have inside := around.lt_size_left w.shaped.rooted
    exact ⟨inside, (sits.covers j inside).mpr around⟩

theorem Sits.innermost (w : Walk c .start s) (formed : c.Formed) (spaced : c.Spaced) {n i : Nat}
    (sits : Sits c s n i) : (s.tree c.sourceSize).Innermost (c.token n).span i where
  covers := (sits.covers_tree w formed spaced).mpr
    ((alike_tree s c.sourceSize).encloses (.self sits.inside))
  outer _ := (sits.covers_tree w formed spaced).mp

/-! ## Nesting -/

section
variable (w : Walk c .start s) (formed : c.Formed) (spaced : c.Spaced)
include w formed spaced

/-- Inside its parent a scope begins and ends. -/
theorem tree_inside {i p : Nat} (parent : parentIn s.scopes i = some p) :
    (rangeIn (s.tree c.sourceSize).scopes p).covers (rangeIn (s.tree c.sourceSize).scopes i) =
      true := by
  have ranged := w.ranged formed spaced
  have inner := w.shaped.rooted.ne_root_of_parentIn parent
  have inside := lt_size_of_parentIn parent
  rw [Span.covers_iff, rangeIn_tree_inner _ inner]
  by_cases root : p = globalScope
  · have closed := ranged.closed i inside (w.closed_iff.mpr inner)
    have ends := spaced.endBefore_le_size formed ranged.inside
    rw [root, rangeIn_tree_root w.shaped]
    rw [← ranged.prevEnd] at ends
    exact ⟨Nat.zero_le _, Nat.le_trans closed.2 ends⟩
  · rw [rangeIn_tree_inner _ root]
    have within := ranged.inner i p parent
    exact ⟨within.1, within.2 (w.closed_iff.mpr root)⟩

/-- The range of a scope covers those of all that it encloses. -/
theorem tree_encloses_covers {i j : Nat} (around : Encloses s.scopes i j) :
    (rangeIn (s.tree c.sourceSize).scopes i).covers (rangeIn (s.tree c.sourceSize).scopes j) =
      true := by
  induction around with
  | self _ => exact Span.covers_iff.mpr ⟨Nat.le_refl _, Nat.le_refl _⟩
  | outer parent _ ih =>
    have inside := Span.covers_iff.mp (tree_inside w formed spaced parent)
    have outside := Span.covers_iff.mp ih
    exact Span.covers_iff.mpr
      ⟨Nat.le_trans outside.1 inside.1, Nat.le_trans inside.2 outside.2⟩

/-- Of two scopes the later is inside the earlier or begins behind its end. -/
theorem tree_apart {i j : Nat} (less : i < j) (inside : j < s.scopes.size) :
    Encloses s.scopes i j ∨ (rangeIn (s.tree c.sourceSize).scopes i).stop ≤
      (rangeIn (s.tree c.sourceSize).scopes j).start := by
  rcases (w.ranged formed spaced).apart i j less inside with around | ⟨notOpen, before⟩
  · exact .inl around
  · rw [rangeIn_tree_inner _ (w.closed_iff.mp notOpen),
      rangeIn_tree_inner _ (Nat.ne_of_gt (Nat.lt_of_le_of_lt (Nat.zero_le i) less))]
    exact .inr before

/-- Over tokens in order the ranges of the finished tree nest. -/
theorem tree_nested : (s.tree c.sourceSize).Nested c.sourceSize := by
  have shaped := w.shaped
  have ranged := w.ranged formed spaced
  have alike := alike_tree s c.sourceSize
  have rooted := alike.rooted shaped.rooted
  have lt_size {i : Nat} {x : Scope} (at_i : (s.tree c.sourceSize).scopes[i]? = some x) :
      i < s.scopes.size := alike.size_eq ▸ (Array.getElem?_eq_some_iff.mp at_i).1
  refine ⟨?root, ?wide, ?inside, ?siblings, ?disjoint⟩
  case root =>
    obtain ⟨x, at_root, _⟩ := rooted.root
    exact ⟨x, at_root, by rw [← rangeIn_of_getElem? at_root, rangeIn_tree_root shaped]⟩
  case wide =>
    intro i x at_i inner
    rw [← rangeIn_of_getElem? at_i, rangeIn_tree_inner _ inner]
    exact (ranged.closed i (lt_size at_i) (w.closed_iff.mpr inner)).1
  case inside =>
    intro i p x y at_i at_p parent
    rw [← rangeIn_of_getElem? at_i, ← rangeIn_of_getElem? at_p]
    rw [← parentIn_of_getElem? at_i, ← alike.parentIn_eq] at parent
    exact tree_inside w formed spaced parent
  case siblings =>
    intro p y at_p
    refine (rooted.pairwise_children at_p).imp_of_mem fun {i j} left right less a b at_i at_j => ?_
    rw [← rangeIn_of_getElem? at_i, ← rangeIn_of_getElem? at_j]
    rcases tree_apart w formed spaced less (lt_size at_j) with around | before
    · rw [rooted.mem_children at_p, ← alike.parentIn_eq] at left right
      obtain ⟨q, parent, outside⟩ := around.of_ne (Nat.ne_of_lt less)
      rw [right] at parent
      cases parent
      have := outside.le shaped.rooted
      have := shaped.rooted.parentIn_lt left
      omega
    · exact before
  case disjoint =>
    intro i j x y at_i at_j
    rw [← rangeIn_of_getElem? at_i, ← rangeIn_of_getElem? at_j]
    rcases Nat.lt_trichotomy i j with less | rfl | more
    · rcases tree_apart w formed spaced less (lt_size at_j) with around | before
      · exact .inl (tree_encloses_covers w formed spaced around)
      · exact .inr (.inr (.inl before))
    · exact .inl (Span.covers_iff.mpr ⟨Nat.le_refl _, Nat.le_refl _⟩)
    · rcases tree_apart w formed spaced more (lt_size at_i) with around | before
      · exact .inr (.inl (tree_encloses_covers w formed spaced around))
      · exact .inr (.inr (.inr before))

end

/-! ## From tokens and from a source -/

/-- A list of tokens that makes a tree ends with an end of input, and a run leaves the tree behind. -/
theorem ofTokens_run {ts : List Token} {limit : Nat} {t : Tree}
    (h : Tree.ofTokens ts limit = .ok t) : ∃ (final : Token) (s : State),
      ts.getLast? = some final ∧ final.isEnd = true ∧
      run (Context.ofTokens ts final limit).levels (Context.ofTokens ts final limit) = .ok s ∧
      t = s.tree (Context.ofTokens ts final limit).sourceSize := by
  unfold Tree.ofTokens Tree.build at h
  cases last : ts.getLast? with
  | none =>
    rw [last] at h
    cases h
  | some final =>
    cases atEnd : final.isEnd with
    | false =>
      simp only [last, atEnd, Bool.false_eq_true, ↓reduceIte] at h
      cases h
    | true =>
      simp only [last, atEnd, ↓reduceIte] at h
      cases made : run (Context.ofTokens ts final limit).levels
          (Context.ofTokens ts final limit) with
      | error e =>
        rw [made] at h
        cases h
      | ok s =>
        rw [made] at h
        cases h
        exact ⟨final, s, rfl, atEnd, made, rfl⟩

/-- The tokens are walked over. -/
theorem ofTokens_ok {ts : List Token} {limit : Nat} {t : Tree}
    (h : Tree.ofTokens ts limit = .ok t) : ∃ (final : Token) (s : State),
      ts.getLast? = some final ∧ (Context.ofTokens ts final limit).Formed ∧
      Walk (Context.ofTokens ts final limit) .start s ∧
      ((Context.ofTokens ts final limit).token s.pos).isEnd = true ∧
      t = s.tree (Context.ofTokens ts final limit).sourceSize := by
  obtain ⟨final, s, last, atEnd, made, tree⟩ := ofTokens_run h
  have formed := ofTokens_formed last atEnd limit
  obtain ⟨w, atEnd⟩ := run_walk formed made
  exact ⟨final, s, last, formed, w, atEnd, tree⟩

theorem token_ofTokens {ts : List Token} {final : Token} {limit n : Nat}
    (h : n < (significant ts).length) :
    (Context.ofTokens ts final limit).token n = (significant ts)[n] := by
  simp [Context.token, Context.ofTokens, h]

/-- No significant token of a source but the last is an end of input. -/
theorem significant_notEnd {ts : List Token} {offset : Nat} {cs : List Char}
    (tiling : Tiling offset cs ts) {n : Nat} {u : Token} (h : n + 1 < (significant ts).length)
    (at_n : (significant ts)[n]? = some u) : u.isEnd = false := by
  obtain ⟨before, final, rfl, atEnd, _, notEnds⟩ := tiling.exists_final
  have kept := significant_append_end before atEnd
  rw [kept, List.length_append, List.length_singleton] at h
  rw [kept, List.getElem?_append_left (Nat.lt_of_succ_lt_succ h)] at at_n
  exact notEnds u (List.mem_filter.mp (List.mem_of_getElem? at_n)).1

/-- The significant tokens of a source stand in order, up to its end. -/
theorem ofTokens_spaced {ts : List Token} {final : Token} {cs : List Char} (tiling : Tiling 0 cs ts)
    (last : ts.getLast? = some final) (limit : Nat) :
    (Context.ofTokens ts final limit).Spaced ∧
      (Context.ofTokens ts final limit).sourceSize = byteSize cs := by
  have size : (Context.ofTokens ts final limit).tokens.size = (significant ts).length := rfl
  have ordered := tiling.apart.filter (!·.isComment)
  have span : final.span = .point (byteSize cs) := by
    obtain ⟨before, final', rfl, _, span, _⟩ := tiling.exists_final
    rw [List.getLast?_concat] at last
    cases last
    rw [span, Nat.zero_add]
  refine ⟨⟨fun n lt => ?_, fun n lt => ?_, ?_⟩, ?_⟩
  · rw [size] at lt
    rw [token_ofTokens (Nat.lt_of_succ_lt lt)]
    exact tiling.wide _ (List.mem_filter.mp (List.getElem_mem _)).1
      (significant_notEnd tiling lt (List.getElem?_eq_getElem _))
  · rw [size] at lt
    rw [token_ofTokens lt, token_ofTokens (Nat.lt_of_succ_lt lt)]
    exact List.pairwise_iff_getElem.mp ordered n (n + 1) (Nat.lt_of_succ_lt lt) lt
      (Nat.lt_succ_self n)
  · show final.span.start ≤ final.span.stop
    rw [span]
    exact Nat.le_refl _
  · show final.span.stop = byteSize cs
    rw [span]
    rfl

/-- Every tree that is built is numbered in the order in which its scopes begin, each scope under
one parent; over the tokens of a source ranges nest as scopes do. -/
theorem ofTokens_wellFormed {ts : List Token} {limit : Nat} {t : Tree}
    (h : Tree.ofTokens ts limit = .ok t) : t.Ordered ∧
      ∀ (source : String) (most : Option Nat), tokenize source most = .ok ts →
        t.Nested (byteSize source.toList) := by
  obtain ⟨final, s, last, formed, w, _, rfl⟩ := ofTokens_ok h
  refine ⟨w.shaped.ordered _, fun source most lexed => ?_⟩
  obtain ⟨spaced, size⟩ := ofTokens_spaced (tokenize_tiling lexed) last limit
  exact size ▸ tree_nested w formed spaced

/-- The tree of an arrow function. -/
theorem ofTokens_wellFormed_arrow : ∃ ts t, tokenize "x => { x }" none = .ok ts ∧
    Tree.ofTokens ts 1 = .ok t ∧ t.scopes.size = 2 ∧ t.Ordered ∧ t.Nested 10 := by
  have made : (tokenize "x => { x }" none).toOption.bind (fun ts =>
      (Tree.ofTokens ts 1).toOption.map (·.scopes.size)) = some 2 := by decide +kernel
  obtain ⟨ts, lexed, made⟩ := Option.bind_eq_some_iff.mp made
  obtain ⟨t, built, size⟩ := Option.map_eq_some_iff.mp made
  have lexed := ok_of_toOption lexed
  have built := ok_of_toOption built
  obtain ⟨ordered, nested⟩ := ofTokens_wellFormed built
  exact ⟨ts, t, lexed, built, size, ordered, nested "x => { x }" none lexed⟩

end Builder

end Scoping
