import Scoping.Proofs.Build.Finish
import Scoping.Proofs.Build.InStep

/-!
# A limit on nesting only cuts off

The limit is asked for where a level is entered and nowhere else. So a run with a lower limit goes in
step with one with a higher limit, both in the same state, until it fails for nesting too deep
(`Nesting.simulation`). A run that does not fail leaves every level that it has entered, and no scope
is deeper than the limit (`ofTokens_limit`).
-/

namespace Scoping

open Builder

namespace Builder

/-- The same tokens under another limit. -/
def Context.within (c : Context) (limit : Nat) : Context := { c with limit := limit }

namespace Nesting

variable {c : Context} {limit : Nat}

/-- With a higher limit a run goes on in the same way as long as the lower one lets it. -/
def simulation (wider : c.limit ≤ limit) : Simulation c (c.within limit) where
  rel := Eq
  same := Eq
  fails := Eq
  lost e := e.reason = .nestingTooDeep c.limit
  ids := Eq
  shift := 0
  rounds := Nat.le_refl _
  arrows _ := rfl
  alike same := .inl (same ▸ .refl _)
  pos same := by rw [same]; rfl
  here same := by rw [same]; rfl
  next same _ := by rw [same]; rfl
  afterNext same _ := by rw [same]; rfl
  operand same _ := by rw [same]
  closesTop same closes := by rw [← same]; exact closes
  behind same _ := by rw [same]; rfl
  select same _ := by rw [same]; rfl
  refer same token _ := by rw [same, token]
  declare kind same token _ := by rw [same, token]
  enter {s s'} same allowed := by
    subst same
    exact ⟨Nat.lt_of_lt_of_le allowed wider, rfl⟩
  tooDeep _ _ := .inl rfl
  leave same := by rw [same]
  openScope {s s' label label'} kind opener same _ labels := by
    have label := labels.eq fun _ _ => id
    rw [same, label, Opener.moved_zero]
    exact ⟨rfl, rfl⟩
  reopen opener same := by rw [same, Opener.moved_zero]
  closeScope {s s' f id'} same top ids := by
    subst same ids
    exact ⟨f, top, rfl, rfl⟩
  unexpected wanted same := by rw [same]; rfl
  refused reason same := by rw [same]; rfl

/-- The run with the lower limit nests too deep, or is the run with the higher one. -/
theorem run_eq (wider : c.limit ≤ limit) (formed : c.Formed) {level : Nat} (enough : c.levels ≤ level) :
    (∃ place, run level c = .error (.rejected ⟨place, .nestingTooDeep c.limit⟩)) ∨
      run level c = run level (c.within limit) := by
  have stands := (simulation wider).run_cases (fun same => by rw [same]; rfl)
    (fun same closed => by rw [← same]; exact closed) rfl formed enough
  rcases stands with ⟨s, _, ran, ran', rfl⟩ | ⟨⟨place, reason⟩, ran, deep | ⟨_, ran', rfl⟩⟩
  · exact .inr (ran.trans ran'.symm)
  · cases deep
    exact .inl ⟨place, ran⟩
  · exact .inr (ran.trans ran'.symm)

end Nesting

/-- A lower limit on nesting fails for nesting too deep, or makes what a higher one does. Where it makes
a tree, the run has left all levels behind, and no scope has more scopes around it than the limit. -/
theorem ofTokens_limit {ts : List Token} {final : Token} (last : ts.getLast? = some final)
    (atEnd : final.isEnd = true) {limit limit' : Nat} (wider : limit ≤ limit') :
    ((∃ place, Tree.ofTokens ts limit = .error ⟨place, .nestingTooDeep limit⟩) ∨
      Tree.ofTokens ts limit = Tree.ofTokens ts limit') ∧
    ∀ t, Tree.ofTokens ts limit = .ok t → ∃ s,
      run (Context.ofTokens ts final limit).levels (Context.ofTokens ts final limit) = .ok s ∧
        t = s.tree final.span.stop ∧ s.depth = 0 ∧
        ∀ i < t.scopes.size, ∃ l, WayUp t.scopes (i :: l) ∧ l.length ≤ limit := by
  constructor
  · have formed := ofTokens_formed last atEnd limit
    have lower : (Context.ofTokens ts final limit).limit ≤ limit' := wider
    unfold Tree.ofTokens Tree.build
    simp only [last, atEnd, ↓reduceIte]
    rcases Nesting.run_eq lower formed (Nat.le_refl _) with ⟨place, deep⟩ | same
    · refine .inl ⟨place, ?_⟩
      rw [deep]
      rfl
    · refine .inr ?_
      -- What is reported would show the limit where a run were exhausted, which none is.
      have ends := run_ends formed (Nat.le_refl _)
      rw [same] at ends ⊢
      change _ = Except.mapError (·.report limit') (Except.map (·.tree final.span.stop)
        (run (Context.ofTokens ts final limit).levels
          ((Context.ofTokens ts final limit).within limit')))
      revert ends
      cases run (Context.ofTokens ts final limit).levels
          ((Context.ofTokens ts final limit).within limit') with
      | ok s => exact fun _ => rfl
      | error e =>
        cases e with
        | rejected e => exact fun _ => rfl
        | inconsistent e => exact fun _ => rfl
        | exhausted => exact fun sound => sound.elim
  · intro t h
    obtain ⟨final', s, last', _, made, rfl⟩ := ofTokens_run h
    obtain rfl : final' = final := Option.some.inj (last'.symm.trans last)
    have ends := run_ends (ofTokens_formed last atEnd limit) (Nat.le_refl _)
    rw [made] at ends
    have w := ends.1
    refine ⟨s, made, rfl, w.depth_eq, fun i inside => ?_⟩
    have alike := alike_tree s (Context.ofTokens ts final' limit).sourceSize
    obtain ⟨l, way, short⟩ := w.shaped.shallow i (alike.size_eq ▸ inside)
    exact ⟨l, alike.wayUp way, short⟩

/-- Two blocks inside each other are too deep for one level, but not for two. -/
theorem ofTokens_limit_blocks : ∃ ts final, ts.getLast? = some final ∧ final.isEnd = true ∧
    Tree.ofTokens ts 1 = .error ⟨1, .nestingTooDeep 1⟩ ∧
    ((∃ place, Tree.ofTokens ts 2 = .error ⟨place, .nestingTooDeep 2⟩) ∨
      Tree.ofTokens ts 2 = Tree.ofTokens ts 9) ∧
    ∃ (t : Tree) (s : State),
      Tree.ofTokens ts 2 = .ok t ∧ t = s.tree final.span.stop ∧ s.depth = 0 := by
  let brace (p : Punctuation) (text : String) (offset : Nat) : Token :=
    ⟨.punctuation p, text, ⟨offset, offset + 1⟩, .none⟩
  let final : Token := ⟨.endOfInput, "", .point 4, .none⟩
  let ts : List Token := [brace .openBrace "\x7b" 0, brace .openBrace "\x7b" 1,
    brace .closeBrace "\x7d" 2, brace .closeBrace "\x7d" 3, final]
  have last : ts.getLast? = some final := rfl
  have made : ((Tree.ofTokens ts 2).toOption.map fun t => t.scopes.size) = some 3 := by
    decide +kernel
  obtain ⟨t, built, _⟩ := Option.map_eq_some_iff.mp made
  have built := ok_of_toOption built
  have wider : (2 : Nat) ≤ 9 := by decide
  obtain ⟨same, shape⟩ := ofTokens_limit last rfl wider
  obtain ⟨s, _, tree, depth, _⟩ := shape t built
  have deep : (match Tree.ofTokens ts 1 with
      | .ok _ => none
      | .error e => some e) = some ⟨1, .nestingTooDeep 1⟩ := by decide +kernel
  refine ⟨ts, final, last, rfl, ?_, same, t, s, built, tree, depth⟩
  split at deep
  · cases deep
  · next e failed =>
    rw [failed, Option.some.inj deep]

end Builder

end Scoping
