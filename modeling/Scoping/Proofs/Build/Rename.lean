import Mathlib.Logic.Equiv.Basic
import Scoping.Proofs.Build.Finish
import Scoping.Proofs.Build.Retell
import Scoping.Proofs.Resolve.Bind

/-!
# Renaming and respacing

What a program binds does not depend on how its names are spelled or where its tokens stand. Two lists
of tokens that are the same but for spans and for names, which are changed by one injective map, are
refused for the same reason at the same token, or make trees that differ in names and offsets alone; and
every use of a name is bound to the same binding (`ofTokens_renamed`).
-/

namespace Scoping

open Builder

/-! ## Looking names up -/

/-- What the uses of names resolve to, in order. -/
theorem Tree.map_resolved (t : Tree) : t.bind.occurrences.toList.map (·.resolved) =
    t.references.toList.map fun r => t.lookUp r.scope r.name := by
  rw [Tree.bind_occurrences]
  refine List.ext_getElem? fun i => ?_
  rw [List.getElem?_map, List.getElem?_map, List.getElem?_mapIdx, Option.map_map]
  rfl

namespace Tree.Renamed

variable {rename : String → String} {t t' : Tree} (h : t.Renamed rename t')
include h

theorem scope_rel (i : ScopeId) : Option.Rel (Scope.Renamed rename) (t.scope? i) (t'.scope? i) := by
  simpa [Tree.scope?] using forall₂_getElem? h.scopes i

theorem chainFrom_rel (steps : Nat) (i : ScopeId) :
    List.Forall₂ (Scope.Renamed rename) (t.chainFrom steps i) (t'.chainFrom steps i) := by
  induction steps generalizing i with
  | zero => exact .nil
  | succ steps ih =>
    have at_i := h.scope_rel i
    simp only [Tree.chainFrom]
    generalize t.scope? i = x, t'.scope? i = x' at at_i
    cases at_i with
    | none => exact .nil
    | some same =>
      refine .cons same ?_
      rw [same.parent]
      split
      · exact .nil
      · exact ih _

/-- A name means what it meant before it was renamed. -/
theorem lookUp_eq (injective : Function.Injective rename) (i : ScopeId) (name : String) :
    t'.lookUp i (rename name) = t.lookUp i name := by
  have around : List.Forall₂ (Scope.Renamed rename) (t.ancestors i) (t'.ancestors i) := by
    have at_i := h.scope_rel i
    unfold Tree.ancestors
    generalize t.scope? i = x, t'.scope? i = x' at at_i
    cases at_i with
    | none => exact .nil
    | some same =>
      dsimp only
      rw [same.id]
      exact h.chainFrom_rel _ _
  unfold Tree.lookUp
  generalize t.ancestors i = xs, t'.ancestors i = xs' at around
  induction around with
  | nil => rfl
  | cons same _ ih =>
    rw [List.findSome?_cons, List.findSome?_cons, Scope.find?, Scope.find?, same.declarations,
      Declarations.find?_renamed injective, ih]

/-- Every use of a name is bound to the same binding. -/
theorem bind_resolved (injective : Function.Injective rename) :
    t'.bind.occurrences.toList.map (·.resolved) = t.bind.occurrences.toList.map (·.resolved) := by
  rw [Tree.map_resolved, Tree.map_resolved]
  have references := h.references
  generalize t.references.toList = rs, t'.references.toList = rs' at references
  induction references with
  -- The two walks must not be compared by computing them.
  | nil => rw [List.map_nil, List.map_nil]
  | cons same _ ih =>
    rw [List.map_cons, List.map_cons, ih, same.name, same.scope, h.lookUp_eq injective]

end Tree.Renamed

namespace Builder

/-! ## Two lists of tokens -/

section
variable {ts ts' : List Token} {rename : String → String}

/-- The tokens stand at one place of the two lists. -/
def At (ts ts' : List Token) (t t' : Token) : Prop := ∃ n : Nat, ts[n]? = some t ∧ ts'[n]? = some t'

/-- The offsets are those where a token of one list and its counterpart begin, or end, or those where
both texts begin. -/
def Places (ts ts' : List Token) (m m' : Nat) : Prop :=
  m = 0 ∧ m' = 0 ∨ ∃ t t', At ts ts' t t' ∧
    (m = t.span.start ∧ m' = t'.span.start ∨ m = t.span.stop ∧ m' = t'.span.stop)

variable (retold : List.Forall₂ (Token.Retold rename) ts ts')
include retold

theorem retold_of_at {t t' : Token} (h : At ts ts' t t') : t.Retold rename t' := by
  obtain ⟨n, at_n, at_n'⟩ := h
  have rel := forall₂_getElem? retold n
  rw [at_n, at_n'] at rel
  cases rel with
  | some same => exact same

theorem significant_rel : List.Forall₂ (At ts ts') (significant ts) (significant ts') := by
  have both : List.Forall₂ (fun t t' => At ts ts' t t' ∧ t.Retold rename t') ts ts' := by
    refine List.forall₂_iff_get.mpr ⟨retold.length_eq, fun n inside inside' => ?_⟩
    have at_n : At ts ts' (ts.get ⟨n, inside⟩) (ts'.get ⟨n, inside'⟩) :=
      ⟨n, by simp [inside], by simp [inside']⟩
    exact ⟨at_n, retold_of_at retold at_n⟩
  refine (List.rel_filter ?_ both).imp fun _ _ both => both.1
  intro t t' both
  simp [both.2.isComment]

theorem significant_retold :
    List.Forall₂ (Token.Retold rename) (significant ts) (significant ts') :=
  (significant_rel retold).imp fun _ _ at_n => retold_of_at retold at_n

/-- Brackets are paired alike. -/
theorem matchBrackets_retold : matchBrackets ts' = matchBrackets ts := by
  have step (b : BracketScan) {t t' : Token} (same : t.Retold rename t') : b.step t' = b.step t := by
    unfold BracketScan.step
    rw [same.kind]
  unfold matchBrackets
  generalize BracketScan.start = b
  refine congrArg BracketScan.partners ?_
  induction retold generalizing b with
  | nil => rfl
  | cons same _ ih => rw [List.foldl_cons, List.foldl_cons, step b same, ih]

variable {final final' : Token}

/-- The two lists as a program and its retelling. -/
def retelling (injective : Function.Injective rename) (words : ∀ w ∈ contextualWords, rename w = w)
    (last : ts.getLast? = some final) (atEnd : final.isEnd = true) (limit : Nat) :
    Retelling (Context.ofTokens ts final limit) (Context.ofTokens ts' final' limit) where
  rename := rename
  same := At ts ts'
  places := Places ts ts'
  shift := 0
  lift := 0
  base := 1
  inside := False
  injective := injective
  words := words
  told {t t'} same := .inl ⟨retold_of_at retold same, .inr ⟨t, t', same, .inl ⟨rfl, rfl⟩⟩,
    .inr ⟨t, t', same, .inr ⟨rfl, rfl⟩⟩⟩
  formed := ofTokens_formed last atEnd limit
  token {n} inside := by
    have inside : n < (significant ts).length := inside
    have rel := significant_rel retold
    have inside' : n < (significant ts').length := rel.length_eq ▸ inside
    rw [Nat.add_zero, token_ofTokens inside, token_ofTokens inside']
    exact (List.forall₂_iff_get.mp rel).2 n inside inside'
  rounds := by
    have size := (significant_rel retold).length_eq
    simp [Context.rounds, Context.ofTokens, size]
  limit := rfl
  even _ := rfl
  partner {place close} paired := by
    have same := matchBrackets_retold (significant_retold retold)
    simpa only [Nat.add_zero, Context.partner?, Context.ofTokens, same] using paired
  arrows {place} _ := by
    have same := matchBrackets_retold (significant_retold retold)
    have partner : (Context.ofTokens ts' final' limit).partner? (place + 0) =
        (Context.ofTokens ts final limit).partner? place := by
      simp only [Nat.add_zero, Context.partner?, Context.ofTokens, same]
    unfold Context.startsArrow
    rw [partner]
    cases (Context.ofTokens ts final limit).partner? place with
    | none => rfl
    | some close =>
      rw [Option.bind_some, Option.bind_some]
      have rel := forall₂_getElem? (significant_retold retold) (close + 1)
      simp only [Context.ofTokens, List.getElem?_toArray]
      generalize (significant ts)[close + 1]? = x, (significant ts')[close + 1]? = x' at rel
      cases rel with
      | none => rfl
      | some told => rw [Option.any_some, Option.any_some, Token.isPunct, Token.isPunct, told.kind]
  closers _ place := by
    have same := matchBrackets_retold (significant_retold retold)
    simp only [Nat.add_zero, Context.partner?, Context.ofTokens, same]

/-- Before anything is read the runs are beside each other. -/
theorem retelling_start (injective : Function.Injective rename)
    (words : ∀ w ∈ contextualWords, rename w = w) (last : ts.getLast? = some final)
    (atEnd : final.isEnd = true) (limit : Nat) :
    (retelling retold injective words last atEnd limit : Retelling (Context.ofTokens ts final limit)
      (Context.ofTokens ts' final' limit)).Beside .start .start where
  inside := (ofTokens_formed last atEnd limit).nonempty
  pos := rfl
  operand := rfl
  prevEnd := .inl ⟨rfl, rfl⟩
  scopes := .cons ⟨⟨rfl, rfl, rfl, rfl, by simp [Declarations.renamed]⟩, .fixed (by decide),
    fun late => absurd late (Nat.not_succ_le_zero 0)⟩ .nil
  bindings := .nil
  references := .nil
  frames := .cons ⟨rfl, nofun, fun late => absurd late (Nat.not_succ_le_zero 0)⟩ .nil
  depth := Nat.le_refl _
  deep := Nat.le_refl _

end

/-- Names and offsets are nothing that the grammar asks for. Tokens that differ in their spans, and in
names that an injective map changes which leaves the contextual words alone, are refused at the same
token for the same reason; or they make trees that are the same but for names, labels and offsets, and
each use of a name is bound to the same binding. -/
theorem ofTokens_renamed {ts ts' : List Token} {final : Token} {rename : String → String}
    (last : ts.getLast? = some final) (atEnd : final.isEnd = true)
    (injective : Function.Injective rename) (words : ∀ w ∈ contextualWords, rename w = w)
    (retold : List.Forall₂ (Token.Retold rename) ts ts') (limit : Nat) :
    (∃ e e' t t', Tree.ofTokens ts limit = .error e ∧ Tree.ofTokens ts' limit = .error e' ∧
      At ts ts' t t' ∧ e.position = t.span.start ∧ e'.position = t'.span.start ∧
      SameReason (At ts ts') (Places ts ts') e.reason e'.reason) ∨
    ∃ t t', Tree.ofTokens ts limit = .ok t ∧ Tree.ofTokens ts' limit = .ok t' ∧
      t.Renamed rename t' ∧
      t'.bind.occurrences.toList.map (·.resolved) = t.bind.occurrences.toList.map (·.resolved) := by
  obtain ⟨final', last', atEnd'⟩ : ∃ final', ts'.getLast? = some final' ∧ final'.isEnd = true := by
    have rel := forall₂_getElem? retold (ts.length - 1)
    have length := retold.length_eq
    rw [← List.getLast?_eq_getElem?, last] at rel
    rw [length, ← List.getLast?_eq_getElem?] at rel
    generalize ts'.getLast? = x at rel
    cases rel with
    | some same => exact ⟨_, rfl, by rw [same.isEnd, atEnd]⟩
  have formed := ofTokens_formed last atEnd limit
  have formed' := ofTokens_formed last' atEnd' limit
  set R : Retelling (Context.ofTokens ts final limit) (Context.ofTokens ts' final' limit) :=
    retelling retold injective words last atEnd limit with defined
  have start : R.Beside .start .start := retelling_start retold injective words last atEnd limit
  have levels : (Context.ofTokens ts final limit).levels ≤
      (Context.ofTokens ts' final' limit).levels := Nat.mul_le_mul_left 2 R.rounds
  have meets := program_inStep (level_inStep (R.simulation fun _ => Nat.le_refl 1) levels)
    (fun {s s'} beside => by
      rcases R.told (Retelling.Beside.same_token beside) with ⟨told, _⟩ | ⟨_, none⟩
      · exact told.isEnd
      · exact none.elim)
    (fun {s s'} beside none => by
      have rel := Retelling.Beside.openFrame_rel beside (Nat.le_refl 1)
      rw [none] at rel
      generalize s'.openFrame? = x at rel
      cases rel
      rfl) start
  have ends := run_ends formed (Nat.le_refl _)
  unfold run at ends
  unfold Tree.ofTokens Tree.build run
  simp only [last, last', atEnd, atEnd', ↓reduceIte]
  revert meets ends
  cases ((program (Grammar.level (Context.ofTokens ts final limit).levels)).run
      (Context.ofTokens ts final limit)).run State.start with
  | ok out =>
    rintro ⟨_, s', ran, _, beside⟩ _
    rw [ran]
    have trees := Retelling.Beside.tree beside (Context.ofTokens ts final limit).sourceSize
      (Context.ofTokens ts' final' limit).sourceSize
    exact .inr ⟨_, _, rfl, rfl, trees, trees.bind_resolved injective⟩
  | error e =>
    cases e with
    | rejected e =>
      rintro (none | ⟨e', ran, none | ⟨t, t', same, position, position', reason⟩⟩) _
      · exact none.elim
      · exact none.elim
      · rw [ran]
        exact .inl ⟨e, e', t, t', rfl, rfl, same, position, position', reason⟩
    | inconsistent e => exact fun _ sound => sound.elim
    | exhausted => exact fun _ sound => sound.elim

/-- An arrow function with another name for its parameter, elsewhere. -/
theorem ofTokens_renamed_arrow : ∃ (ts ts' : List Token) (final : Token) (rename : String → String),
    ts.getLast? = some final ∧ final.isEnd = true ∧ Function.Injective rename ∧
    (∀ w ∈ contextualWords, rename w = w) ∧ List.Forall₂ (Token.Retold rename) ts ts' ∧
    ∃ t t', Tree.ofTokens ts 1 = .ok t ∧ Tree.ofTokens ts' 1 = .ok t' ∧ t.Renamed rename t' ∧
      t'.bind.occurrences.toList.map (·.resolved) =
        t.bind.occurrences.toList.map (·.resolved) := by
  let arrow (name : String) (offset : Nat) : List Token :=
    [⟨.identifier, name, ⟨offset, offset + 1⟩, .none⟩,
      ⟨.punctuation .arrow, "=>", ⟨offset + 1, offset + 3⟩, .none⟩,
      ⟨.identifier, name, ⟨offset + 3, offset + 4⟩, .none⟩,
      ⟨.endOfInput, "", .point (offset + 4), .none⟩]
  have words : ∀ w ∈ contextualWords, Equiv.swap "a" "b" w = w := by decide
  have retold : List.Forall₂ (Token.Retold (Equiv.swap "a" "b")) (arrow "a" 0) (arrow "b" 9) := by
    refine .cons ⟨rfl, rfl, ?_⟩ (.cons ⟨rfl, rfl, rfl⟩ (.cons ⟨rfl, rfl, ?_⟩
      (.cons ⟨rfl, rfl, rfl⟩ .nil))) <;> decide
  have injective : Function.Injective (Equiv.swap "a" "b") := (Equiv.swap "a" "b").injective
  have built : (Tree.ofTokens (arrow "a" 0) 1).toOption.isSome = true := by decide +kernel
  refine ⟨arrow "a" 0, arrow "b" 9, ⟨.endOfInput, "", .point 4, .none⟩, Equiv.swap "a" "b", rfl, rfl,
    injective, words, retold, ?_⟩
  have last : (arrow "a" 0).getLast? = some ⟨.endOfInput, "", .point 4, .none⟩ := rfl
  rcases ofTokens_renamed last rfl injective words retold 1 with ⟨e, _, _, _, failed, _⟩ | both
  · rw [failed] at built
    cases built
  · exact both

end Builder

end Scoping
