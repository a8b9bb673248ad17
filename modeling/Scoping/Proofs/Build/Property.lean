import Scoping.Proofs.Build.InStep

/-!
# The name of a property

A word behind a selector is the name of a property, and the builder passes over it. So another word in
its place makes the same run: the states on both sides differ in nothing but the token that was
consumed last, and in that only right behind the word (`Property.simulation`).

There the builder looks at it once. An expression ends at a line end before an operand, and at the word
`of` of a loop header, if an expression can end with the token before; so where one of these follows,
both words have to be such that an expression ends with them, or neither.
-/

namespace Scoping

/-- The token shows whether an expression can end with the one before it. -/
def Token.asksOperand (t : Token) : Bool :=
  t.flags.afterBreak && t.startsOperand || t.isContextual "of"

namespace Builder

/-- Another token at a place. -/
def Context.replace (c : Context) (place : Nat) (u : Token) : Context :=
  { c with tokens := c.tokens.setIfInBounds place u }

/-- The name of a property stands behind the selector at `point`, and `u` is a word that may stand for
it: it has the same span, and what follows does not show the difference. -/
structure Property (c : Context) (point : Nat) (u : Token) : Prop where
  inside : point + 1 < c.tokens.size
  selector : (c.token point).isSelector = true
  name : (c.token (point + 1)).isWord = true
  word : u.isWord = true
  span : u.span = (c.token (point + 1)).span
  hidden : (c.token (point + 2)).asksOperand = true →
    u.endsExpression = (c.token (point + 1)).endsExpression

namespace Property

variable {c : Context} {point : Nat} {u : Token} {s s' : State} {t : Token}

theorem token_name (property : Property c point u) : (c.replace (point + 1) u).token (point + 1) = u := by
  simp [Context.token, Context.replace, property.inside]

theorem token_other {n : Nat} (other : n ≠ point + 1) :
    (c.replace (point + 1) u).token n = c.token n := by
  simp [Context.token, Context.replace, Ne.symm other]

/-- The name of a property stands behind no identifier. -/
theorem token_behind (property : Property c point u) {n : Nat} (name : (c.token n).isIdentifier = true) :
    (c.replace (point + 1) u).token (n + 1) = c.token (n + 1) := by
  refine token_other fun same => ?_
  have selector := property.selector
  rw [← Nat.succ.inj same, Token.isSelector_of_isWord (Token.isWord_of_isIdentifier name)] at selector
  cases selector

/-- The runs have come to the same place outside the name, and to states that differ at most in the
name as the token consumed last. -/
structure Beside (c : Context) (point : Nat) (u : Token) (s s' : State) : Prop where
  outside : s.pos ≠ point + 1
  rest : s' = { s with prev := s'.prev }
  prev : s'.prev = s.prev ∨
    s.pos = point + 2 ∧ s.prev = some (c.token (point + 1)) ∧ s'.prev = some u

theorem declare_withPrev (s : State) (p : Option Token) (name : Token) (kind : BindingKind) :
    { s with prev := p }.declare name kind = { s.declare name kind with prev := p } := by
  have target : { s with prev := p }.target kind = s.target kind := rfl
  simp only [State.declare, target]
  split <;> rfl

theorem reopen_withPrev (s : State) (p : Option Token) (opener : Opener) :
    { s with prev := p }.reopen opener = { s.reopen opener with prev := p } := by
  obtain ⟨pos, prev, scopes, bindings, references, frames, depth⟩ := s
  cases frames <;> rfl

namespace Beside

variable (h : Beside c point u s s')
include h

theorem token_eq : (c.replace (point + 1) u).token s'.pos = c.token s.pos := by
  rw [h.rest]
  exact token_other h.outside

/-- What changes nothing at the cursor and the last token keeps the runs beside each other. -/
theorem map {f : State → State} (pos : (f s).pos = s.pos) (prev : ∀ s, (f s).prev = s.prev)
    (rest : ∀ p, f { s with prev := p } = { f s with prev := p }) : Beside c point u (f s) (f s') where
  outside := by rw [pos]; exact h.outside
  rest := by
    have moved := rest s'.prev
    rw [← h.rest] at moved
    rw [prev]
    exact moved
  prev := by
    rw [pos, prev, prev]
    exact h.prev

theorem prevEnd_eq (property : Property c point u) : s'.prevEnd = s.prevEnd := by
  unfold State.prevEnd
  rcases h.prev with same | ⟨_, before, before'⟩
  · rw [same]
  · rw [before, before']
    exact congrArg (·.stop) property.span

/-- A token that is no selector is passed over. -/
theorem behind (property : Property c point u) (ordinary : (c.token s.pos).isSelector = false)
    (notEnd : (c.token s.pos).isEnd = false) :
    Beside c point u (c.behind s) ((c.replace (point + 1) u).behind s') where
  outside := by
    rw [behind_pos notEnd]
    intro same
    have selector := property.selector
    rw [← Nat.succ.inj same, ordinary] at selector
    cases selector
  rest := by
    unfold Context.behind
    rw [h.token_eq, h.rest]
    rfl
  prev := by
    unfold Context.behind
    rw [h.token_eq]
    exact .inl rfl

end Beside

/-- The state behind a selector and the name of a property: the last token consumed is the name. -/
theorem behindName (notEnd : (c.token s.pos).isEnd = false)
    (word : (c.token (s.pos + 1)).isWord = true) :
    c.behindSelector s = { s with pos := s.pos + 2, prev := some (c.token (s.pos + 1)) } := by
  have first : c.behind s = { s with pos := s.pos + 1, prev := some (c.token s.pos) } := by
    simp [Context.behind, State.consume, notEnd]
  have notEnd' := Token.isEnd_of_isWord word
  unfold Context.behindSelector
  rw [first, if_pos word]
  simp [Context.behind, State.consume, notEnd']

theorem Beside.select (property : Property c point u) (h : Beside c point u s s')
    (selector : (c.token s.pos).isSelector = true) :
    Beside c point u (c.behindSelector s) ((c.replace (point + 1) u).behindSelector s') := by
  have notEnd := (Token.isFlat_iff.mp (Token.isFlat_of_isSelector selector)).1
  have pos : s'.pos = s.pos := by rw [h.rest]
  have same := h.token_eq
  rw [pos] at same
  by_cases before : s.pos = point
  · have word : (c.token (s.pos + 1)).isWord = true := before ▸ property.name
    have found : (c.replace (point + 1) u).token (s'.pos + 1) = u := by
      rw [pos, before, property.token_name]
    rw [behindName notEnd word, behindName (by rw [pos, same]; exact notEnd)
      (by rw [found]; exact property.word), found, pos]
    refine ⟨?_, ?_, .inr ⟨?_, ?_, rfl⟩⟩
    · show s.pos + 2 ≠ point + 1
      omega
    · rw [h.rest]
    · show s.pos + 2 = point + 2
      rw [before]
    · show some (c.token (s.pos + 1)) = some (c.token (point + 1))
      rw [before]
  · have other : (c.replace (point + 1) u).token (s.pos + 1) = c.token (s.pos + 1) :=
      token_other fun same => before (Nat.succ.inj same)
    have outside : s.pos + 1 ≠ point + 1 := fun same => before (Nat.succ.inj same)
    have first : Beside c point u (c.behind s) ((c.replace (point + 1) u).behind s') := by
      refine ⟨by rw [behind_pos notEnd]; exact outside, ?_, .inl ?_⟩
      · unfold Context.behind
        rw [h.token_eq, h.rest]
        rfl
      · rw [behind_prev, behind_prev, h.token_eq]
    unfold Context.behindSelector
    rw [first.token_eq]
    split
    · next word =>
      exact first.behind property (Token.isSelector_of_isWord word) (Token.isEnd_of_isWord word)
    · exact first

/-! ## The two runs -/

theorem startsArrow_eq (property : Property c point u) (place : Nat) :
    (c.replace (point + 1) u).startsArrow place = c.startsArrow place := by
  have noArrow {t : Token} (word : t.isWord = true) : t.isPunct .arrow = false := by
    unfold Token.isWord at word
    cases kind : t.kind <;> simp_all [Token.isPunct]
  have partner : (c.replace (point + 1) u).partner? place = c.partner? place := rfl
  unfold Context.startsArrow
  rw [partner]
  cases c.partner? place with
  | none => rfl
  | some close =>
    rw [Option.bind_some, Option.bind_some]
    by_cases there : close = point
    · have before : c.tokens[close + 1]? = some (c.token (point + 1)) := by
        simp [Context.token, there, property.inside]
      have behind : (c.replace (point + 1) u).tokens[close + 1]? = some u := by
        simp [Context.replace, there, property.inside]
      rw [before, behind, Option.any_some, Option.any_some, noArrow property.name,
        noArrow property.word]
    · have other : (c.replace (point + 1) u).tokens[close + 1]? = c.tokens[close + 1]? := by
        simp [Context.replace, Ne.symm there]
      rw [other]

/-- A run goes on in the same way when another word stands for the name of a property. -/
def simulation (property : Property c point u) : Simulation c (c.replace (point + 1) u) where
  rel := Beside c point u
  same := Eq
  fails := Eq
  lost _ := False
  ids := Eq
  shift := 0
  rounds := by simp [Context.rounds, Context.replace]
  arrows {place} _ := property.startsArrow_eq place
  alike same := .inl (same ▸ .refl _)
  pos h := by rw [h.rest, Nat.add_zero]
  here h := h.token_eq.symm
  next h name := by
    rw [h.rest]
    exact (property.token_behind name).symm
  afterNext h name := by
    rw [h.rest]
    exact (property.token_behind name).symm
  operand {s s'} h asks := by
    rcases h.prev with same | ⟨pos, before, behind⟩
    · rw [same]
    · rw [before, behind, Option.any_some, Option.any_some]
      refine property.hidden ?_
      rw [← pos]
      simpa [Token.asksOperand] using asks
  closesTop h closes := by
    rw [h.rest]
    exact closes
  behind h ordinary := by
    simp only [Token.isOrdinary, Bool.and_eq_true, Bool.not_eq_true'] at ordinary
    exact h.behind property ordinary.2 ordinary.1
  select h selector := h.select property selector
  refer h same _ := by
    subst same
    exact h.map (f := (State.refer · _)) rfl (fun _ => rfl) fun _ => rfl
  declare kind h same _ := by
    subst same
    exact h.map (State.declare_pos ..) (fun _ => State.declare_prev ..) fun p =>
      declare_withPrev _ p _ kind
  enter {s s'} h allowed := by
    refine ⟨?_, h.map rfl (fun _ => rfl) fun _ => rfl⟩
    rw [h.rest]
    exact allowed
  tooDeep {s s'} h deep := by
    refine .inr ⟨?_, ?_⟩
    · rw [h.rest]
      exact deep
    · rw [h.token_eq]
      rfl
  leave h := h.map rfl (fun _ => rfl) fun _ => rfl
  openScope {s s' label label'} kind opener h _ labels := by
    have same := labels.eq fun _ _ => id
    subst same
    rw [h.token_eq, Opener.moved_zero]
    refine ⟨by rw [h.rest], h.map (f := (State.pushScope · kind label' _ opener)) rfl
      (fun _ => rfl) fun _ => rfl⟩
  reopen opener h := by
    rw [Opener.moved_zero]
    exact h.map (State.reopen_pos ..) (fun _ => State.reopen_prev ..) fun p =>
      reopen_withPrev _ p opener
  closeScope {s s' f id'} h top ids := by
    subst ids
    rw [h.prevEnd_eq property]
    refine ⟨f, by rw [h.rest]; exact top, rfl, h.map (f := (State.popScope · f.scope _)) rfl
      (fun _ => rfl) fun _ => rfl⟩
  unexpected {s s'} wanted h := by
    have frame : s'.openFrame? = s.openFrame? := by rw [h.rest]; rfl
    have partner : (c.replace (point + 1) u).partner? s'.pos = c.partner? s.pos := by
      rw [h.rest]; rfl
    unfold Context.unexpected
    rw [h.token_eq, frame, partner]
  refused reason h := by rw [h.token_eq]

/-! ## Whole runs -/

theorem levels_replace (c : Context) (place : Nat) (u : Token) :
    (c.replace place u).levels = c.levels := by
  simp [Context.levels, Context.rounds, Context.replace]

/-- Both runs leave the same tree behind, or end in the same error. -/
theorem run_tree (property : Property c point u) (formed : c.Formed) {level : Nat}
    (enough : c.levels ≤ level) (size : Nat) :
    (run level (c.replace (point + 1) u)).map (·.tree size) =
      (run level c).map (·.tree size) := by
  have start : Beside c point u .start .start := ⟨nofun, rfl, .inl rfl⟩
  have stands := property.simulation.run_cases (fun beside => by rw [beside.token_eq])
    (fun beside closed => by rw [beside.rest]; exact closed) start formed enough
  rcases stands with ⟨s, t, ran, ran', beside⟩ | ⟨e, ran, lost | ⟨_, ran', rfl⟩⟩
  · have same : t.tree size = s.tree size := by
      rw [beside.rest]
      rfl
    rw [ran, ran']
    exact congrArg Except.ok same
  · exact lost.elim
  · rw [ran, ran']

end Property

end Builder

open Builder

/-- A word in place of another leaves the pairs of brackets alone. -/
theorem matchBrackets_word (before behind : List Token) {t u : Token} (word : t.isWord = true)
    (other : u.isWord = true) :
    matchBrackets (before ++ u :: behind) = matchBrackets (before ++ t :: behind) := by
  obtain ⟨_, opens, closes⟩ := Token.isFlat_iff.mp (Token.isFlat_of_isWord word)
  obtain ⟨_, opens', closes'⟩ := Token.isFlat_iff.mp (Token.isFlat_of_isWord other)
  unfold matchBrackets
  rw [List.foldl_append, List.foldl_cons, List.foldl_append, List.foldl_cons,
    BracketScan.step_of_neither opens closes, BracketScan.step_of_neither opens' closes']

section
variable {front back earlier : List Token} {selector t u final : Token} {limit : Nat}

theorem significant_word (back : List Token) (before : significant front = earlier ++ [selector])
    (word : t.isWord = true) :
    significant (front ++ t :: back) = earlier ++ selector :: t :: significant back := by
  have notComment : t.isComment = false := by
    unfold Token.isWord at word
    cases kind : t.kind <;> simp_all [Token.isComment]
  unfold significant at before ⊢
  rw [List.filter_append, before, List.filter_cons_of_pos (by simp [notComment]),
    List.append_assoc]
  rfl

/-- What a run reads is the same but for the word. -/
theorem ofTokens_replace (before : significant front = earlier ++ [selector])
    (word : t.isWord = true) (other : u.isWord = true) :
    Context.ofTokens (front ++ u :: back) final limit =
      (Context.ofTokens (front ++ t :: back) final limit).replace (earlier.length + 1) u := by
  have brackets := matchBrackets_word (earlier ++ [selector]) (significant back) word other
  simp only [List.append_assoc, List.singleton_append] at brackets
  unfold Context.ofTokens Context.replace
  simp [significant_word back before word, significant_word back before other, brackets]

theorem ofTokens_isProperty (before : significant front = earlier ++ [selector])
    (selects : selector.isSelector = true) (word : t.isWord = true) (other : u.isWord = true)
    (span : u.span = t.span) (atEnd : final.isEnd = true)
    (hidden : (significant back).head?.any Token.asksOperand = true →
      u.endsExpression = t.endsExpression) :
    Property (Context.ofTokens (front ++ t :: back) final limit) earlier.length u := by
  have tokens := significant_word back before word
  have at_point : (Context.ofTokens (front ++ t :: back) final limit).token earlier.length =
      selector := by
    simp [Context.token, Context.ofTokens, tokens]
  have at_name : (Context.ofTokens (front ++ t :: back) final limit).token (earlier.length + 1) =
      t := by
    simp [Context.token, Context.ofTokens, tokens]
  have behind : (Context.ofTokens (front ++ t :: back) final limit).token (earlier.length + 2) =
      (significant back).headD final := by
    simp only [Context.token, Context.ofTokens, tokens, Array.getD_eq_getD_getElem?,
      List.getElem?_toArray]
    rw [List.getElem?_append_right (Nat.le_add_right _ _), Nat.add_sub_cancel_left,
      List.headD_eq_head?_getD, List.head?_eq_getElem?]
    rfl
  refine ⟨by simp [Context.ofTokens, tokens], ?_, ?_, other, ?_, ?_⟩
  · rw [at_point]
    exact selects
  · rw [at_name]
    exact word
  · rw [at_name]
    exact span
  · rw [at_name, behind]
    intro asks
    refine hidden ?_
    cases rest : significant back with
    | nil =>
      rw [rest] at asks
      simp [Token.asksOperand, Token.startsOperand, Token.isContextual, Token.isIdentifier,
        (show final.kind = .endOfInput by simpa [Token.isEnd] using atEnd)] at asks
    | cons next rest =>
      rw [rest] at asks
      exact asks

/-- Another word for the name of a property makes the same tree, or the same error, unless an operand
behind it shows the difference. -/
theorem ofTokens_property (before : significant front = earlier ++ [selector])
    (selects : selector.isSelector = true) (word : t.isWord = true) (other : u.isWord = true)
    (span : u.span = t.span)
    (hidden : (significant back).head?.any Token.asksOperand = true →
      u.endsExpression = t.endsExpression) :
    Tree.ofTokens (front ++ u :: back) limit = Tree.ofTokens (front ++ t :: back) limit := by
  unfold Tree.ofTokens
  refine congrArg (Except.mapError _) ?_
  rcases List.eq_nil_or_concat back with rfl | ⟨more, final, ends⟩
  · simp [Tree.build, Token.isEnd_of_isWord word, Token.isEnd_of_isWord other, span]
  have last (v : Token) : (front ++ v :: back).getLast? = some final := by
    rw [List.getLast?_append, List.getLast?_cons, ends]
    simp
  simp only [Tree.build, last t, last u]
  split
  · next atEnd =>
    have formed := ofTokens_formed (last t) atEnd limit
    have property : Property (Context.ofTokens (front ++ t :: back) final limit) earlier.length u :=
      ofTokens_isProperty before selects word other span atEnd hidden
    have levels := Property.levels_replace (Context.ofTokens (front ++ t :: back) final limit)
      (earlier.length + 1) u
    rw [ofTokens_replace before word other, levels]
    exact property.run_tree formed (Nat.le_refl _) final.span.stop
  · rfl

end

end Scoping
