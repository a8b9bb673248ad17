import Scoping.Proofs.Build.Run
import Scoping.Proofs.Build.Simulation

/-!
# Productions in step

Every production goes in step with itself over any simulation, when the statements and expressions
inside it do. The proofs follow the text of the productions, and so does the order in which they
stand.
-/

namespace Scoping

namespace Builder

/-- The statements and expressions of two grammars go in step. -/
structure Simulation.Serves {c c' : Context} (S : Simulation c c') (g g' : Grammar) : Prop where
  statement : ∀ (place : StatementPlace) (s s' : State),
    S.InStep Eq (g.statement place) (g'.statement place) s s'
  expression : ∀ (mode : ExpressionMode) (s s' : State),
    S.InStep Eq (g.expression mode) (g'.expression mode) s s'
  /-- No statement stands before the end of input. -/
  noStatement : ∀ (place : StatementPlace) (s : State), (c.token s.pos).isEnd = true →
    (g.statement place).Ends c (fun _ => True) (fun _ _ => False) s
  /-- An expression before the end of input is empty. -/
  noExpression : ∀ (mode : ExpressionMode) (s : State), (c.token s.pos).isEnd = true →
    (g.expression mode).Ends c (fun _ => True) (fun _ t => t = s) s

variable {c c' : Context} {S : Simulation c c'} {g g' : Grammar} {s s' : State}

open Token

/-! ## Lists, blocks and groups -/

theorem statementsFor_inStep (serves : S.Serves g g') {rounds rounds' : Nat}
    (more : rounds ≤ rounds') :
    S.InStep Eq (statementsFor g rounds) (statementsFor g' rounds') s s' := by
  induction rounds generalizing rounds' s s' with
  | zero => exact .exhausted
  | succ rounds ih =>
    obtain ⟨rounds', rfl⟩ := Nat.exists_eq_succ_of_ne_zero (Nat.ne_zero_of_lt more)
    simp only [statementsFor, Build.join]
    refine .alikeOr (fun alike => ?_) fun atEnd => ?_
    · refine .hereAlike (fun _ => alike.isPunct _) (.ite (fun _ => .done rfl) fun _ =>
        .current fun _ => ?_)
      rw [alike.isEnd]
      exact .guard fun _ => .seq (serves.statement .list s s') fun _ _ =>
        ih (Nat.le_of_succ_le_succ more)
    · rw [Build.ends_bind, Build.ends_here, isPunct_of_isEnd atEnd]
      simp only [Bool.false_eq_true, ↓reduceIte, Build.ends_bind, Build.ends_current, atEnd]
      trivial

theorem statements_inStep (serves : S.Serves g g') :
    S.InStep Eq (statements g) (statements g') s s' := by
  exact .read (statementsFor_inStep serves S.rounds)

theorem braced_inStep {m m' : Build Unit} {id id' : ScopeId} (ids : S.ids id id') {u v : State}
    (there : (c.token u.pos).isPunct .openBrace = true)
    (inner : ∀ t t', S.InStep Eq m m' t t') :
    S.InStep Eq (advance >>= fun _ => m >>= fun _ => closeBraceScope id)
      (advance >>= fun _ => m' >>= fun _ => closeBraceScope id') u v :=
  .passThen (isOrdinary_of_isPunct there (by decide)) fun _ =>
    .seq (inner _ _) fun _ _ => .closingBrace ids

theorem block_inStep (serves : S.Serves g g') (kind : ScopeKind) {label : String}
    (known : label ∈ scopeWords) :
    S.InStep Eq (block g kind label) (block g' kind label) s s' := by
  simp only [block, Build.join]
  refine .here (by decide) (.guard fun there => .current fun same => .of_rel fun related => .get ?_)
  have there : (c.token s.pos).isPunct .openBrace = true := by simpa using there
  have alike := S.alike_of_notEnd same (isOrdinary.notEnd (isOrdinary_of_isPunct there (by decide)))
  refine .opening alike (.fixed known) (congrArg Opener.brace (S.pos related)) fun id' ids => ?_
  exact braced_inStep ids there fun _ _ => statements_inStep serves

theorem braceBody_inStep (serves : S.Serves g g') {id id' : ScopeId} (ids : S.ids id id') :
    S.InStep Eq (braceBody g id) (braceBody g' id') s s' := by
  simp only [braceBody, Build.join]
  refine .here (by decide) (.guard fun there => .attachBrace ?_)
  refine braced_inStep ids ?_ fun _ _ => statements_inStep serves
  simpa using there

theorem grouped_inStep (serves : S.Serves g g') (close : Punctuation) (other : close ≠ .closeBrace)
    (plain : close ≠ .dot ∧ close ≠ .questionDot) :
    S.InStep Eq (grouped g close) (grouped g' close) s s' :=
  .enter (.seq (serves.expression .nested _ _) fun _ _ =>
    .seq (.expectMark other plain) fun _ _ => .leave)

/-! ## Declarations and functions -/

theorem declareHere_inStep (kind : BindingKind) (wanted : Expectation) :
    S.InStep Eq (declareHere kind wanted) (declareHere kind wanted) s s' := by
  unfold declareHere
  refine .alikeOr (fun alike => .current fun same => ?_) fun atEnd => ?_
  · rw [alike.kind]
    cases known : (c.token s.pos).kind with
    | identifier =>
      have name : (c.token s.pos).isIdentifier = true := by rw [isIdentifier, known]; rfl
      refine .declare same name (.pass ?_)
      rw [State.declare_pos]
      exact isOrdinary_of_isIdentifier name
    | punctuation p => cases p <;> first | exact .refuseFeature _ | exact .refuse _
    | _ => exact .refuse _
  · rw [Build.ends_bind, Build.ends_current, kind_of_isEnd atEnd]
    trivial

/-- A mark that may stand here is passed over if it does. -/
theorem skip_inStep {p : Punctuation} (plain : p ≠ .dot ∧ p ≠ .questionDot) :
    S.InStep Eq (if (c.token s.pos).isPunct p = true then advance else pure ())
      (if (c.token s.pos).isPunct p = true then advance else pure ()) s s' :=
  .whether fun there => .pass (isOrdinary_of_isPunct there plain)

/-- An initial value behind an equals sign. -/
theorem value_inStep (serves : S.Serves g g') (mode : ExpressionMode) :
    S.InStep Eq
      (if (c.token s.pos).isPunct .equals = true then advance >>= fun _ => g.expression mode
        else pure ())
      (if (c.token s.pos).isPunct .equals = true then advance >>= fun _ => g'.expression mode
        else pure ()) s s' :=
  .whether fun there => .passThen (isOrdinary_of_isPunct there (by decide)) fun _ =>
    serves.expression mode _ _

theorem parametersFor_inStep (serves : S.Serves g g') {rounds rounds' : Nat}
    (more : rounds ≤ rounds') :
    S.InStep Eq (parametersFor g rounds) (parametersFor g' rounds') s s' := by
  induction rounds generalizing rounds' s s' with
  | zero => exact .exhausted
  | succ rounds ih =>
    obtain ⟨rounds', rfl⟩ := Nat.exists_eq_succ_of_ne_zero (Nat.ne_zero_of_lt more)
    simp only [parametersFor, Build.join, Build.join₂]
    refine .here (by decide) (.ite (fun _ => .done rfl) fun _ => .here (by decide) ?_)
    refine .seq (skip_inStep (by decide)) fun t t' => ?_
    refine .seq (declareHere_inStep .param .parameterName) fun u u' => .here (by decide) ?_
    refine .seq (value_inStep serves .item) fun v v' => .here (by decide) (.whether fun comma => ?_)
    exact .passThen (isOrdinary_of_isPunct comma (by decide)) fun _ =>
      ih (Nat.le_of_succ_le_succ more)

theorem parameters_inStep (serves : S.Serves g g')
    (there : (c.token s.pos).isPunct .openParen = true) :
    S.InStep Eq (parameters g) (parameters g') s s' := by
  unfold parameters
  refine .passThen (isOrdinary_of_isPunct there (by decide)) fun _ => .enter (.read ?_)
  exact .seq (parametersFor_inStep serves S.rounds) fun _ _ =>
    .seq (.expectMark (by decide) (by decide)) fun _ _ => .leave

/-- An expression that is the body of a scope. -/
theorem bareBody_inStep {m m' : Build Unit} {id id' : ScopeId} (ids : S.ids id id')
    (inner : S.InStep Eq m m' s s') :
    S.InStep Eq (m >>= fun _ => MonadState.get >>= fun t => closeScope id t.prevEnd)
      (m' >>= fun _ => MonadState.get >>= fun t => closeScope id' t.prevEnd) s s' :=
  .seq inner fun _ _ => .get (.closing ids rfl rfl)

theorem arrowBody_inStep (serves : S.Serves g g') (mode : ExpressionMode) {id id' : ScopeId}
    (ids : S.ids id id') : S.InStep Eq (arrowBody g mode id) (arrowBody g' mode id') s s' :=
  .expectArrow (.here (by decide) (.ite (fun _ => braceBody_inStep serves ids) fun _ =>
    bareBody_inStep ids (serves.expression _ _ _)))

theorem arrowFunction_inStep (serves : S.Serves g g') (mode : ExpressionMode)
    (starts : (c.token s.pos).isPunct .openParen = true ∨ (c.token s.pos).isIdentifier = true) :
    S.InStep Eq (arrowFunction g mode) (arrowFunction g' mode) s s' := by
  rw [arrowFunction_eq, arrowFunction_eq]
  have notEnd : (c.token s.pos).isEnd = false := by
    rcases starts with paren | name
    · exact isOrdinary.notEnd (isOrdinary_of_isPunct paren (by decide))
    · exact isOrdinary.notEnd (isOrdinary_of_isIdentifier name)
  refine .current fun same => .opening (S.alike_of_notEnd same notEnd) (.fixed (by decide)) rfl
    fun id' ids => .here (by decide) ?_
  refine .seq ?_ fun _ _ => arrowBody_inStep serves mode ids
  refine .ite (fun there => parameters_inStep serves there) fun noParen => .current fun same => ?_
  have name := starts.resolve_left noParen
  refine .declare same name (.pass ?_)
  rw [State.declare_pos]
  exact isOrdinary_of_isIdentifier name

/-- The same name in both runs. -/
def SameName (S : Simulation c c') (t t' : Token) : Prop := S.same t t' ∧ t.isIdentifier = true

theorem functionTail_inStep (serves : S.Serves g g') {label label' : String}
    (labels : Labels S.same label label') {name? name?' : Option Token}
    (names : Option.Rel (SameName S) name? name?') :
    S.InStep Eq (functionTail g label name?) (functionTail g' label' name?') s s' := by
  simp only [functionTail, Build.join]
  refine .here (by decide) (.guard fun there => .current fun same => ?_)
  have there : (c.token s.pos).isPunct .openParen = true := by simpa using there
  have alike := S.alike_of_notEnd same (isOrdinary.notEnd (isOrdinary_of_isPunct there (by decide)))
  refine .opening alike labels rfl fun id' ids => ?_
  have rest {t t' : State} (pos : t.pos = s.pos) :
      S.InStep Eq (parameters g >>= fun _ => braceBody g s.scopes.size)
        (parameters g' >>= fun _ => braceBody g' id') t t' := by
    refine .seq (parameters_inStep serves ?_) fun _ _ => braceBody_inStep serves ids
    rw [pos]
    exact there
  cases names with
  | none =>
    refine rest ?_
    rfl
  | some name =>
    refine .declare name.1 name.2 (rest ?_)
    rw [State.declare_pos]
    rfl

theorem functionName_inStep (word : (c.token s.pos).isKeyword .function = true) :
    S.InStep (Option.Rel (SameName S)) functionName functionName s s' := by
  simp only [functionName, Build.join]
  refine .passThen (isOrdinary_of_isKeyword word) fun _ => .current fun same => ?_
  rw [S.isOperator_eq same]
  refine .seq (.whether fun star => .pass (isOrdinary_of_isOperator star)) fun t t' => ?_
  refine .current fun same => ?_
  rw [S.isIdentifier_eq same]
  refine .ite (fun name => ?_) fun _ => .done .none
  exact .passThen (isOrdinary_of_isIdentifier name) fun _ => .done (.some ⟨same, name⟩)

theorem functionLiteral_inStep (serves : S.Serves g g') (form : FunctionForm)
    (word : (c.token s.pos).isKeyword .function = true) :
    S.InStep Eq (functionLiteral g form) (functionLiteral g' form) s s' := by
  refine .andThen (functionName_inStep word) fun name? name?' t t' names => ?_
  cases names with
  | none =>
    cases form with
    | declaration => exact .refuse _
    | expression => exact functionTail_inStep serves (.fixed (by decide)) .none
  | some name =>
    obtain ⟨same, isName⟩ := name
    have label : Labels S.same _ _ := .name same (spellsName_of_isIdentifier isName)
    cases form with
    | declaration => exact .declare same isName (functionTail_inStep serves label .none)
    | expression => exact functionTail_inStep serves label (.some ⟨same, isName⟩)

/-! ## Object literals -/

theorem methodMarks_inStep : S.InStep Eq methodMarks methodMarks s s' := by
  simp only [methodMarks, Build.join]
  refine .of_rel fun related => .current fun same => ?_
  rw [S.isOperator_eq same, S.isContextual_eq same (by decide), S.isContextual_eq same (by decide),
    S.isContextual_eq same (by decide)]
  refine .ite (fun star => ?_) fun _ => .peek ?_
  · exact .passThen (isOrdinary_of_isOperator star) fun _ => .done rfl
  cases mark : (c.token s.pos).isContextual "get" || (c.token s.pos).isContextual "set" ||
      (c.token s.pos).isContextual "async" with
  | false => exact .done rfl
  | true =>
    have name : (c.token s.pos).isIdentifier = true := by
      simp only [Bool.or_eq_true] at mark
      rcases mark with (word | word) | word <;> exact isIdentifier_of_isContextual word
    rw [S.startsKey_eq (S.next related name)]
    refine .ite (fun _ => ?_) fun _ => .done rfl
    refine .passThen (isOrdinary_of_isIdentifier name) fun _ => .current fun same => ?_
    rw [S.isOperator_eq same]
    refine .seq (.whether fun star => .pass (isOrdinary_of_isOperator star)) fun _ _ => .done rfl

/-- The same key, and the same name for a method under it. -/
def SameKey (S : Simulation c c') (x x' : Token × String) : Prop :=
  S.same x.1 x'.1 ∧ Labels S.same x.2 x'.2

theorem memberKey_inStep (serves : S.Serves g g') :
    S.InStep (SameKey S) (memberKey g) (memberKey g') s s' := by
  unfold memberKey
  refine .alikeOr (fun alike => .current fun same => ?_) fun atEnd => ?edge
  case edge =>
    rw [Build.ends_bind, Build.ends_current, kind_of_isEnd atEnd]
    trivial
  have plain {label label' : String} (labels : Labels S.same label label')
      (ordinary : (c.token s.pos).isOrdinary = true) : S.InStep (SameKey S)
        (advance >>= fun _ => pure (c.token s.pos, label))
        (advance >>= fun _ => pure (c'.token s'.pos, label')) s s' :=
    .passThen ordinary fun _ => .done ⟨same, labels⟩
  have ordinary (h : (c.token s.pos).kind ≠ .endOfInput ∧
      (c.token s.pos).kind ≠ .punctuation .dot ∧
      (c.token s.pos).kind ≠ .punctuation .questionDot) := isOrdinary_of_kind h
  have named (spells : spellsName (c.token s.pos) = true)
      (h : (c.token s.pos).kind ≠ .endOfInput ∧ (c.token s.pos).kind ≠ .punctuation .dot ∧
      (c.token s.pos).kind ≠ .punctuation .questionDot) : S.InStep (SameKey S)
        (advance >>= fun _ => pure (c.token s.pos, (c.token s.pos).lexeme))
        (advance >>= fun _ => pure (c'.token s'.pos, (c'.token s'.pos).lexeme)) s s' :=
    plain (.name same spells) (isOrdinary_of_kind h)
  rw [alike.kind]
  cases known : (c.token s.pos).kind with
  | identifier => exact named (by simp [spellsName, Token.isWord, known]) (by simp [known])
  | keyword w => exact named (by simp [spellsName, Token.isWord, known]) (by simp [known])
  | number => exact named (by simp [spellsName, Token.isWord, known]) (by simp [known])
  | string =>
    exact plain (.key same known) (ordinary (by simp [known]))
  | punctuation p =>
    cases p with
    | openBracket =>
      refine .passThen (ordinary (by simp [known])) fun _ => ?_
      have known : "anonymous" ∈ scopeWords := by decide
      exact .seq (grouped_inStep serves _ (by decide) (by decide)) fun _ _ => .done ⟨same, .fixed known⟩
    | _ => exact .refuse _
  | _ => exact .refuse _

theorem memberValue_inStep (serves : S.Serves g g') (methodOnly : Bool) {x x' : Token × String}
    (key : SameKey S x x') : S.InStep Eq (memberValue g methodOnly x.1 x.2)
      (memberValue g' methodOnly x'.1 x'.2) s s' := by
  unfold memberValue
  refine .here (by decide) (.ite (fun _ => functionTail_inStep serves key.2 .none) fun _ =>
    .ite (fun _ => .refuse _) fun _ => .alikeOr (fun alike => .current fun _ => ?_) fun atEnd => ?edge)
  case edge =>
    rw [Build.ends_bind, Build.ends_current, kind_of_isEnd atEnd]
    trivial
  have use : S.InStep Eq (if x.1.isIdentifier = true then refer x.1 else pure ())
      (if x'.1.isIdentifier = true then refer x'.1 else pure ()) s s' := by
    rw [S.isIdentifier_eq key.1]
    exact .whether fun name related => ⟨(), _, rfl, rfl, S.refer related key.1 name⟩
  rw [alike.kind]
  cases known : (c.token s.pos).kind with
  | punctuation p =>
    cases p with
    | colon =>
      refine .passThen (isOrdinary_of_kind (by simp [known])) fun _ => ?_
      exact serves.expression .item _ _
    | comma => exact use
    | closeBrace => exact use
    | equals => exact .refuseFeature _
    | _ => exact .refuse _
  | _ => exact .refuse _

theorem member_inStep (serves : S.Serves g g') : S.InStep Eq (member g) (member g') s s' := by
  rw [member_eq, member_eq]
  refine .here (by decide) (.ite (fun dots => ?_) fun _ => ?_)
  · exact .passThen (isOrdinary_of_isPunct dots (by decide)) fun _ => serves.expression .item _ _
  · refine .andThen methodMarks_inStep fun methodOnly _ t t' same => ?_
    subst same
    exact .andThen (memberKey_inStep serves) fun _ _ _ _ key =>
      memberValue_inStep serves methodOnly key

/-- No member stands before the end of input. -/
theorem member_atEnd (atEnd : (c.token s.pos).isEnd = true) :
    (member g).Ends c (fun _ => True) (fun _ _ => False) s := by
  have kind := kind_of_isEnd atEnd
  rw [member_eq, Build.ends_bind, Build.ends_here, isPunct_of_isEnd atEnd]
  have noMark : methodMarks.Ends c (fun _ => True) (fun _ t => t = s) s := by
    have noStar : (c.token s.pos).isOperator "*" = false := by rw [isOperator, kind]; rfl
    have noWord (word : String) : (c.token s.pos).isContextual word = false := by
      rw [isContextual, isIdentifier, kind]; rfl
    simp only [methodMarks, Build.ends_bind, Build.ends_current, noStar, noWord, Bool.or_false,
      Bool.false_and, Bool.false_eq_true, ↓reduceIte]
    rfl
  refine noMark.andThen fun methodOnly t same => ?_
  subst same
  unfold memberKey
  rw [Build.ends_bind, Build.ends_bind, Build.ends_current, kind]
  trivial

/-- The members are followed by the brace that closes the literal. -/
theorem membersFor_inStep (serves : S.Serves g g') {rounds rounds' : Nat}
    (more : rounds ≤ rounds') :
    S.InStep Eq (membersFor g rounds >>= fun _ => advance)
      (membersFor g' rounds' >>= fun _ => advance) s s' := by
  induction rounds generalizing rounds' s s' with
  | zero => exact fun _ => trivial
  | succ rounds ih =>
    obtain ⟨rounds', rfl⟩ := Nat.exists_eq_succ_of_ne_zero (Nat.ne_zero_of_lt more)
    have more := Nat.le_of_succ_le_succ more
    simp only [membersFor, Build.ite_bind, bind_assoc, pure_bind]
    refine .alikeOr (fun alike => ?_) fun atEnd => ?_
    · refine .hereAlike (fun _ => alike.isPunct _) (.ite (fun there =>
        .pass (isOrdinary_of_isPunct there (by decide))) fun _ => ?_)
      refine .seq (member_inStep serves) fun t t' => .here (by decide) (.ite (fun comma => ?_) fun _ => ?_)
      · exact .passThen (isOrdinary_of_isPunct comma (by decide)) fun _ => ih more
      refine .alikeOr (fun alike => .hereAlike (fun _ => alike.isPunct _) ?_) fun atEnd => ?_
      · exact .ite (fun _ => .seq (.refuse _) fun _ _ => ih more) fun _ => ih more
      · rw [Build.ends_bind, Build.ends_here, isPunct_of_isEnd atEnd]
        trivial
    · rw [Build.ends_bind, Build.ends_here, isPunct_of_isEnd atEnd]
      exact (member_atEnd atEnd).andThen fun _ _ none => none.elim

theorem objectLiteral_inStep (serves : S.Serves g g')
    (there : (c.token s.pos).isPunct .openBrace = true) :
    S.InStep Eq (objectLiteral g) (objectLiteral g') s s' := by
  unfold objectLiteral
  refine .passThen (isOrdinary_of_isPunct there (by decide)) fun _ => .enter (.read ?_)
  rw [← bind_assoc, ← bind_assoc]
  exact .seq (membersFor_inStep serves S.rounds) fun _ _ => .leave

/-! ## Expressions -/

theorem identifierOperand_inStep (serves : S.Serves g g') (mode : ExpressionMode)
    (name : (c.token s.pos).isIdentifier = true) :
    S.InStep Eq (identifierOperand g mode) (identifierOperand g' mode) s s' := by
  unfold identifierOperand
  refine .of_rel fun related => .current fun same => .peek ?_
  have next := S.next related name
  have ordinary := isOrdinary_of_isIdentifier name
  have function : ((c'.token s'.pos).isContextual "async" &&
        !(c'.token (s'.pos + 1)).flags.afterBreak && (c'.token (s'.pos + 1)).isKeyword .function) =
      ((c.token s.pos).isContextual "async" &&
        !(c.token (s.pos + 1)).flags.afterBreak && (c.token (s.pos + 1)).isKeyword .function) := by
    rw [Bool.and_assoc, Bool.and_assoc, S.isContextual_eq same (by decide),
      S.afterBreak_and next (S.isKeyword_eq next _) isKeyword_of_isEnd]
  rw [S.isPunct_eq (p := .arrow) next (by decide), function]
  refine .ite (fun _ => arrowFunction_inStep serves mode (.inr name)) fun _ =>
    .ite (fun fn => ?_) fun _ => .peek (.read (.get ?_))
  · simp only [Bool.and_eq_true] at fn
    exact .passThen ordinary fun pos => functionLiteral_inStep serves _ (pos ▸ fn.2)
  have single : ((c'.token (s'.pos + 1)).isIdentifier && (c'.token (s'.pos + 2)).isPunct .arrow) =
      ((c.token (s.pos + 1)).isIdentifier && (c.token (s.pos + 2)).isPunct .arrow) := by
    rw [S.isIdentifier_eq next]
    cases word : (c.token (s.pos + 1)).isIdentifier with
    | false => rfl
    | true => rw [S.isPunct_eq (p := .arrow) (S.afterNext related word) (by decide)]
  have list : ((c'.token (s'.pos + 1)).isPunct .openParen && c'.startsArrow (s'.pos + 1)) =
      ((c.token (s.pos + 1)).isPunct .openParen && c.startsArrow (s.pos + 1)) := by
    rw [S.isPunct_eq (p := .openParen) next (by decide), S.pos related, Nat.add_right_comm]
    cases paren : (c.token (s.pos + 1)).isPunct .openParen with
    | false => rfl
    | true => rw [S.arrows paren]
  have arrow : ((c'.token s'.pos).isContextual "async" &&
        !(c'.token (s'.pos + 1)).flags.afterBreak &&
          ((c'.token (s'.pos + 1)).isIdentifier && (c'.token (s'.pos + 2)).isPunct .arrow ||
            (c'.token (s'.pos + 1)).isPunct .openParen && c'.startsArrow (s'.pos + 1))) =
      ((c.token s.pos).isContextual "async" &&
        !(c.token (s.pos + 1)).flags.afterBreak &&
          ((c.token (s.pos + 1)).isIdentifier && (c.token (s.pos + 2)).isPunct .arrow ||
            (c.token (s.pos + 1)).isPunct .openParen && c.startsArrow (s.pos + 1))) := by
    rw [Bool.and_assoc, Bool.and_assoc, S.isContextual_eq same (by decide),
      S.afterBreak_and next (by rw [single, list])]
    intro atEnd
    rw [isIdentifier_of_isEnd atEnd, isPunct_of_isEnd atEnd]
    rfl
  rw [arrow]
  refine .ite (fun starts => ?_) fun _ => .refer same name (.pass ordinary)
  simp only [Bool.and_eq_true, Bool.or_eq_true] at starts
  refine .passThen ordinary fun pos => arrowFunction_inStep serves mode ?_
  rw [pos]
  rcases starts.2 with ⟨parameter, _⟩ | ⟨paren, _⟩
  · exact .inr parameter
  · exact .inl paren

theorem expressionMark_inStep (serves : S.Serves g g') (mode : ExpressionMode) (colons : Nat)
    {p : Punctuation} (there : (c.token s.pos).isPunct p = true) :
    S.InStep Eq (expressionMark g mode colons p) (expressionMark g' mode colons p) s s' := by
  have stop : S.InStep Eq (pure none : Build (Option Nat)) (pure none) s s' := .done rfl
  have go (plain : p ≠ .dot ∧ p ≠ .questionDot) (n : Nat) : S.InStep Eq
      (advance >>= fun _ => pure (some n)) (advance >>= fun _ => pure (some n)) s s' :=
    .passThen (isOrdinary_of_isPunct there plain) fun _ => .done rfl
  have group {close : Punctuation} (plain : p ≠ .dot ∧ p ≠ .questionDot) (other : close ≠ .closeBrace)
      (plain' : close ≠ .dot ∧ close ≠ .questionDot) : S.InStep Eq
        (advance >>= fun _ => grouped g close >>= fun _ => pure (some colons))
        (advance >>= fun _ => grouped g' close >>= fun _ => pure (some colons)) s s' :=
    .passThen (isOrdinary_of_isPunct there plain) fun _ =>
      .seq (grouped_inStep serves close other plain') fun _ _ => .done rfl
  have select (point : (c.token s.pos).isSelector = true) : S.InStep Eq
      (advance >>= fun _ => current >>= fun t =>
        (if t.isWord then advance else pure ()) >>= fun _ => pure (some colons))
      (advance >>= fun _ => current >>= fun t =>
        (if t.isWord then advance else pure ()) >>= fun _ => pure (some colons)) s s' := by
    have parts : S.InStep Eq
        ((advance >>= fun _ => current >>= fun t => if t.isWord then advance else pure ()) >>=
          fun _ => pure (some colons))
        ((advance >>= fun _ => current >>= fun t => if t.isWord then advance else pure ()) >>=
          fun _ => pure (some colons)) s s' :=
      .seq (.select point) fun _ _ => .done rfl
    simpa only [bind_assoc] using parts
  cases p with
  | semicolon => exact stop
  | closeBrace => exact stop
  | closeParen => exact stop
  | closeBracket => exact stop
  | comma => exact .ite (fun _ => stop) fun _ => go (by decide) _
  | question => exact go (by decide) _
  | colon => exact .ite (fun _ => stop) fun _ => go (by decide) _
  | openParen =>
    refine .of_rel fun related => .read (.get ?_)
    rw [S.pos related, S.arrows there]
    refine .ite (fun _ => ?_) fun _ => group (by decide) (by decide) (by decide)
    exact .seq (arrowFunction_inStep serves mode (.inl there)) fun _ _ => .done rfl
  | openBracket => exact group (by decide) (by decide) (by decide)
  | openBrace => exact .seq (objectLiteral_inStep serves there) fun _ _ => .done rfl
  | dot =>
    simp only [expressionMark, Build.join]
    exact select (by simp [isSelector, there])
  | questionDot =>
    simp only [expressionMark, Build.join]
    exact select (by simp [isSelector, there])
  | ellipsis => exact go (by decide) _
  | equals => exact go (by decide) _
  | arrow => exact .refuse _

theorem expressionWord_inStep (serves : S.Serves g g') (colons : Nat) {w : Keyword}
    (there : (c.token s.pos).isKeyword w = true) :
    S.InStep Eq (expressionWord g colons w) (expressionWord g' colons w) s s' := by
  have plain : S.InStep Eq
      (if w.startsStatement then pure none else advance >>= fun _ => pure (some colons))
      (if w.startsStatement then pure none else advance >>= fun _ => pure (some colons)) s s' :=
    .ite (fun _ => .done rfl) fun _ =>
      .passThen (isOrdinary_of_isKeyword there) fun _ => .done rfl
  cases w with
  | function => exact .seq (functionLiteral_inStep serves _ there) fun _ _ => .done rfl
  | class_ => exact .refuseFeature _
  | import_ => exact .refuseFeature _
  | _ => exact plain

/-- Whether an expression ends because of its mode is seen alike. -/
theorem endsByMode_inStep {α : Type} {f f' : Bool → Build α} (mode : ExpressionMode)
    (same : S.same (c.token s.pos) (c'.token s'.pos))
    (next : ∀ ends, S.InStep Eq (f ends) (f' ends) s s') :
    S.InStep Eq (endsByMode mode (c.token s.pos) >>= f) (endsByMode mode (c'.token s'.pos) >>= f')
      s s' := by
  simp only [endsByMode, prevEndsExpression, bind_assoc, pure_bind]
  refine .of_rel fun related => .get ?_
  have operand := S.operand related
  rw [S.startsOperand_eq same, S.isKeyword_eq same, S.isContextual_eq same (by decide)]
  cases atEnd : (c.token s.pos).isEnd with
  | true =>
    have noOperand : (c.token s.pos).startsOperand = false := by
      rw [startsOperand, kind_of_isEnd atEnd]
    have noOf : (c.token s.pos).isContextual "of" = false := by
      rw [isContextual, isIdentifier_of_isEnd atEnd, Bool.false_and]
    simpa [noOperand, noOf] using next _
  | false =>
  rw [(S.alike_of_notEnd same atEnd).afterBreak]
  cases matters : (c.token s.pos).flags.afterBreak && (c.token s.pos).startsOperand ||
      (c.token s.pos).isContextual "of" with
  | true =>
    rw [operand (by simpa using matters)]
    exact next _
  | false =>
    simp only [Bool.or_eq_false_iff, Bool.and_eq_false_iff] at matters
    obtain ⟨newLine, noOf⟩ := matters
    rcases newLine with none | none <;> simpa [none, noOf] using next _

theorem beq_moved (m n shift : Nat) : (m + shift == n + shift) = (m == n) := by
  rw [Bool.eq_iff_iff, beq_iff_eq, beq_iff_eq]
  omega

/-- One step over an expression that does not end by its mode. -/
def stepOver (g : Grammar) (mode : ExpressionMode) (colons : Nat) : TokenKind → Build (Option Nat)
  | .endOfInput => pure none
  | .punctuation p => expressionMark g mode colons p
  | .identifier => identifierOperand g mode >>= fun _ => pure (some colons)
  | .keyword k => expressionWord g colons k
  | _ => advance >>= fun _ => pure (some colons)

theorem expressionStep_inStep (serves : S.Serves g g') (mode : ExpressionMode)
    (first colons : Nat) : S.InStep Eq (expressionStep g mode first colons)
      (expressionStep g' mode (first + S.shift) colons) s s' := by
  have body : S.same (c.token s.pos) (c'.token s'.pos) → S.InStep Eq
      (stepOver g mode colons (c.token s.pos).kind)
      (stepOver g' mode colons (c'.token s'.pos).kind) s s' := by
    intro same
    rcases S.alike same with alike | ⟨edge, _⟩
    case inr =>
      rw [edge.kind, edge.kind']
      exact .done rfl
    rw [alike.kind]
    have plain (h : (c.token s.pos).kind ≠ .endOfInput ∧
        (c.token s.pos).kind ≠ .punctuation .dot ∧
        (c.token s.pos).kind ≠ .punctuation .questionDot) : S.InStep Eq
          (advance >>= fun _ => pure (some colons)) (advance >>= fun _ => pure (some colons)) s s' :=
      .passThen (isOrdinary_of_kind h) fun _ => .done rfl
    cases kind : (c.token s.pos).kind with
    | endOfInput => exact .done rfl
    | punctuation p => exact expressionMark_inStep serves mode colons (isPunct_of_kind kind)
    | identifier =>
      exact .seq (identifierOperand_inStep serves mode (by simp [isIdentifier, kind])) fun _ _ =>
        .done rfl
    | keyword k => exact expressionWord_inStep serves colons (by simp [isKeyword, kind])
    | _ => exact plain (by simp [kind])
  unfold expressionStep
  refine .of_rel fun related => .current fun same => .get ?_
  have moved : (s'.pos != first + S.shift) = (s.pos != first) := by
    rw [S.pos related, bne, beq_moved]
    rfl
  rw [moved]
  refine .ite (fun _ => endsByMode_inStep mode same fun ends => ?_) fun _ => body same
  exact .ite (fun _ => .done rfl) fun _ => body same

theorem expressionFor_inStep (serves : S.Serves g g') (mode : ExpressionMode)
    {first rounds rounds' : Nat} (more : rounds ≤ rounds') (colons : Nat) :
    S.InStep Eq (expressionFor g mode first rounds colons)
      (expressionFor g' mode (first + S.shift) rounds' colons) s s' := by
  induction rounds generalizing rounds' s s' colons with
  | zero => exact .exhausted
  | succ rounds ih =>
    obtain ⟨rounds', rfl⟩ := Nat.exists_eq_succ_of_ne_zero (Nat.ne_zero_of_lt more)
    unfold expressionFor
    refine .andThen (expressionStep_inStep serves mode first colons) ?_
    rintro colons? _ t t' rfl
    cases colons? with
    | none => exact .done rfl
    | some colons => exact ih (Nat.le_of_succ_le_succ more) colons

theorem expression_inStep (serves : S.Serves g g') (mode : ExpressionMode) :
    S.InStep Eq (expression g mode) (expression g' mode) s s' := by
  unfold expression
  refine .of_rel fun related => .get (.read ?_)
  rw [S.pos related]
  exact expressionFor_inStep serves mode S.rounds _

/-- An expression before the end of input is empty. -/
theorem expression_atEnd (mode : ExpressionMode) (atEnd : (c.token s.pos).isEnd = true) :
    (expression g mode).Ends c (fun _ => True) (fun _ t => t = s) s := by
  rw [expression, Build.ends_bind, Build.ends_get, Build.ends_bind, Build.ends_read]
  cases c.rounds with
  | zero => trivial
  | succ rounds =>
    have stops : (expressionStep g mode s.pos 0).Ends c (fun _ => True)
        (fun next t => next = none ∧ t = s) s := by
      rw [expressionStep, Build.ends_bind, Build.ends_current, Build.ends_bind, Build.ends_get,
        bne_self_eq_false, kind_of_isEnd atEnd]
      exact ⟨rfl, rfl⟩
    unfold expressionFor
    refine stops.andThen fun next t ended => ?_
    obtain ⟨rfl, same⟩ := ended
    exact same

/-! ## Simple statements -/

theorem semicolon_inStep : S.InStep Eq semicolon semicolon s s' := by
  simp only [semicolon, atStatementEnd, bind_assoc, pure_bind]
  refine .here (by decide) (.ite (fun mark => .pass (isOrdinary_of_isPunct mark (by decide))) fun _ =>
    .current fun same => ?_)
  rw [S.endsStatement_eq same]
  exact .ite (fun _ => .refuse _) fun _ => .done rfl

theorem expressionStatement_inStep (serves : S.Serves g g') :
    S.InStep Eq (expressionStatement g) (expressionStatement g') s s' := by
  simp only [expressionStatement, Build.join]
  refine .of_rel fun related => .get (.seq (serves.expression .statement s s') fun t t' => ?_)
  refine .of_rel fun related' => .get ?_
  have moved : (t'.pos == s'.pos) = (t.pos == s.pos) := by
    rw [S.pos related, S.pos related', beq_moved]
  rw [moved]
  exact .guard fun _ => semicolon_inStep

/-- No statement is an expression before the end of input. -/
theorem expressionStatement_atEnd
    (empty : (g.expression .statement).Ends c (fun _ => True) (fun _ t => t = s) s) :
    (expressionStatement g).Ends c (fun _ => True) (fun _ _ => False) s := by
  rw [expressionStatement, Build.ends_bind, Build.ends_get]
  refine empty.andThen fun _ t same => ?_
  subst same
  rw [Build.ends_bind, Build.ends_get, beq_self_eq_true]
  trivial

theorem operandStatement_inStep (serves : S.Serves g g') {w : Keyword}
    (word : (c.token s.pos).isKeyword w = true) :
    S.InStep Eq (operandStatement g) (operandStatement g') s s' := by
  simp only [operandStatement, atStatementEnd, Build.join, bind_assoc, pure_bind]
  refine .passThen (isOrdinary_of_isKeyword word) fun _ => .current fun same => ?_
  rw [S.endsStatement_eq same]
  exact .seq (.whether fun _ => serves.expression .statement _ _) fun _ _ => semicolon_inStep

theorem jumpStatement_inStep {w : Keyword} (word : (c.token s.pos).isKeyword w = true) :
    S.InStep Eq jumpStatement jumpStatement s s' := by
  simp only [jumpStatement, Build.join]
  refine .passThen (isOrdinary_of_isKeyword word) fun _ => .current fun same => ?_
  rw [Bool.and_comm (c'.token _).isIdentifier, Bool.and_comm (c.token _).isIdentifier,
    S.afterBreak_and same (S.isIdentifier_eq same) isIdentifier_of_isEnd]
  refine .seq (.whether fun label => .pass ?_) fun _ _ => semicolon_inStep
  exact isOrdinary_of_isIdentifier (Bool.and_eq_true_iff.mp label).2

/-! ## Declarations -/

theorem declaratorsFor_inStep (serves : S.Serves g g') (kind : BindingKind) (mode : ExpressionMode)
    {rounds rounds' : Nat} (more : rounds ≤ rounds') :
    S.InStep Eq (declaratorsFor g kind mode rounds) (declaratorsFor g' kind mode rounds') s s' := by
  induction rounds generalizing rounds' s s' with
  | zero => exact .exhausted
  | succ rounds ih =>
    obtain ⟨rounds', rfl⟩ := Nat.exists_eq_succ_of_ne_zero (Nat.ne_zero_of_lt more)
    simp only [declaratorsFor, Build.join₂]
    refine .seq (declareHere_inStep kind .variableName) fun t t' => .here (by decide) ?_
    refine .seq (value_inStep serves _) fun u u' => .here (by decide) (.whether fun comma => ?_)
    exact .passThen (isOrdinary_of_isPunct comma (by decide)) fun _ =>
      ih (Nat.le_of_succ_le_succ more)

theorem declarators_inStep (serves : S.Serves g g') (kind : BindingKind) (mode : ExpressionMode)
    {w : Keyword} (word : (c.token s.pos).isKeyword w = true) :
    S.InStep Eq (declarators g kind mode) (declarators g' kind mode) s s' := by
  unfold declarators
  exact .passThen (isOrdinary_of_isKeyword word) fun _ => .read
    (declaratorsFor_inStep serves kind mode S.rounds)

theorem declaration_inStep (serves : S.Serves g g') (kind : BindingKind) {w : Keyword}
    (word : (c.token s.pos).isKeyword w = true) :
    S.InStep Eq (declaration g kind) (declaration g' kind) s s' :=
  .seq (declarators_inStep serves kind .statement word) fun _ _ => semicolon_inStep

theorem lexicalDeclaration_inStep (serves : S.Serves g g') (kind : BindingKind)
    (place : StatementPlace) {w : Keyword} (word : (c.token s.pos).isKeyword w = true) :
    S.InStep Eq (lexicalDeclaration g kind place) (lexicalDeclaration g' kind place) s s' := by
  cases place with
  | body => exact .current fun _ related => .inr ⟨_, rfl, S.refused _ related⟩
  | list => exact declaration_inStep serves kind word

/-! ## Bodies -/

theorem condition_inStep (serves : S.Serves g g') :
    S.InStep Eq (condition g) (condition g') s s' :=
  .expect (by decide) fun there => .passThen (isOrdinary_of_isPunct there (by decide)) fun _ =>
    grouped_inStep serves _ (by decide) (by decide)

theorem statementBody_inStep (serves : S.Serves g g') {id id' : ScopeId} (ids : S.ids id id') :
    S.InStep Eq (statementBody g id) (statementBody g' id') s s' :=
  bareBody_inStep ids (serves.statement .body _ _)

/-- No body stands before the end of input. -/
theorem body_atEnd (serves : S.Serves g g') (kind : ScopeKind) (label : String)
    (atEnd : (c.token s.pos).isEnd = true) :
    (body g kind label).Ends c (fun _ => True) (fun _ _ => False) s := by
  rw [body, Build.ends_bind, Build.ends_here, isPunct_of_isEnd atEnd]
  simp only [Bool.false_eq_true, ↓reduceIte, Build.ends_bind, Build.ends_current,
    Build.ends_openScope, statementBody]
  split
  · trivial
  · have none : (g.statement .body).Ends c (fun _ => True) (fun _ _ => False)
        (s.deepen.pushScope kind label (c.token s.pos).span.start .statement) :=
      serves.noStatement .body _ atEnd
    exact none.mono fun _ _ none => none.elim

theorem body_inStep (serves : S.Serves g g') (kind : ScopeKind) {label : String}
    (known : label ∈ scopeWords) :
    S.InStep Eq (body g kind label) (body g' kind label) s s' :=
  .alikeOr (fun alike => .here (by decide) (.ite (fun _ => block_inStep serves kind known) fun _ =>
    .current fun _ => .opening alike (.fixed known) rfl fun _ ids => statementBody_inStep serves ids))
    (body_atEnd serves kind label)

theorem loopBody_inStep (serves : S.Serves g g') {id id' : ScopeId} (ids : S.ids id id') :
    S.InStep Eq (loopBody g id) (loopBody g' id') s s' :=
  .here (by decide) (.ite (fun _ => braceBody_inStep serves ids) fun _ =>
    .reopen .statement (statementBody_inStep serves ids))

/-! ## Control statements -/

theorem conditionsFor_inStep (serves : S.Serves g g') {rounds rounds' : Nat}
    (more : rounds ≤ rounds') (word : (c.token s.pos).isKeyword .if_ = true) :
    S.InStep Eq (conditionsFor g rounds) (conditionsFor g' rounds') s s' := by
  induction rounds generalizing rounds' s s' with
  | zero => exact .exhausted
  | succ rounds ih =>
    obtain ⟨rounds', rfl⟩ := Nat.exists_eq_succ_of_ne_zero (Nat.ne_zero_of_lt more)
    unfold conditionsFor
    refine .passThen (isOrdinary_of_isKeyword word) fun _ => ?_
    refine .seq (condition_inStep serves) fun _ _ => .seq (body_inStep serves _ (by decide)) fun t t' => ?_
    refine .hereWord (.whether fun otherwise => ?_)
    refine .passThen (isOrdinary_of_isKeyword otherwise) fun _ => .hereWord ?_
    exact .ite (ih (Nat.le_of_succ_le_succ more)) fun _ => body_inStep serves _ (by decide)

theorem whileStatement_inStep (serves : S.Serves g g')
    (word : (c.token s.pos).isKeyword .while_ = true) :
    S.InStep Eq (advance >>= fun _ => condition g >>= fun _ => body g .loop "while-block")
      (advance >>= fun _ => condition g' >>= fun _ => body g' .loop "while-block") s s' :=
  .passThen (isOrdinary_of_isKeyword word) fun _ => .seq (condition_inStep serves) fun _ _ =>
    body_inStep serves _ (by decide)

theorem doStatement_inStep (serves : S.Serves g g')
    (word : (c.token s.pos).isKeyword .do_ = true) :
    S.InStep Eq (doStatement g) (doStatement g') s s' := by
  simp only [doStatement, Build.join]
  refine .passThen (isOrdinary_of_isKeyword word) fun _ => .seq (body_inStep serves _ (by decide)) ?_
  refine fun t t' => .hereWord (.guard fun word' => ?_)
  refine .passThen (isOrdinary_of_isKeyword (by simpa using word')) fun _ => ?_
  exact .seq (condition_inStep serves) fun _ _ => .here (by decide) (skip_inStep (by decide))

theorem catchClause_inStep (serves : S.Serves g g')
    (word : (c.token s.pos).isKeyword .catch_ = true) :
    S.InStep Eq (catchClause g) (catchClause g') s s' := by
  unfold catchClause
  refine .passThen (isOrdinary_of_isKeyword word) fun _ => .here (by decide) (.ite (fun paren => ?_)
    fun _ => block_inStep serves _ (by decide))
  have ordinary := isOrdinary_of_isPunct paren (by decide)
  refine .current fun same => .opening (S.alike_of_notEnd same (isOrdinary.notEnd ordinary)) (.fixed (by decide))
    rfl fun id' ids => .passThen ordinary fun _ => ?_
  exact .seq (declareHere_inStep _ _) fun _ _ => .seq (.expectMark (by decide) (by decide)) fun _ _ =>
    braceBody_inStep serves ids

theorem tryStatement_inStep (serves : S.Serves g g')
    (word : (c.token s.pos).isKeyword .try_ = true) :
    S.InStep Eq (tryStatement g) (tryStatement g') s s' := by
  simp only [tryStatement, Build.join, Build.join₂]
  refine .passThen (isOrdinary_of_isKeyword word) fun _ => .seq (block_inStep serves _ (by decide)) ?_
  refine fun t t' => .hereWord (.seq (.whether (catchClause_inStep serves)) fun u u' => ?_)
  refine .hereWord (.seq (.whether fun finished => ?_) fun v v' => ?_)
  · exact .passThen (isOrdinary_of_isKeyword finished) fun _ => block_inStep serves _ (by decide)
  · exact .ite (fun _ => .refuse _) fun _ => .done rfl

theorem headerStart_inStep (serves : S.Serves g g') :
    S.InStep Eq (headerStart g) (headerStart g') s s' := by
  unfold headerStart
  refine .current fun same => ?_
  rcases S.alike same with alike | ⟨edge, _⟩
  case inr =>
    rw [edge.kind, edge.kind']
    exact serves.expression _ _ _
  rw [alike.kind]
  have declared {w : Keyword} (kind : BindingKind) (word : (c.token s.pos).kind = .keyword w) :
      S.InStep Eq (declarators g kind .header) (declarators g' kind .header) s s' :=
    declarators_inStep serves kind .header (w := w) (by simp [isKeyword, word])
  cases known : (c.token s.pos).kind with
  | punctuation p => cases p <;> first | exact .done rfl | exact serves.expression _ _ _
  | keyword w =>
    cases w with
    | var => exact declared .var known
    | let_ => exact declared .let_ known
    | const => exact declared .const known
    | _ => exact serves.expression _ _ _
  | _ => exact serves.expression _ _ _

theorem headerRange_inStep (serves : S.Serves g g') :
    S.InStep Eq (headerRange g) (headerRange g') s s' := by
  have clause {t t' : State} {p : Punctuation} : S.InStep Eq
      (if (!(c.token t.pos).isPunct p) = true then g.expression .nested else pure ())
      (if (!(c.token t.pos).isPunct p) = true then g'.expression .nested else pure ()) t t' :=
    .whether fun _ => serves.expression _ _ _
  simp only [headerRange, Build.join]
  refine .hereWord (.current fun same => ?_)
  rw [S.isContextual_eq same (by decide)]
  refine .ite (fun iterates => .passThen ?_ fun _ => serves.expression _ _ _) fun _ => ?_
  · simp only [Bool.or_eq_true] at iterates
    rcases iterates with word | word
    · exact isOrdinary_of_isKeyword word
    · exact isOrdinary_of_isIdentifier (isIdentifier_of_isContextual word)
  · refine .seq (.expectMark (by decide) (by decide)) fun _ _ => .here (by decide) (.seq clause fun _ _ => ?_)
    exact .seq (.expectMark (by decide) (by decide)) fun _ _ => .here (by decide) clause

theorem forStatement_inStep (serves : S.Serves g g')
    (word : (c.token s.pos).isKeyword .for_ = true) :
    S.InStep Eq (forStatement g) (forStatement g') s s' := by
  simp only [forStatement, headerRest_eq, Build.join, bind_assoc]
  refine .passThen (isOrdinary_of_isKeyword word) fun _ => .hereWord ?_
  refine .seq (.whether fun await => .pass (isOrdinary_of_isKeyword await)) fun t t' => ?_
  refine .here (by decide) (.guard fun there => .current fun same => ?_)
  have there : (c.token t.pos).isPunct .openParen = true := by simpa using there
  have ordinary := isOrdinary_of_isPunct there (by decide)
  refine .opening (S.alike_of_notEnd same (isOrdinary.notEnd ordinary)) (.fixed (by decide)) rfl fun id' ids => ?_
  refine .passThen ordinary fun _ => ?_
  refine .seq (headerStart_inStep serves) fun _ _ => .seq (headerRange_inStep serves) fun _ _ => ?_
  exact .seq (.expectMark (by decide) (by decide)) fun _ _ => loopBody_inStep serves ids

theorem clausesFor_inStep (serves : S.Serves g g') {rounds rounds' : Nat} (more : rounds ≤ rounds') :
    S.InStep Eq (clausesFor g rounds) (clausesFor g' rounds') s s' := by
  induction rounds generalizing rounds' s s' with
  | zero => exact .exhausted
  | succ rounds ih =>
    obtain ⟨rounds', rfl⟩ := Nat.exists_eq_succ_of_ne_zero (Nat.ne_zero_of_lt more)
    have more := Nat.le_of_succ_le_succ more
    simp only [clausesFor, Build.join]
    refine .alikeOr (fun alike => ?_) fun atEnd => ?_
    · refine .hereAlike (fun _ => alike.isPunct _) (.ite (fun _ => .done rfl) fun _ =>
        .current fun _ => ?_)
      rw [alike.isEnd]
      refine .guard fun _ => .hereWord (.ite (fun word => ?_) fun _ => .hereWord ?_)
      · refine .passThen (isOrdinary_of_isKeyword word) fun _ => ?_
        exact .seq (serves.expression .nested _ _) fun _ _ =>
          .seq (.expectMark (by decide) (by decide)) fun _ _ => ih more
      · refine .ite (fun word => ?_) fun _ =>
          .seq (serves.statement .list _ _) fun _ _ => ih more
        exact .passThen (isOrdinary_of_isKeyword word) fun _ =>
          .seq (.expectMark (by decide) (by decide)) fun _ _ => ih more
    · rw [Build.ends_bind, Build.ends_here, isPunct_of_isEnd atEnd]
      simp only [Bool.false_eq_true, ↓reduceIte, Build.ends_bind, Build.ends_current, atEnd]
      trivial

theorem switchStatement_inStep (serves : S.Serves g g')
    (word : (c.token s.pos).isKeyword .switch = true) :
    S.InStep Eq (switchStatement g) (switchStatement g') s s' := by
  have clauses (t t' : State) : S.InStep Eq
      (MonadReader.read >>= fun c => clausesFor g c.rounds)
      (MonadReader.read >>= fun c => clausesFor g' c.rounds) t t' :=
    .read (clausesFor_inStep serves S.rounds)
  simp only [switchStatement, Build.join]
  refine .passThen (isOrdinary_of_isKeyword word) fun _ => .seq (condition_inStep serves) ?_
  refine fun t t' => .here (by decide) (.guard fun there => .current fun same =>
    .of_rel fun related => .get ?_)
  have there : (c.token t.pos).isPunct .openBrace = true := by simpa using there
  have alike := S.alike_of_notEnd same (isOrdinary.notEnd (isOrdinary_of_isPunct there (by decide)))
  refine .opening alike (.fixed (by decide)) (congrArg Opener.brace (S.pos related)) fun id' ids => ?_
  have braces := braced_inStep ids (u := t.deepen.pushScope .block "switch-block"
    (c.token t.pos).span.start (.brace t.pos)) (v := t'.deepen.pushScope .block "switch-block"
    (c'.token t'.pos).span.start (.brace t'.pos)) there clauses
  simpa only [bind_assoc] using braces

/-! ## Statements -/

theorem keywordStatement_inStep (serves : S.Serves g g') (place : StatementPlace) {w : Keyword}
    (word : (c.token s.pos).isKeyword w = true) :
    S.InStep Eq (keywordStatement g place w) (keywordStatement g' place w) s s' := by
  have chain : S.InStep Eq (MonadReader.read >>= fun c => conditionsFor g c.rounds)
      (MonadReader.read >>= fun c => conditionsFor g' c.rounds) s s' ∨ w ≠ .if_ := by
    by_cases isIf : w = .if_
    · exact .inl (.read (conditionsFor_inStep serves S.rounds (isIf ▸ word)))
    · exact .inr isIf
  cases w with
  | var => exact declaration_inStep serves _ word
  | let_ => exact lexicalDeclaration_inStep serves _ place word
  | const => exact lexicalDeclaration_inStep serves _ place word
  | function => exact functionLiteral_inStep serves _ word
  | if_ => exact chain.resolve_right (absurd rfl)
  | for_ => exact forStatement_inStep serves word
  | while_ => exact whileStatement_inStep serves word
  | do_ => exact doStatement_inStep serves word
  | try_ => exact tryStatement_inStep serves word
  | switch => exact switchStatement_inStep serves word
  | return_ => exact operandStatement_inStep serves word
  | throw => exact operandStatement_inStep serves word
  | break_ => exact jumpStatement_inStep word
  | continue_ => exact jumpStatement_inStep word
  | debugger => exact .passThen (isOrdinary_of_isKeyword word) fun _ => semicolon_inStep
  | class_ => exact .refuseFeature _
  | import_ => exact .refuseFeature _
  | export_ => exact .refuseFeature _
  | with_ => exact .refuseFeature _
  | else_ => exact .refuse _
  | catch_ => exact .refuse _
  | finally_ => exact .refuse _
  | case => exact .refuse _
  | default => exact .refuse _
  | _ => exact expressionStatement_inStep serves

theorem labelsFor_inStep {rounds rounds' : Nat} (more : rounds ≤ rounds') :
    S.InStep Eq (labelsFor rounds) (labelsFor rounds') s s' := by
  induction rounds generalizing rounds' s s' with
  | zero => exact .exhausted
  | succ rounds ih =>
    obtain ⟨rounds', rfl⟩ := Nat.exists_eq_succ_of_ne_zero (Nat.ne_zero_of_lt more)
    unfold labelsFor
    refine .of_rel fun related => .current fun same => .peek ?_
    rw [S.isIdentifier_eq same]
    cases name : (c.token s.pos).isIdentifier with
    | false => exact .done rfl
    | true =>
      rw [S.isPunct_eq (p := .colon) (S.next related name) (by decide)]
      refine .whether fun label => ?_
      refine .passThen (isOrdinary_of_isIdentifier name) fun pos => ?_
      have colon : (c.token (c.behind s).pos).isPunct .colon = true := by
        rw [pos]
        simpa using label
      exact .passThen (isOrdinary_of_isPunct colon (by decide)) fun _ =>
        ih (Nat.le_of_succ_le_succ more)

/-- No label begins with what is no name. -/
theorem labelsFor_none {E : Failure → Prop} (noName : (c.token s.pos).isIdentifier = false) :
    (labelsFor c.rounds).Ends c E (fun _ t => t = s) s := by
  rw [Context.rounds, labelsFor, Build.ends_bind, Build.ends_current, noName]
  exact rfl

/-- No statement stands before the end of input. -/
theorem statement_atEnd (place : StatementPlace) (atEnd : (c.token s.pos).isEnd = true)
    (empty : (g.expression .statement).Ends c (fun _ => True) (fun _ t => t = s) s) :
    (statement g place).Ends c (fun _ => True) (fun _ _ => False) s := by
  rw [statement, Build.ends_bind, Build.ends_read, Build.ends_bind]
  refine (labelsFor_none (isIdentifier_of_isEnd atEnd)).mono fun _ t same => ?_
  subst same
  rw [unlabeled, Build.ends_bind, Build.ends_current, kind_of_isEnd atEnd]
  exact expressionStatement_atEnd empty

theorem statement_inStep (serves : S.Serves g g') (place : StatementPlace) :
    S.InStep Eq (statement g place) (statement g' place) s s' := by
  unfold statement unlabeled
  refine .read (.seq (labelsFor_inStep S.rounds) fun t t' => .alikeOr (fun alike =>
    .of_rel fun related => .current fun same => ?_) fun atEnd => ?edge)
  case edge =>
    rw [Build.ends_bind, Build.ends_current, kind_of_isEnd atEnd]
    exact expressionStatement_atEnd (serves.noExpression _ _ atEnd)
  rw [alike.kind]
  cases kind : (c.token t.pos).kind with
  | punctuation p =>
    cases p with
    | openBrace => exact block_inStep serves _ (by decide)
    | semicolon => exact .pass (isOrdinary_of_isPunct (isPunct_of_kind kind) (by decide))
    | closeBrace => exact .refuse _
    | closeParen => exact .refuse _
    | closeBracket => exact .refuse _
    | _ => exact expressionStatement_inStep serves
  | keyword w => exact keywordStatement_inStep serves place (by simp [isKeyword, kind])
  | identifier =>
    have name : (c.token t.pos).isIdentifier = true := by simp [isIdentifier, kind]
    have next := S.next related name
    have async : ((c'.token t'.pos).isContextual "async" &&
          (c'.token (t'.pos + 1)).isKeyword .function && !(c'.token (t'.pos + 1)).flags.afterBreak) =
        ((c.token t.pos).isContextual "async" &&
          (c.token (t.pos + 1)).isKeyword .function && !(c.token (t.pos + 1)).flags.afterBreak) := by
      rw [Bool.and_assoc, Bool.and_assoc, S.isContextual_eq same (by decide),
        Bool.and_comm ((c'.token (t'.pos + 1)).isKeyword .function),
        S.afterBreak_and next (S.isKeyword_eq next _) isKeyword_of_isEnd, Bool.and_comm (!_)]
    refine .peek ?_
    rw [async]
    refine .ite (fun async => ?_) fun _ => expressionStatement_inStep serves
    simp only [Bool.and_eq_true] at async
    exact .passThen (isOrdinary_of_isIdentifier name) fun pos =>
      functionLiteral_inStep serves _ (pos ▸ async.1.2)
  | _ => exact expressionStatement_inStep serves

/-! ## Whole runs -/

/-- Over grammars that go in step the productions do. -/
theorem Simulation.Serves.next (serves : S.Serves g g') : S.Serves g.next g'.next where
  statement place _ _ := statement_inStep serves place
  expression mode _ _ := expression_inStep serves mode
  noStatement place _ atEnd := statement_atEnd place atEnd (serves.noExpression _ _ atEnd)
  noExpression mode _ := expression_atEnd mode

/-- Grammars go in step if the second is no shallower. -/
theorem level_inStep (S : Simulation c c') {level level' : Nat} (deeper : level ≤ level') :
    S.Serves (Grammar.level level) (Grammar.level level') := by
  induction level generalizing level' with
  | zero =>
    exact ⟨fun _ _ _ => .exhausted, fun _ _ _ => .exhausted, fun _ _ _ => trivial,
      fun _ _ _ => trivial⟩
  | succ level ih =>
    obtain ⟨level', rfl⟩ := Nat.exists_eq_succ_of_ne_zero (Nat.ne_zero_of_lt deeper)
    exact (ih (Nat.le_of_succ_le_succ deeper)).next

/-- A program goes in step with itself where it ends together with the other. -/
theorem programFor_inStep (serves : S.Serves g g')
    (ends : ∀ {s s'}, S.rel s s' → (c'.token s'.pos).isEnd = (c.token s.pos).isEnd)
    {rounds rounds' : Nat} (more : rounds ≤ rounds') :
    S.InStep Eq (programFor g rounds) (programFor g' rounds') s s' := by
  induction rounds generalizing rounds' s s' with
  | zero => exact .exhausted
  | succ rounds ih =>
    obtain ⟨rounds', rfl⟩ := Nat.exists_eq_succ_of_ne_zero (Nat.ne_zero_of_lt more)
    unfold programFor
    refine .of_rel fun related => .current fun _ => ?_
    rw [ends related]
    exact .ite (fun _ => .done rfl) fun _ => .seq (serves.statement .list s s') fun _ _ =>
      ih (Nat.le_of_succ_le_succ more)

theorem program_inStep (serves : S.Serves g g')
    (ends : ∀ {s s'}, S.rel s s' → (c'.token s'.pos).isEnd = (c.token s.pos).isEnd)
    (openFrame : ∀ {s s'}, S.rel s s' → s.openFrame? = none → s'.openFrame? = none) :
    S.InStep Eq (program g) (program g') s s' := by
  unfold program
  refine .read (.seq (programFor_inStep serves ends S.rounds) fun t t' => .get fun related => ?_)
  cases none : t.openFrame? with
  | some f => trivial
  | none =>
    rw [openFrame related none]
    exact ⟨(), t', rfl, rfl, related⟩

/-- Two runs that go in step end in related states or errors, unless the first ends in an error behind
which the second is not followed. The second may have more levels, where those of the first are enough. -/
theorem Simulation.run_cases_of_room (S : Simulation c c')
    (ends : ∀ {s s'}, S.rel s s' → (c'.token s'.pos).isEnd = (c.token s.pos).isEnd)
    (openFrame : ∀ {s s'}, S.rel s s' → s.openFrame? = none → s'.openFrame? = none)
    (start : S.rel .start .start) (formed : c.Formed) {level level' : Nat}
    (enough : room c .start < level / 2) (deeper : level ≤ level') :
    (∃ s t, run level c = .ok s ∧ run level' c' = .ok t ∧ S.rel s t) ∨
      ∃ e, run level c = .error (.rejected e) ∧
        (S.lost e ∨ ∃ e', run level' c' = .error (.rejected e') ∧ S.fails e e') := by
  have meets := program_inStep (level_inStep S deeper) ends openFrame start
  have sound := run_ends_of_room formed enough
  unfold run at sound ⊢
  revert meets sound
  cases ((program (Grammar.level level)).run c).run State.start with
  | ok out =>
    rintro ⟨_, t, ran, _, related⟩ _
    exact .inl ⟨out.2, t, rfl, by rw [ran]; rfl, related⟩
  | error e =>
    intro meets sound
    have sound : e.Sound c := sound
    obtain ⟨e, rfl⟩ := sound.exists_rejected
    rcases meets with lost | ⟨e', ran, fails⟩
    · exact .inr ⟨e, rfl, .inl lost⟩
    · exact .inr ⟨e, rfl, .inr ⟨e', by rw [ran]; rfl, fails⟩⟩

/-- The same of two runs with one number of levels, which is enough for all tokens. -/
theorem Simulation.run_cases (S : Simulation c c')
    (ends : ∀ {s s'}, S.rel s s' → (c'.token s'.pos).isEnd = (c.token s.pos).isEnd)
    (openFrame : ∀ {s s'}, S.rel s s' → s.openFrame? = none → s'.openFrame? = none)
    (start : S.rel .start .start) (formed : c.Formed) {level : Nat} (enough : c.levels ≤ level) :
    (∃ s t, run level c = .ok s ∧ run level c' = .ok t ∧ S.rel s t) ∨
      ∃ e, run level c = .error (.rejected e) ∧
        (S.lost e ∨ ∃ e', run level c' = .error (.rejected e') ∧ S.fails e e') :=
  S.run_cases_of_room ends openFrame start formed (room_lt_levels enough _) (Nat.le_refl _)

end Builder

end Scoping
