import Scoping.Build.Expression
import Scoping.Proofs.Build.Grammar

/-!
# Expressions read

Each production of expressions reads, over a grammar that reads one bracket deeper. An expression
consumes a token before it goes deeper, and every step over it but the last consumes one.
-/

namespace Scoping

namespace Builder

variable {c : Context} {g : Grammar} {k : Nat} {s t : State}

/-! ## Tokens -/

theorem passes_of_isPunct {p : Punctuation} (h : (c.token s.pos).isPunct p = true)
    (plain : (TokenKind.punctuation p).isPlain = true) : Passes c s := by
  simp only [Token.isPunct, beq_iff_eq] at h
  exact .inl (h ▸ plain)

theorem passes_of_isKeyword {w : Keyword} (h : (c.token s.pos).isKeyword w = true) :
    Passes c s := by
  simp only [Token.isKeyword, beq_iff_eq] at h
  exact .inl (by rw [h]; rfl)

theorem passes_of_isOperator {text : String} (h : (c.token s.pos).isOperator text = true) :
    Passes c s := by
  simp only [Token.isOperator, Bool.and_eq_true, beq_iff_eq] at h
  exact .inl (by rw [h.1]; rfl)

/-- A contextual word is passed over. -/
theorem passes_of_isContextual {word : String} (h : (c.token s.pos).isContextual word = true)
    (known : word ∈ ["of", "async", "get", "set"]) : Passes c s := by
  simp only [Token.isContextual, Bool.and_eq_true, beq_iff_eq] at h
  exact .inr ⟨h.1, .inl (h.2 ▸ known)⟩

/-- A mark that may stand here is passed over if it does. -/
theorem skip_reads {p : Punctuation} (plain : (TokenKind.punctuation p).isPlain = true) :
    Reads c k (fun _ => s.pos)
      (if (c.token s.pos).isPunct p = true then advance else pure ()) s :=
  .ite (fun h => .pass (passes_of_isPunct h plain) (Nat.le_succ _)) fun _ => .done (Nat.le_refl _)

/-! ## Declarations -/

theorem InFunction.walk (h : InFunction s) (w : Walk c s t) : InFunction t := by
  obtain ⟨x, at_s, kind⟩ := h
  obtain ⟨y, at_t, keeps⟩ := w.grows.scope _ x at_s
  have same : t.currentScope = s.currentScope := by
    simp only [State.currentScope, w.frames_eq]
  exact ⟨y, same ▸ at_t, keeps.kind.trans kind⟩

theorem declareHere_reads {kind : BindingKind} (wanted : Expectation) (can : Declares s kind) :
    Reads c k (fun _ => s.pos + 1) (declareHere kind wanted) s := by
  unfold declareHere
  refine .current ?_
  split
  · next ident =>
    have name : (c.token s.pos).isIdentifier = true := by simp [Token.isIdentifier, ident]
    have pos := behind_pos_of_isFlat (s := s) (Token.isFlat_of_isIdentifier name)
    intro _
    rw [Build.ends_bind, Build.ends_declare, Build.ends_advance, State.declare_pos,
      State.declare_consume]
    exact ⟨.name name can, by rw [State.declare_pos]; exact Nat.le_of_eq pos.symm⟩
  · exact .refuseFeature _
  · exact .refuseFeature _
  · exact .refuse _

/-! ## Functions -/

theorem parametersFor_reads {rounds : Nat} (serves : g.Serves c k k) (fn : InFunction s)
    (enough : c.tokens.size - s.pos < rounds) :
    Reads c k (fun _ => s.pos) (parametersFor g rounds) s := by
  induction rounds generalizing s with
  | zero => omega
  | succ rounds ih =>
    simp only [parametersFor, Build.join, Build.join₂]
    refine .of_inside fun inside => .here (.ite (fun _ => .done (Nat.le_refl _)) fun _ => .here ?_)
    refine .andThen (skip_reads rfl) fun _ t dots atDots => ?_
    refine .andThen (declareHere_reads _ (fn.walk dots)) fun _ u name atName => .here ?_
    refine .andThen (n := fun _ => u.pos) ?_ fun _ v value atValue => .here ?_
    · refine .ite (fun equals => ?_) fun _ => .done (Nat.le_refl _)
      refine .passThen (passes_of_isPunct equals rfl) fun pos => ?_
      exact (serves.expression _ _).mono fun _ => by omega
    · refine .ite (fun comma => ?_) fun _ => .done (by omega)
      refine .passThen (passes_of_isPunct comma rfl) fun pos => ?_
      have fn' := ((fn.walk dots).walk name).walk value
      exact (ih (fn'.walk (.pass (passes_of_isPunct comma rfl))) (by omega)).mono fun _ => by omega

/-- A parameter list ends right behind the partner of its parenthesis. -/
theorem parameters_ends (serves : g.Serves c k k) (ready : Ready c (k + 1) s) (fn : InFunction s)
    (there : (c.token s.pos).isPunct .openParen = true) :
    (parameters g).Ends c (Failure.Sound c) (fun _ t => Walk c s t ∧
      ∃ close, s.pos < close ∧ t.pos = close + 1 ∧ c.partner? s.pos = some close) s := by
  have parts : parameters g = advance >>= fun _ => enter >>= fun _ =>
      ((MonadReader.read >>= fun c => parametersFor g c.rounds) >>= fun _ => expect .closeParen)
        >>= fun _ => leave := by
    simp only [parameters, bind_assoc]
  have inner : Reads c k (fun _ => (c.behind s).deepen.pos)
      (MonadReader.read >>= fun c => parametersFor g c.rounds) (c.behind s).deepen :=
    .read (parametersFor_reads serves fn (by unfold Context.rounds; omega))
  have closes : Punctuation.closeParen.closes? = some .paren := rfl
  rw [parts]
  exact bracketed_ends ready (opens?_of_isPunct there) (.of_expect closes inner)

/-- Parameters and body of a function whose scope is open. -/
theorem functionScope_ends {o : State} (serves : g.Serves c k k) (ready : Ready c (k + 1) s)
    (allowed : s.depth < c.limit) (opening : Opening c s o) (fn : InFunction o)
    (there : (c.token o.pos).isPunct .openParen = true) :
    (parameters g >>= fun _ => braceBody g s.scopes.size).Ends c (Failure.Sound c)
      (fun _ t => Walk c s t ∧ s.pos + 1 ≤ t.pos) o := by
  have begun := opening.pos_le
  obtain ⟨opener, top⟩ := opening.frames_eq
  refine (parameters_ends serves (ready.begun opening) fn there).andThen
    fun _ t ⟨header, close, further, pos, _⟩ => ?_
  have ready' : Ready c k t := ready.headed allowed opening header (by omega)
  refine (braceBody_ends serves ready' (header.frames_eq.trans top)).mono
    fun _ u ⟨opener, body⟩ => ?_
  obtain ⟨w, reached⟩ := Closes.walk allowed opening header (by omega) body
  exact ⟨w, by omega⟩

theorem inFunction_push (label : String) (start : Nat) (opener : Opener) :
    InFunction (s.pushScope .function label start opener) :=
  ⟨_, s.pushScope_scope_new .function label start opener, rfl⟩

theorem functionTail_reads (serves : g.Serves c k k) (label : String) :
    Reads c (k + 1) (fun _ => s.pos + 1) (functionTail g label none) s := by
  simp only [functionTail, Build.join]
  refine .here (.guard fun there => .current (.opening fun ready allowed => ?_))
  exact functionScope_ends serves ready allowed (.plain (by decide)) (inFunction_push ..)
    (by simpa using there)

/-- The function that a name behind the word `function` belongs to. -/
theorem functionTail_ends (serves : g.Serves c k k) (ready : Ready c (k + 1) s)
    (name : (c.token s.pos).isIdentifier = true) (after : AfterFunction s) :
    (functionTail g (c.token s.pos).lexeme (some (c.token s.pos))).Ends c (Failure.Sound c)
      (fun _ t => Walk c s t ∧ s.pos + 1 ≤ t.pos) (c.behind s) := by
  simp only [functionTail, Build.join]
  have notEnd := Token.isEnd_of_isIdentifier name
  have ready' := ready.behind notEnd
  rw [Build.ends_bind, Build.ends_here, Build.ends_bind, Build.ends_ite]
  split
  · exact ready'.sound_unexpected _
  · next there =>
    rw [Build.ends_pure, Build.ends_bind, Build.ends_current, Build.ends_bind, Build.ends_openScope]
    split
    · exact ready'.sound_here rfl
    · next allowed =>
      rw [Build.ends_bind, Build.ends_declare]
      have opening : Opening c s _ := .named name after
      refine functionScope_ends serves ready (Nat.not_lt.mp allowed) opening ?_ ?_
      · obtain ⟨x, at_o, kind⟩ := inFunction_push (s := (c.behind s).deepen)
          (c.token s.pos).lexeme (c.token (c.behind s).pos).span.start .header
        obtain ⟨y, at_o', keeps⟩ := (State.Grows.declare _ (c.token s.pos) .function).scope _ x at_o
        exact ⟨y, by rw [State.declare_currentScope]; exact at_o', keeps.kind.trans kind⟩
      · rw [State.declare_pos]
        simpa using there

theorem functionLiteral_reads (serves : g.Serves c k k) (form : FunctionForm)
    (word : (c.token s.pos).isKeyword .function = true) :
    Reads c (k + 1) (fun _ => s.pos + 1) (functionLiteral g form) s := by
  simp only [functionLiteral, functionName, Build.join, bind_assoc]
  intro ready
  have passes : Passes c s := passes_of_isKeyword word
  have pos := behind_pos_of_isFlat passes.isFlat
  rw [Build.ends_bind, Build.ends_advance, Build.ends_bind, Build.ends_current]
  -- The star is the only token that may stand between the word and the name.
  refine Build.Ends.andThen
    (P := fun _ n => Walk c s n ∧ s.pos + 1 ≤ n.pos ∧ AfterFunction n) ?_
    fun _ n ⟨w, further, after⟩ => ?_
  · rw [Build.ends_ite]
    split
    · next star =>
      have passes' : Passes c (c.behind s) := passes_of_isOperator star
      have pos' := behind_pos_of_isFlat passes'.isFlat
      have further : s.pos + 1 ≤ (c.behind (c.behind s)).pos := by omega
      exact ⟨(Walk.pass passes).trans (.pass passes'), further, by simp [AfterFunction, star]⟩
    · exact ⟨.pass passes, Nat.le_of_eq pos.symm, by simp [AfterFunction, word]⟩
  · have ready' := w.ready ready
    rw [Build.ends_bind, Build.ends_current, Build.ends_bind, Build.ends_ite]
    split
    · next name =>
      rw [Build.ends_bind, Build.ends_advance, Build.ends_pure]
      cases form with
      | declaration =>
        have named : Walk c n ((c.behind n).declare (c.token n.pos) .function) := .name name after
        refine (functionTail_reads serves _ (named.ready ready')).mono fun _ t ⟨v, _⟩ => ?_
        have reached := (named.trans v).pos_le
        exact ⟨(w.trans named).trans v, Nat.le_trans further reached⟩
      | expression =>
        refine (functionTail_ends serves ready' name after).mono fun _ t ⟨v, _⟩ => ?_
        exact ⟨w.trans v, Nat.le_trans further v.pos_le⟩
    · rw [Build.ends_pure]
      cases form with
      | declaration => exact ready'.sound_unexpected _
      | expression =>
        refine (functionTail_reads serves "anonymous" ready').mono fun _ t ⟨v, _⟩ => ?_
        exact ⟨w.trans v, Nat.le_trans further v.pos_le⟩

/-! ## Arrow functions -/

/-- An arrow function begins at the cursor: with parentheses whose partner stands before an arrow,
or with a name before one. -/
def StartsArrow (c : Context) (s : State) : Prop :=
  (c.token s.pos).isPunct .openParen = true ∧ c.startsArrow s.pos = true ∨
    (c.token s.pos).isIdentifier = true ∧ (c.token (s.pos + 1)).isPunct .arrow = true

/-- The arrow and the body of an arrow function. -/
def arrowBody (g : Grammar) (mode : ExpressionMode) (id : ScopeId) : Build Unit := do
  expectArrow
  if ← here .openBrace then braceBody g id
  else
    g.expression ⟨true, mode.insertSemicolons, false⟩
    closeScope id (← get).prevEnd

theorem arrowFunction_eq (mode : ExpressionMode) :
    arrowFunction g mode = current >>= fun t =>
      openScope .function "arrow" t.span.start .header >>= fun id =>
        here .openParen >>= fun b => (if b then parameters g
          else current >>= fun t => declare t .param >>= fun _ => advance) >>= fun _ =>
          arrowBody g mode id := by
  simp only [arrowFunction, arrowBody, Build.ite_bind, bind_assoc]

/-- Behind the bracket of its partner an arrow is found where it was looked for. -/
theorem startsArrow_partner {place close : Nat} (starts : c.startsArrow place = true)
    (partner : c.partner? place = some close) : (c.token (close + 1)).isPunct .arrow = true := by
  unfold Context.startsArrow at starts
  rw [partner, Option.bind_some] at starts
  unfold Context.token
  rw [Array.getD_eq_getD_getElem?]
  cases found : c.tokens[close + 1]? with
  | none => simp [found] at starts
  | some t => simpa [found] using starts

theorem arrowBody_ends {o : State} (serves : g.Serves c k k) (ready : Ready c (k + 1) s)
    (allowed : s.depth < c.limit) (opening : Opening c s o) (header : Walk c o t)
    (further : o.pos < t.pos) (arrow : (c.token t.pos).isPunct .arrow = true)
    (mode : ExpressionMode) :
    (arrowBody g mode s.scopes.size).Ends c (Failure.Sound c)
      (fun _ u => Walk c s u ∧ s.pos + 1 ≤ u.pos) t := by
  have passes : Passes c t := passes_of_isPunct arrow rfl
  have pos := behind_pos_of_isFlat passes.isFlat
  have begun := opening.pos_le
  have header' : Walk c o (c.behind t) := header.trans (.pass passes)
  have ready' : Ready c k (c.behind t) := ready.headed allowed opening header' (by omega)
  obtain ⟨opener, top⟩ := opening.frames_eq
  have top' := header'.frames_eq.trans top
  unfold arrowBody
  rw [Build.ends_bind, Build.ends_expectArrow, if_pos arrow, Build.ends_bind, Build.ends_here,
    Build.ends_ite]
  split
  · refine (braceBody_ends serves ready' top').mono fun _ u ⟨opener, body⟩ => ?_
    obtain ⟨w, reached⟩ := Closes.walk allowed opening header' (by omega) body
    exact ⟨w, by omega⟩
  · refine (serves.expression _ _ ready').andThen fun _ u ⟨w, reached⟩ => ?_
    refine (closeScope_ends (w.frames_eq.trans top')).mono fun _ v e => ?_
    have body : Closes c s.scopes.size (c.behind t).pos (c.behind t) v := ⟨u, w, reached, e⟩
    obtain ⟨w, reached⟩ := Closes.straight allowed opening header' (by omega) body
    exact ⟨w, by omega⟩

theorem arrowFunction_reads (serves : g.Serves c k k) (mode : ExpressionMode)
    (starts : StartsArrow c s) :
    Reads c (k + 1) (fun _ => s.pos + 1) (arrowFunction g mode) s := by
  rw [arrowFunction_eq]
  refine .current (.opening fun ready allowed => ?_)
  have opening : Opening c s (s.deepen.pushScope .function "arrow" (c.token s.pos).span.start
    .header) := .plain (by decide)
  have fn : InFunction (s.deepen.pushScope .function "arrow" (c.token s.pos).span.start .header) :=
    inFunction_push ..
  rw [Build.ends_bind, Build.ends_here, Build.ends_bind, Build.ends_ite]
  split
  · next paren =>
    refine (parameters_ends serves (ready.begun opening) fn paren).mono
      fun _ t ⟨header, close, further, pos, partner⟩ => ?_
    have starts : c.startsArrow s.pos = true := by
      rcases starts with ⟨_, starts⟩ | ⟨name, _⟩
      · exact starts
      · simp [Token.isPunct, Token.kind_of_isIdentifier name] at paren
    have arrow := startsArrow_partner starts partner
    rw [← pos] at arrow
    have further : s.pos < close := further
    exact arrowBody_ends serves ready allowed opening header (by omega) arrow mode
  · next noParen =>
    rcases starts with ⟨paren, _⟩ | ⟨name, arrow⟩
    · exact absurd paren noParen
    · have pos := behind_pos_of_isFlat (s := s) (Token.isFlat_of_isIdentifier name)
      rw [Build.ends_bind, Build.ends_current, Build.ends_bind, Build.ends_declare,
        Build.ends_advance, State.declare_pos, State.declare_consume]
      have header := Walk.name (c := c)
        (s := s.deepen.pushScope .function "arrow" (c.token s.pos).span.start .header) name
        (show Declares _ .param from fn)
      refine arrowBody_ends serves ready allowed opening header ?_ ?_ mode
      · rw [State.declare_pos]
        exact Nat.lt_of_lt_of_eq (Nat.lt_succ_self _) pos.symm
      · rw [State.declare_pos]
        exact pos ▸ arrow

/-! ## Object literals -/

theorem methodMarks_reads : Reads c k (fun _ => s.pos) methodMarks s := by
  simp only [methodMarks, Build.join]
  refine .current (.ite (fun star => ?_) fun _ => .peek (.ite (fun mark => ?_) fun _ => ?_))
  · exact .passThen (passes_of_isOperator star) fun _ => .done (by omega)
  · have passes : Passes c s := by
      simp only [Bool.and_eq_true, Bool.or_eq_true] at mark
      rcases mark.1 with (word | word) | word <;> exact passes_of_isContextual word (by decide)
    refine .passThen passes fun pos => .current ?_
    refine .andThen (n := fun _ => (c.behind s).pos) ?_ fun _ t _ further => .done (by omega)
    refine .ite (fun star => ?_) fun _ => .done (Nat.le_refl _)
    exact .pass (passes_of_isOperator star) (Nat.le_succ _)
  · exact .done (Nat.le_refl _)

/-- What stands behind the key of a member. -/
def memberValue (g : Grammar) (methodOnly : Bool) (key : Token) (label : String) : Build Unit := do
  if ← here .openParen then
    functionTail g label none
  else if methodOnly then refuse (.punct .openParen)
  else
    match (← current).kind with
    | .punctuation .colon =>
      advance
      g.expression .item
    | .punctuation .comma | .punctuation .closeBrace =>
      if key.isIdentifier then refer key
    | .punctuation .equals => refuseFeature .destructuring
    | _ => refuse (.punct .colon)

theorem member_eq : member g = here .ellipsis >>= fun dots =>
    if dots then advance >>= fun _ => g.expression .item
    else methodMarks >>= fun methodOnly => memberKey g >>= fun x =>
      memberValue g methodOnly x.1 x.2 :=
  rfl

theorem isPunct_of_kind {t : Token} {p : Punctuation} (h : t.kind = .punctuation p) :
    t.isPunct p = true := by
  simp [Token.isPunct, h]

/-- Behind a key that is no name. -/
theorem memberValue_reads (serves : g.Serves c k k) (methodOnly : Bool) {key : Token}
    (noName : key.isIdentifier = false) (label : String) :
    Reads c k (fun _ => s.pos) (memberValue g methodOnly key label) s := by
  unfold memberValue
  refine .here (.ite (fun _ => ?_) fun _ => .ite (fun _ => .refuse _) fun _ => .current ?_)
  · exact (functionTail_reads serves label).shallow.mono fun _ => Nat.le_succ _
  · split
    · next colon =>
      refine .passThen (passes_of_isPunct (isPunct_of_kind colon) rfl) fun pos => ?_
      exact (serves.expression _ _).mono fun _ => by omega
    · simp only [noName, Bool.false_eq_true, ↓reduceIte]
      exact .done (Nat.le_refl _)
    · simp only [noName, Bool.false_eq_true, ↓reduceIte]
      exact .done (Nat.le_refl _)
    · exact .refuseFeature _
    · exact .refuse _

/-- Behind a name: it is the key of what follows, or key and value in one. -/
theorem memberValue_ends (serves : g.Serves c k k) (ready : Ready c k s) (methodOnly : Bool)
    (name : (c.token s.pos).isIdentifier = true) (label : String) :
    (memberValue g methodOnly (c.token s.pos) label).Ends c (Failure.Sound c)
      (fun _ t => Walk c s t ∧ s.pos + 1 ≤ t.pos) (c.behind s) := by
  have notEnd := Token.isEnd_of_isIdentifier name
  have pos : (c.behind s).pos = s.pos + 1 := behind_pos notEnd
  have ready' := ready.behind notEnd
  unfold memberValue
  rw [Build.ends_bind, Build.ends_here, Build.ends_ite]
  split
  · next paren =>
    have key : Passes c s := .inr ⟨name, .inr (.inr (.inl (pos ▸ paren)))⟩
    refine ((functionTail_reads serves label).shallow ready').mono fun _ t ⟨w, further⟩ => ?_
    exact ⟨(Walk.pass key).trans w, by have := w.pos_le; omega⟩
  · rw [Build.ends_ite]
    split
    · exact ready'.sound_unexpected _
    · rw [Build.ends_bind, Build.ends_current]
      split
      · next colon =>
        have key : Passes c s := .inr ⟨name, .inr (.inl (pos ▸ isPunct_of_kind colon))⟩
        have value : Reads c k (fun _ => (c.behind s).pos)
            (advance >>= fun _ => g.expression .item) (c.behind s) := by
          refine .passThen (passes_of_isPunct (isPunct_of_kind colon) rfl) fun pos => ?_
          exact (serves.expression _ _).mono fun _ => by omega
        refine (value ready').mono fun _ t ⟨w, further⟩ => ?_
        exact ⟨(Walk.pass key).trans w, by have := w.pos_le; omega⟩
      · rw [Build.ends_refer]
        exact ⟨.use name, Nat.le_of_eq pos.symm⟩
      · rw [Build.ends_refer]
        exact ⟨.use name, Nat.le_of_eq pos.symm⟩
      · exact ready'.sound_here trivial
      · exact ready'.sound_unexpected _

theorem noName_of_isPlain {t : Token} (h : t.kind.isPlain = true) : t.isIdentifier = false := by
  cases kind : t.isIdentifier with
  | false => rfl
  | true => rw [Token.kind_of_isIdentifier kind] at h; cases h

theorem keyed_reads (serves : g.Serves c k k) (methodOnly : Bool) :
    Reads c k (fun _ => s.pos + 1)
      (memberKey g >>= fun x => memberValue g methodOnly x.1 x.2) s := by
  have plainKey {label : String} (plain : (c.token s.pos).kind.isPlain = true) :
      Reads c k (fun _ => s.pos + 1)
        (advance >>= fun _ => memberValue g methodOnly (c.token s.pos) label) s :=
    .passThen (.inl plain) fun pos =>
      (memberValue_reads serves methodOnly (noName_of_isPlain plain) _).mono fun _ => by omega
  simp only [memberKey, bind_assoc]
  refine .current ?_
  split <;> try simp only [bind_assoc, pure_bind]
  · next kind =>
    intro ready
    exact memberValue_ends serves ready methodOnly (by simp [Token.isIdentifier, kind]) _
  · next kind => exact plainKey (by rw [kind]; rfl)
  · next kind => exact plainKey (by rw [kind]; rfl)
  · next kind => exact plainKey (by rw [kind]; rfl)
  · next kind =>
    have opens : (c.token s.pos).opens? = some .square := opens?_of_isPunct (isPunct_of_kind kind)
    have noName : (c.token s.pos).isIdentifier = false := by simp [Token.isIdentifier, kind]
    refine .assoc (.andThen (grouped_reads serves opens rfl).shallow fun _ t w further => ?_)
    exact (memberValue_reads serves methodOnly noName _).mono fun _ => by omega
  · intro ready
    exact ready.sound_unexpected _

theorem member_reads (serves : g.Serves c k k) :
    Reads c k (fun _ => s.pos + 1) (member g) s := by
  rw [member_eq]
  refine .here (.ite (fun dots => ?_) fun _ => ?_)
  · refine .passThen (passes_of_isPunct dots rfl) fun pos => ?_
    exact (serves.expression _ _).mono fun _ => by omega
  · refine .andThen methodMarks_reads fun methodOnly t w further => ?_
    exact (keyed_reads serves methodOnly).mono fun _ => by omega

/-- The members of an object literal end before a closing brace. -/
theorem membersFor_ends {rounds : Nat} (serves : g.Serves c k k) (ready : Ready c k s)
    (enough : c.tokens.size - s.pos < rounds) :
    (membersFor g rounds).Ends c (Failure.Sound c)
      (fun _ t => Walk c s t ∧ (c.token t.pos).isPunct .closeBrace = true) s := by
  induction rounds generalizing s with
  | zero => omega
  | succ rounds ih =>
    have inside := ready.inside
    simp only [membersFor]
    rw [Build.ends_bind, Build.ends_here, Build.ends_ite]
    split
    · next close => exact ⟨.stay s, close⟩
    · refine (member_reads serves ready).andThen fun _ t ⟨w, further⟩ => ?_
      have further : s.pos + 1 ≤ t.pos := further
      have ready' := w.ready ready
      rw [Build.ends_bind, Build.ends_here, Build.ends_ite]
      split
      · next comma =>
        have passes : Passes c t := passes_of_isPunct comma rfl
        have pos := behind_pos_of_isFlat passes.isFlat
        have w' : Walk c s (c.behind t) := w.trans (.pass passes)
        rw [Build.ends_bind, Build.ends_advance]
        exact (ih (w'.ready ready) (by omega)).mono fun _ u ⟨v, close⟩ => ⟨w'.trans v, close⟩
      · rw [Build.ends_bind, Build.ends_here, Build.ends_ite]
        split
        · exact ready'.sound_unexpected _
        · exact (ih ready' (by omega)).mono fun _ u ⟨v, close⟩ => ⟨w.trans v, close⟩

theorem objectLiteral_reads (serves : g.Serves c k k)
    (there : (c.token s.pos).isPunct .openBrace = true) :
    Reads c (k + 1) (fun _ => s.pos + 1) (objectLiteral g) s := by
  have parts : objectLiteral g = advance >>= fun _ => enter >>= fun _ =>
      (MonadReader.read >>= fun c => membersFor g c.rounds >>= fun _ => advance) >>= fun _ =>
        leave := by
    simp only [objectLiteral, bind_assoc]
  have through : ReadsThrough c k .brace
      (MonadReader.read >>= fun c => membersFor g c.rounds >>= fun _ => advance)
      (c.behind s).deepen := by
    intro ready
    rw [Build.ends_bind, Build.ends_read]
    refine (membersFor_ends serves ready (by unfold Context.rounds; omega)).andThen
      fun _ t ⟨w, close⟩ => ?_
    exact ⟨t, w, closes?_of_isPunct close, rfl⟩
  intro ready
  rw [parts]
  refine (bracketed_ends ready (opens?_of_isPunct there) through).mono
    fun _ t ⟨w, close, further, pos, _⟩ => ⟨w, ?_⟩
  show s.pos + 1 ≤ t.pos
  omega

/-! ## Steps -/

/-- A name is recorded and consumed. -/
theorem use_reads (name : (c.token s.pos).isIdentifier = true) :
    Reads c k (fun _ => s.pos + 1) (refer (c.token s.pos) >>= fun _ => advance) s := by
  intro _
  rw [Build.ends_bind, Build.ends_refer, Build.ends_advance]
  exact ⟨.use name, Nat.le_of_eq (behind_pos_of_isFlat (Token.isFlat_of_isIdentifier name)).symm⟩

theorem identifierOperand_reads (serves : g.Serves c k k) (mode : ExpressionMode)
    (name : (c.token s.pos).isIdentifier = true) :
    Reads c (k + 1) (fun _ => s.pos + 1) (identifierOperand g mode) s := by
  have pos : (c.behind s).pos = s.pos + 1 :=
    behind_pos_of_isFlat (Token.isFlat_of_isIdentifier name)
  unfold identifierOperand
  refine .current (.peek (.ite (fun arrow => ?_) fun _ => .ite (fun fn => ?_) fun _ =>
    .peek (.read (.get (.ite (fun starts => ?_) fun _ => use_reads name)))))
  · exact arrowFunction_reads serves mode (.inr ⟨name, arrow⟩)
  · simp only [Bool.and_eq_true] at fn
    refine .passThen (passes_of_isContextual fn.1.1 (by decide)) fun _ => ?_
    exact (functionLiteral_reads serves _ (pos ▸ fn.2)).mono fun _ => by omega
  · simp only [Bool.and_eq_true, Bool.or_eq_true] at starts
    refine .passThen (passes_of_isContextual starts.1.1 (by decide)) fun _ => ?_
    have starts' : StartsArrow c (c.behind s) := by
      unfold StartsArrow
      rw [pos]
      rcases starts.2 with ⟨parameter, arrow⟩ | ⟨paren, arrow⟩
      · exact .inr ⟨parameter, arrow⟩
      · exact .inl ⟨paren, arrow⟩
    exact (arrowFunction_reads serves mode starts').mono fun _ => by omega

/-- A selector is consumed, and the name of a property behind it. -/
theorem select_reads (point : (c.token s.pos).isSelector = true) :
    Reads c k (fun _ => s.pos + 1)
      (advance >>= fun _ => current >>= fun t => if t.isWord then advance else pure ()) s := by
  intro _
  have walk := Walk.select point
  have pos := behind_pos_of_isFlat (Token.isFlat_of_isSelector point)
  rw [Build.ends_bind, Build.ends_advance, Build.ends_bind, Build.ends_current, Build.ends_ite]
  unfold Context.behindSelector at walk
  split
  · next word =>
    have word : (c.token (c.behind s).pos).isWord = true := word
    rw [if_pos word] at walk
    have pos' := behind_pos_of_isFlat (Token.isFlat_of_isWord word)
    have further : s.pos + 1 ≤ (c.behind (c.behind s)).pos := by omega
    exact ⟨walk, further⟩
  · next noWord =>
    have noWord : ¬ (c.token (c.behind s).pos).isWord = true := noWord
    rw [if_neg noWord] at walk
    exact ⟨walk, Nat.le_of_eq pos.symm⟩

/-- How far a step over an expression that began at `s` gets: it consumes a token unless the
expression ends. -/
def stepTo (s : State) : Option Nat → Nat
  | none => s.pos
  | some _ => s.pos + 1

theorem expressionMark_reads (serves : g.Serves c k k) (mode : ExpressionMode) (colons : Nat)
    {p : Punctuation} (there : (c.token s.pos).isPunct p = true) :
    Reads c (k + 1) (stepTo s) (expressionMark g mode colons p) s := by
  have stop : Reads c (k + 1) (stepTo s) (pure none) s := .done (Nat.le_refl _)
  have go (plain : (TokenKind.punctuation p).isPlain = true) (n : Nat) :
      Reads c (k + 1) (stepTo s) (advance >>= fun _ => pure (some n)) s :=
    .passThen (passes_of_isPunct there plain) fun pos => .done (Nat.le_of_eq pos.symm)
  have group {close : Punctuation} {shape : Bracket} (opens : p.opens? = some shape)
      (closes : close.closes? = some shape) : Reads c (k + 1) (stepTo s)
        (advance >>= fun _ => grouped g close >>= fun _ => pure (some colons)) s :=
    .assoc (.andThen (grouped_reads serves ((opens?_of_isPunct there).trans opens) closes)
      fun _ t _ further => .done (Nat.le_of_succ_le further))
  have select (point : (c.token s.pos).isSelector = true) : Reads c (k + 1) (stepTo s)
      (advance >>= fun _ => current >>= fun t =>
        (if t.isWord then advance else pure ()) >>= fun _ => pure (some colons)) s := by
    have parts : Reads c (k + 1) (stepTo s) ((advance >>= fun _ => current >>= fun t =>
        if t.isWord then advance else pure ()) >>= fun _ => pure (some colons)) s :=
      .andThen (select_reads point) fun _ t _ further => .done further
    simpa only [bind_assoc] using parts
  cases p with
  | semicolon => exact stop
  | closeBrace => exact stop
  | closeParen => exact stop
  | closeBracket => exact stop
  | comma => exact .ite (fun _ => stop) fun _ => go rfl _
  | question => exact go rfl _
  | colon => exact .ite (fun _ => stop) fun _ => go rfl _
  | openParen =>
    refine .read (.get (.ite (fun starts => ?_) fun _ => group rfl rfl))
    exact .andThen (arrowFunction_reads serves mode (.inl ⟨there, starts⟩))
      fun _ t _ further => .done further
  | openBracket => exact group rfl rfl
  | openBrace =>
    exact .andThen (objectLiteral_reads serves there) fun _ t _ further => .done further
  | dot =>
    simp only [expressionMark, Build.join]
    exact select (by simp [Token.isSelector, there])
  | questionDot =>
    simp only [expressionMark, Build.join]
    exact select (by simp [Token.isSelector, there])
  | ellipsis => exact go rfl _
  | equals => exact go rfl _
  | arrow => exact .refuse _

theorem expressionWord_reads (serves : g.Serves c k k) (colons : Nat) {w : Keyword}
    (there : (c.token s.pos).isKeyword w = true) :
    Reads c (k + 1) (stepTo s) (expressionWord g colons w) s := by
  unfold expressionWord
  split
  · exact .andThen (functionLiteral_reads serves _ there) fun _ t _ further => .done further
  · exact .refuseFeature _
  · exact .refuseFeature _
  · refine .ite (fun _ => .done (Nat.le_refl _)) fun _ => ?_
    exact .passThen (passes_of_isKeyword there) fun pos => .done (Nat.le_of_eq pos.symm)

/-- Every step over an expression but the last one consumes a token. -/
theorem expressionStep_reads (serves : g.Serves c k k) (mode : ExpressionMode)
    (first colons : Nat) :
    Reads c (k + 1) (stepTo s) (expressionStep g mode first colons) s := by
  have stop : Reads c (k + 1) (stepTo s) (pure none) s := .done (Nat.le_refl _)
  have name (kind : (c.token s.pos).kind = .identifier) : Reads c (k + 1) (stepTo s)
      (identifierOperand g mode >>= fun _ => pure (some colons)) s := by
    have name : (c.token s.pos).isIdentifier = true := by simp [Token.isIdentifier, kind]
    exact .andThen (identifierOperand_reads serves mode name) fun _ t _ further => .done further
  have plain (kind : (c.token s.pos).kind.isPlain = true) : Reads c (k + 1) (stepTo s)
      (advance >>= fun _ => pure (some colons)) s :=
    .passThen (.inl kind) fun pos => .done (Nat.le_of_eq pos.symm)
  unfold expressionStep
  simp only [endsByMode, prevEndsExpression, bind_assoc, pure_bind]
  refine .current (.get (.ite (fun _ => .get (.ite (fun _ => stop) fun _ => ?_)) fun _ => ?_))
  all_goals
    split
    · exact stop
    · next kind => exact expressionMark_reads serves mode colons (isPunct_of_kind kind)
    · next kind => exact name kind
    · next kind => exact expressionWord_reads serves colons (by simp [Token.isKeyword, kind])
    · refine plain ?_
      cases kind : (c.token s.pos).kind <;> simp_all [TokenKind.isPlain]

theorem expressionFor_reads {rounds : Nat} (serves : g.Serves c k k) (mode : ExpressionMode)
    (first colons : Nat) (enough : c.tokens.size - s.pos < rounds) :
    Reads c (k + 1) (fun _ => s.pos) (expressionFor g mode first rounds colons) s := by
  induction rounds generalizing s colons with
  | zero => omega
  | succ rounds ih =>
    unfold expressionFor
    refine .of_inside fun inside => .andThen (expressionStep_reads serves mode first colons)
      fun colons? t _ further => ?_
    cases colons? with
    | none => exact .done further
    | some colons =>
      have further : s.pos + 1 ≤ t.pos := further
      exact (ih colons (by omega)).mono fun _ => by omega

/-- An expression reads over a grammar that reads a level deeper. -/
theorem expression_reads (serves : g.Serves c k k) (mode : ExpressionMode) :
    Reads c (k + 1) (fun _ => s.pos) (expression g mode) s := by
  unfold expression
  refine .get (.read (expressionFor_reads serves mode _ _ ?_))
  unfold Context.rounds
  omega

end Builder

end Scoping
