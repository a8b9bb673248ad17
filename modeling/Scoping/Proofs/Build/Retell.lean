import Mathlib.Data.List.Forall2
import Scoping.Proofs.Build.InStep

/-!
# A program told again

A list of tokens is told again in another one: each token has a counterpart of its kind, with its
flags, and with its text, but for names, which are changed by one injective map that leaves the
contextual words alone. There may be more tokens before and behind, and the counterparts may stand at
other offsets. The runs over both lists go in step (`Retelling.simulation`), and build scopes, bindings
and references that differ in names and offsets alone.
-/

namespace Scoping

open Builder

/-- The token told again, where names are changed by `rename`. -/
structure Token.Retold (rename : String → String) (t t' : Token) : Prop where
  kind : t'.kind = t.kind
  flags : t'.flags = t.flags
  lexeme : t'.lexeme = if t.isIdentifier then rename t.lexeme else t.lexeme

namespace Token.Retold

variable {rename : String → String} {t t' : Token} (h : t.Retold rename t')
include h

theorem isComment : t'.isComment = t.isComment := by
  rw [Token.isComment, Token.isComment, h.kind]

theorem isEnd : t'.isEnd = t.isEnd := by rw [Token.isEnd, Token.isEnd, h.kind]

theorem lexeme_of_isIdentifier (name : t.isIdentifier = true) : t'.lexeme = rename t.lexeme := by
  rw [h.lexeme, if_pos name]

theorem lexeme_of_operator (kind : t.kind = .operator) : t'.lexeme = t.lexeme := by
  have noName : ¬ t.isIdentifier = true := by rw [Token.isIdentifier, kind]; decide
  rw [h.lexeme, if_neg noName]

theorem alike (injective : Function.Injective rename) (words : ∀ w ∈ contextualWords, rename w = w) :
    t.Alike t' where
  kind := h.kind
  afterBreak := by rw [h.flags]
  operator := h.lexeme_of_operator
  word kind w known := by
    have name : t.isIdentifier = true := by rw [Token.isIdentifier, kind]; rfl
    rw [h.lexeme_of_isIdentifier name]
    nth_rewrite 1 [← words w known]
    exact injective.eq_iff

theorem endsExpression : t'.endsExpression = t.endsExpression := by
  unfold Token.endsExpression
  rw [h.kind]
  split
  all_goals first | rfl | next kind => rw [h.lexeme_of_operator kind]

end Token.Retold

/-! ## Trees with other names -/

/-- The same declarations with the names changed. -/
def Declarations.renamed (rename : String → String) (ds : Declarations) : Declarations :=
  Array.map (fun d : String × BindingId => (rename d.1, d.2)) ds

/-- The same scope, apart from its label and where it stands, where names are changed by `rename`. -/
structure Scope.Renamed (rename : String → String) (x x' : Scope) : Prop where
  id : x'.id = x.id
  kind : x'.kind = x.kind
  parent : x'.parent = x.parent
  children : x'.children = x.children
  declarations : x'.declarations = x.declarations.renamed rename

/-- The same binding, apart from where it stands. -/
structure Binding.Renamed (rename : String → String) (b b' : Binding) : Prop where
  id : b'.id = b.id
  name : b'.name = rename b.name
  kind : b'.kind = b.kind
  scope : b'.scope = b.scope

/-- The same use of a name, apart from where it stands. -/
structure Reference.Renamed (rename : String → String) (r r' : Reference) : Prop where
  name : r'.name = rename r.name
  scope : r'.scope = r.scope

/-- The same tree but for names, labels and offsets. -/
structure Tree.Renamed (rename : String → String) (t t' : Tree) : Prop where
  scopes : List.Forall₂ (Scope.Renamed rename) t.scopes.toList t'.scopes.toList
  bindings : List.Forall₂ (Binding.Renamed rename) t.bindings.toList t'.bindings.toList
  references : List.Forall₂ (Reference.Renamed rename) t.references.toList t'.references.toList

/-- A name is bound as it was bound before it was renamed. -/
theorem Declarations.find?_renamed {rename : String → String} (injective : Function.Injective rename)
    (ds : Declarations) (name : String) :
    (ds.renamed rename).find? (rename name) = ds.find? name := by
  have same : (fun d : String × BindingId => d.1 == rename name) ∘
      (fun d : String × BindingId => (rename d.1, d.2)) = fun d => d.1 == name := by
    funext d
    rw [Function.comp_apply, Bool.eq_iff_iff, beq_iff_eq, beq_iff_eq, injective.eq_iff]
  rw [find?, find?, renamed, Array.find?_map, same, Option.map_map]
  rfl

/-! ## Lists side by side -/

section
variable {α β : Type} {R : α → β → Prop} {l : List α} {l' : List β}

theorem forall₂_getElem? (h : List.Forall₂ R l l') (i : Nat) : Option.Rel R l[i]? l'[i]? := by
  induction h generalizing i with
  | nil => exact .none
  | cons head _ ih =>
    cases i with
    | zero => exact .some head
    | succ i => exact ih i

theorem forall₂_concat {x : α} {y : β} (h : List.Forall₂ R l l') (last : R x y) :
    List.Forall₂ R (l ++ [x]) (l' ++ [y]) :=
  List.rel_append h (.cons last .nil)

theorem forall₂_modify {f : α → α} {f' : β → β} (h : List.Forall₂ R l l')
    (both : ∀ x y, R x y → R (f x) (f' y)) (i : Nat) :
    List.Forall₂ R (l.modify i f) (l'.modify i f') := by
  induction h generalizing i with
  | nil => simp
  | cons head tail ih =>
    cases i with
    | zero => exact .cons (both _ _ head) tail
    | succ i => exact .cons head (ih i)

end

namespace Builder

/-- The same reason to refuse a program that is told again. -/
inductive SameReason (same : Token → Token → Prop) (places : Nat → Nat → Prop) :
    ParseReason → ParseReason → Prop
  | unexpected {t t' : Token} (wanted : Expectation) : same t t' →
    SameReason same places (.unexpected wanted t) (.unexpected wanted t')
  | unterminated {openedAt openedAt' : Nat} : places openedAt openedAt' →
    SameReason same places (.unterminatedScope openedAt) (.unterminatedScope openedAt')
  | other (reason : ParseReason) : SameReason same places reason reason

/-- The tokens of `c` are told again in `c'`. -/
structure Retelling (c c' : Context) where
  rename : String → String
  /-- A token and its counterpart. -/
  same : Token → Token → Prop
  /-- Offsets at one place of the two lists. -/
  places : Nat → Nat → Prop
  /-- So many tokens more stand before the counterparts. -/
  shift : Nat
  /-- So many levels more are entered around them. -/
  lift : Nat
  /-- Scopes from this one on begin and end at tokens. -/
  base : ScopeId
  /-- A brace is the counterpart of the end of input, and errors are not compared. -/
  inside : Prop
  injective : Function.Injective rename
  words : ∀ w ∈ contextualWords, rename w = w
  told : ∀ {t t'}, same t t' → t.Retold rename t' ∧ places t.span.start t'.span.start ∧
    places t.span.stop t'.span.stop ∨ t.Edge t' ∧ inside
  formed : c.Formed
  token : ∀ {n}, n < c.tokens.size → same (c.token n) (c'.token (n + shift))
  rounds : c.rounds ≤ c'.rounds
  limit : c'.limit = c.limit + lift
  even : ¬ inside → lift = 0
  partner : ∀ {place close}, c.partner? place = some close →
    c'.partner? (place + shift) = some (close + shift)
  arrows : ∀ {place}, (c.token place).isPunct .openParen = true →
    c'.startsArrow (place + shift) = c.startsArrow place
  closers : ¬ inside → ∀ place, (c'.partner? (place + shift)).isNone = (c.partner? place).isNone

namespace Retelling

variable {c c' : Context} (R : Retelling c c')

/-- Spans at one place. -/
structure SameSpan (x x' : Span) : Prop where
  start : R.places x.start x'.start
  stop : R.places x.stop x'.stop

/-- A scope and its counterpart. -/
structure SameScope (x x' : Scope) : Prop extends x.Renamed R.rename x' where
  label : Labels R.same x.label x'.label
  range : R.base ≤ x.id → R.SameSpan x.range x'.range

/-- A binding and its counterpart. -/
structure SameBinding (b b' : Binding) : Prop extends b.Renamed R.rename b' where
  declaredAt : R.SameSpan b.declaredAt b'.declaredAt
  earlier : List.Forall₂ R.SameSpan b.earlier.toList b'.earlier.toList

/-- A use of a name and its counterpart. -/
structure SameReference (r r' : Reference) : Prop extends r.Renamed R.rename r' where
  span : R.SameSpan r.span r'.span

/-- An open scope and its counterpart. -/
structure SameFrame (f f' : Frame) : Prop where
  scope : f'.scope = f.scope
  opener : ∀ place, f.opener = .brace place → f'.opener = .brace (place + R.shift)
  start : R.base ≤ f.scope → R.places f.start f'.start

/-- Both runs have come to the same place, and to the same but for names and offsets. -/
structure Beside (s s' : State) : Prop where
  inside : s.pos < c.tokens.size
  pos : s'.pos = s.pos + R.shift
  operand : s'.prev.any (·.endsExpression) = s.prev.any (·.endsExpression)
  prevEnd : R.places s.prevEnd s'.prevEnd
  scopes : List.Forall₂ R.SameScope s.scopes.toList s'.scopes.toList
  bindings : List.Forall₂ R.SameBinding s.bindings.toList s'.bindings.toList
  references : List.Forall₂ R.SameReference s.references.toList s'.references.toList
  frames : List.Forall₂ R.SameFrame s.frames s'.frames
  depth : s'.depth ≤ s.depth + R.lift
  deep : s.depth ≤ s'.depth

variable {R} {s s' : State} {t t' : Token}

theorem told_of_notEnd (same : R.same t t') (notEnd : t.isEnd = false) : t.Retold R.rename t' ∧
    R.SameSpan t.span t'.span := by
  rcases R.told same with ⟨retold, start, stop⟩ | ⟨edge, _⟩
  · exact ⟨retold, start, stop⟩
  · rw [edge.isEnd] at notEnd
    cases notEnd

section
variable {fs fs' : List Frame} (frames : List.Forall₂ R.SameFrame fs fs')
include frames

theorem find?_frames (p : ScopeId → Bool) :
    (fs'.find? (p ·.scope)).map (·.scope) = (fs.find? (p ·.scope)).map (·.scope) := by
  induction frames with
  | nil => rfl
  | cons head _ ih =>
    rw [List.find?_cons, List.find?_cons, head.scope]
    split
    · rw [Option.map_some, Option.map_some, head.scope]
    · exact ih

theorem tail_frames : List.Forall₂ R.SameFrame fs.tail fs'.tail := by
  cases frames with
  | nil => exact .nil
  | cons _ tail => exact tail

theorem head?_frames : Option.Rel R.SameFrame fs.head? fs'.head? := by
  cases frames with
  | nil => exact .none
  | cons head _ => exact .some head

end

namespace Beside

variable (h : R.Beside s s')
include h

theorem size_eq : s'.scopes.size = s.scopes.size := by
  simpa using h.scopes.length_eq.symm

theorem bindings_size_eq : s'.bindings.size = s.bindings.size := by
  simpa using h.bindings.length_eq.symm

theorem scope_rel (i : ScopeId) : Option.Rel R.SameScope s.scopes[i]? s'.scopes[i]? := by
  simpa using forall₂_getElem? h.scopes i

theorem currentScope_eq : s'.currentScope = s.currentScope := by
  have top := head?_frames h.frames
  have head (u : State) : u.currentScope = (u.frames.head?.map (·.scope)).getD globalScope := by
    unfold State.currentScope
    cases u.frames <;> rfl
  rw [head, head]
  generalize s.frames.head? = f, s'.frames.head? = f' at top
  cases top with
  | none => rfl
  | some same => exact same.scope

theorem target_eq (kind : BindingKind) : s'.target kind = s.target kind := by
  have bounds (i : ScopeId) : (s'.scopes[i]?).any (·.kind.boundsFunction) =
      (s.scopes[i]?).any (·.kind.boundsFunction) := by
    have rel := h.scope_rel i
    generalize s.scopes[i]? = x, s'.scopes[i]? = x' at rel
    cases rel with
    | none => rfl
    | some same => simp only [Option.any_some, same.kind]
  have found := find?_frames h.frames fun i => (s.scopes[i]?).any (·.kind.boundsFunction)
  unfold State.target
  simp only [h.currentScope_eq, bounds]
  split
  · revert found
    cases s.frames.find? fun f => (s.scopes[f.scope]?).any (·.kind.boundsFunction) <;>
      cases s'.frames.find? fun f => (s.scopes[f.scope]?).any (·.kind.boundsFunction) <;>
      simp
  · rfl

/-- A name is declared in a scope, or its counterpart in the counterpart. -/
theorem find?_eq (i : ScopeId) (name : String) :
    (s'.scopes[i]?).bind (·.find? (R.rename name)) = (s.scopes[i]?).bind (·.find? name) := by
  have rel := h.scope_rel i
  generalize s.scopes[i]? = x, s'.scopes[i]? = x' at rel
  cases rel with
  | none => rfl
  | some same => rw [Option.bind_some, Option.bind_some, Scope.find?, Scope.find?, same.declarations,
      Declarations.find?_renamed R.injective]

theorem same_token : R.same (c.token s.pos) (c'.token s'.pos) := by
  rw [h.pos]
  exact R.token h.inside

/-- A token that is passed over has its counterpart, and they are the ones consumed last. -/
theorem behind (notEnd : (c.token s.pos).isEnd = false) : R.Beside (c.behind s) (c'.behind s') := by
  obtain ⟨retold, span⟩ := told_of_notEnd h.same_token notEnd
  have notEnd' : (c'.token s'.pos).isEnd = false := by rw [retold.isEnd, notEnd]
  refine { h with inside := ?_, pos := ?_, operand := ?_, prevEnd := ?_ }
  · rw [behind_pos notEnd]
    exact (R.formed.token_at notEnd).2
  · rw [behind_pos notEnd, behind_pos notEnd', h.pos, Nat.add_right_comm]
  · exact retold.endsExpression
  · exact span.stop

theorem refer (same : R.same t t') (name : t.isIdentifier = true) :
    R.Beside (s.refer t) (s'.refer t') := by
  obtain ⟨retold, span⟩ :=
    told_of_notEnd same (Token.isOrdinary.notEnd (Token.isOrdinary_of_isIdentifier name))
  refine { h with references := ?_ }
  rw [State.refer_references, State.refer_references, Array.toList_push, Array.toList_push]
  exact forall₂_concat h.references
    ⟨⟨retold.lexeme_of_isIdentifier name, h.currentScope_eq⟩, span⟩

theorem declare (same : R.same t t') (name : t.isIdentifier = true) (kind : BindingKind) :
    R.Beside (s.declare t kind) (s'.declare t' kind) := by
  obtain ⟨retold, span⟩ :=
    told_of_notEnd same (Token.isOrdinary.notEnd (Token.isOrdinary_of_isIdentifier name))
  have lexeme := retold.lexeme_of_isIdentifier name
  have found := h.find?_eq (s.target kind) t.lexeme
  rw [← lexeme, ← h.target_eq] at found
  rcases s.declare_cases t kind with ⟨known, old, e⟩ | ⟨new, e⟩
  · rcases s'.declare_cases t' kind with ⟨known', old', e'⟩ | ⟨new', _⟩
    · rw [h.target_eq] at found old'
      obtain rfl : known' = known := Option.some.inj (old'.symm.trans (found.trans old))
      rw [e, e']
      refine { h with bindings := ?_ }
      simp only [Array.toList_modify]
      refine forall₂_modify h.bindings (fun b b' same => ?_) known'
      exact ⟨⟨same.id, same.name, rfl, same.scope⟩, span, by
        simpa [Binding.redeclare] using forall₂_concat same.earlier same.declaredAt⟩
    · rw [h.target_eq] at found new'
      rw [new', old] at found
      cases found
  · rcases s'.declare_cases t' kind with ⟨known', old', _⟩ | ⟨_, e'⟩
    · rw [h.target_eq] at found old'
      rw [new, old'] at found
      cases found
    · rw [e, e', h.target_eq, h.bindings_size_eq]
      refine { h with scopes := ?_, bindings := ?_ }
      · simp only [Array.toList_modify]
        refine forall₂_modify h.scopes (fun x x' same => ?_) _
        exact { same with
          declarations := by simp [Declarations.renamed, same.declarations, lexeme] }
      · simp only [Array.toList_push]
        exact forall₂_concat h.bindings ⟨⟨rfl, lexeme, rfl, rfl⟩, span, .nil⟩

/-- A scope that begins at a token begins at its counterpart. -/
theorem pushScope {label label' : String} (kind : ScopeKind) (opener : Opener)
    (start : R.places (c.token s.pos).span.start (c'.token s'.pos).span.start)
    (labels : Labels R.same label label') :
    R.Beside (s.pushScope kind label (c.token s.pos).span.start opener)
      (s'.pushScope kind label' (c'.token s'.pos).span.start (opener.moved R.shift)) := by
  refine { h with scopes := ?_, frames := ?_ }
  · simp only [State.pushScope, Array.toList_push, Array.toList_modify, h.currentScope_eq,
      h.size_eq]
    refine forall₂_concat (forall₂_modify h.scopes (fun x x' same => ?_) _) ?_
    · exact { same with children := by simp [same.children] }
    · exact ⟨⟨rfl, rfl, rfl, rfl, by simp [Declarations.renamed]⟩, labels, fun _ => ⟨start, start⟩⟩
  · rw [State.pushScope_frames, State.pushScope_frames, h.size_eq]
    refine .cons ⟨rfl, fun place brace => ?_, fun _ => start⟩ h.frames
    subst brace
    rfl

theorem reopen (opener : Opener) :
    R.Beside (s.reopen opener) (s'.reopen (opener.moved R.shift)) := by
  have eq (u : State) (o : Opener) : u.reopen o =
      { u with frames := u.frames.modify 0 fun f => { f with opener := o } } := by
    obtain ⟨pos, prev, scopes, bindings, references, frames, depth⟩ := u
    cases frames <;> rfl
  rw [eq, eq]
  refine { h with frames := forall₂_modify h.frames (fun f f' same => ?_) 0 }
  refine ⟨same.scope, fun place brace => ?_, same.start⟩
  rw [show opener = .brace place from brace]
  rfl

theorem popScope (id : ScopeId) : R.Beside (s.popScope id s.prevEnd) (s'.popScope id s'.prevEnd) := by
  refine { h with scopes := ?_, frames := ?_ }
  · simp only [State.popScope, Array.toList_modify]
    refine forall₂_modify h.scopes (fun x x' same => ?_) id
    exact { same with range := fun late => ⟨(same.range late).start, h.prevEnd⟩ }
  · rw [State.popScope_frames, State.popScope_frames]
    exact tail_frames h.frames

/-- The trees that the runs leave behind are the same but for names, labels and offsets. -/
theorem tree (size size' : Nat) : (s.tree size).Renamed R.rename (s'.tree size') where
  scopes := by
    simp only [State.tree, Array.toList_modify]
    refine forall₂_modify (h.scopes.imp fun _ _ same => same.toRenamed) (fun x x' same => ?_) _
    exact { same with }
  bindings := h.bindings.imp fun _ _ same => same.toRenamed
  references := h.references.imp fun _ _ same => same.toRenamed

theorem depth_lt (allowed : s.depth < c.limit) : s'.depth < c'.limit := by
  have depth := h.depth
  rw [R.limit]
  omega

theorem deepen : R.Beside s.deepen s'.deepen where
  __ := h
  depth := by
    rw [State.deepen_depth, State.deepen_depth, Nat.add_right_comm]
    exact Nat.succ_le_succ h.depth
  deep := Nat.succ_le_succ h.deep

theorem rise : R.Beside s.rise s'.rise where
  __ := h
  depth := by
    have depth := h.depth
    rw [State.rise_depth, State.rise_depth]
    omega
  deep := Nat.pred_le_pred h.deep

end Beside

/-! ## Errors -/

/-- Errors at a token and its counterpart. -/
def SameError (R : Retelling c c') (e e' : ParseError) : Prop :=
  ∃ t t', R.same t t' ∧ e.position = t.span.start ∧ e'.position = t'.span.start ∧
    SameReason R.same R.places e.reason e'.reason

theorem Beside.openFrame_rel (h : R.Beside s s') (late : R.base ≤ 1) :
    Option.Rel (fun f f' : Frame => R.places f.start f'.start) s.openFrame? s'.openFrame? := by
  have top := head?_frames h.frames
  unfold State.openFrame?
  generalize s.frames.head? = o, s'.frames.head? = o' at top
  cases top with
  | none => exact .none
  | @some f f' same =>
    rw [Option.filter_some, Option.filter_some, same.scope]
    split
    · next inner =>
      have inner : f.scope ≠ 0 := bne_iff_ne.mp inner
      exact .some (same.start (Nat.le_trans late (Nat.one_le_iff_ne_zero.mpr inner)))
    · exact .none

/-- The error for a token that is no closing bracket without a partner. -/
def refusal (wanted : Expectation) (t : Token) (f? : Option Frame) : ParseError :=
  match t.isEnd, f? with
  | true, some f => ⟨t.span.start, .unterminatedScope f.start⟩
  | _, _ => ⟨t.span.start, .unexpected wanted t⟩

theorem unexpected_eq (c : Context) (s : State) (wanted : Expectation) : c.unexpected s wanted =
    match (c.token s.pos).kind with
    | .punctuation p =>
      if p.isCloser && (c.partner? s.pos).isNone then ⟨(c.token s.pos).span.start, .unbalanced p⟩
      else refusal wanted (c.token s.pos) s.openFrame?
    | _ => refusal wanted (c.token s.pos) s.openFrame? := rfl

theorem refusal_rel (same : R.same t t') (atEnd : t'.isEnd = t.isEnd) {f? f?' : Option Frame}
    (frames : Option.Rel (fun f f' : Frame => R.places f.start f'.start) f? f?')
    (wanted : Expectation) : SameError R (refusal wanted t f?) (refusal wanted t' f?') := by
  unfold refusal
  rw [atEnd]
  cases t.isEnd with
  | false => exact ⟨t, t', same, rfl, rfl, .unexpected wanted same⟩
  | true =>
    cases frames with
    | none => exact ⟨t, t', same, rfl, rfl, .unexpected wanted same⟩
    | some start => exact ⟨t, t', same, rfl, rfl, .unterminated start⟩

/-- What the grammar does not want is refused for the same reason. -/
theorem Beside.unexpected (h : R.Beside s s') (outside : ¬ R.inside) (late : R.base ≤ 1)
    (wanted : Expectation) : SameError R (c.unexpected s wanted) (c'.unexpected s' wanted) := by
  have same := h.same_token
  have retold : (c.token s.pos).Retold R.rename (c'.token s'.pos) := by
    rcases R.told same with ⟨retold, _⟩ | ⟨_, inside⟩
    · exact retold
    · exact absurd inside outside
  have alone : (c'.partner? s'.pos).isNone = (c.partner? s.pos).isNone := by
    rw [h.pos]
    exact R.closers outside s.pos
  have otherwise := refusal_rel same retold.isEnd (h.openFrame_rel late) wanted
  rw [unexpected_eq, unexpected_eq, alone, retold.kind]
  cases (c.token s.pos).kind with
  | punctuation p =>
    dsimp only
    split
    · exact ⟨_, _, same, rfl, rfl, .other _⟩
    · exact otherwise
  | _ => exact otherwise

/-! ## The two runs -/

/-- A run goes on in the same way over a program that is told again. -/
def simulation (R : Retelling c c') (late : ¬ R.inside → R.base ≤ 1) : Simulation c c' where
  rel := R.Beside
  same := R.same
  fails e e' := R.inside ∨ SameError R e e'
  lost _ := R.inside
  ids := Eq
  shift := R.shift
  rounds := R.rounds
  arrows := R.arrows
  alike same := (R.told same).imp (fun told => told.1.alike R.injective R.words)
    fun edge => ⟨edge.1, fun _ => edge.2⟩
  pos h := h.pos
  here h := h.same_token
  next {s s'} h name := by
    have notEnd := Token.isOrdinary.notEnd (Token.isOrdinary_of_isIdentifier name)
    rw [h.pos, Nat.add_right_comm]
    exact R.token (R.formed.token_at notEnd).2
  afterNext {s s'} h name := by
    have notEnd := Token.isOrdinary.notEnd (Token.isOrdinary_of_isIdentifier name)
    rw [h.pos, Nat.add_right_comm]
    exact R.token (R.formed.token_at notEnd).2
  operand h _ := h.operand
  closesTop {s s'} h closes := by
    unfold closesTop at closes ⊢
    have frames := h.frames
    generalize s.frames = fs, s'.frames = fs' at frames closes
    cases frames with
    | nil => cases closes
    | @cons f f' _ _ same _ =>
      obtain ⟨_, opener, _⟩ := f
      obtain ⟨_, opener', _⟩ := f'
      cases opener with
      | brace place =>
        obtain rfl : opener' = .brace (place + R.shift) := same.opener place rfl
        have partner : c.partner? place = some s.pos := by simpa using closes
        simp [R.partner partner, h.pos]
      | _ => cases closes
  behind h ordinary := h.behind (Token.isOrdinary.notEnd ordinary)
  select {s s'} h selector := by
    have notEnd := (Token.isFlat_iff.mp (Token.isFlat_of_isSelector selector)).1
    have first := h.behind notEnd
    unfold Context.behindSelector
    have word : (c'.token (c'.behind s').pos).isWord = (c.token (c.behind s).pos).isWord := by
      rcases R.told first.same_token with ⟨retold, _⟩ | ⟨edge, _⟩
      · rw [Token.isWord, Token.isWord, retold.kind]
      · rw [Token.isWord, Token.isWord, edge.kind, edge.kind']
    rw [word]
    split
    · next isWord => exact first.behind (Token.isEnd_of_isWord isWord)
    · exact first
  refer h same name := h.refer same name
  declare kind h same name := h.declare same name kind
  enter h allowed := ⟨h.depth_lt allowed, h.deepen⟩
  tooDeep {s s'} h deep := by
    by_cases inside : R.inside
    · exact .inl inside
    have limit : c'.limit = c.limit := by rw [R.limit, R.even inside, Nat.add_zero]
    refine .inr ⟨?_, .inr ⟨_, _, h.same_token, rfl, rfl, ?_⟩⟩
    · rw [limit]
      exact Nat.le_trans deep h.deep
    · rw [limit]
      exact .other _
  leave h := h.rise
  openScope {s s' label label'} kind opener h alike labels := by
    refine ⟨h.size_eq.symm, h.pushScope kind opener ?_ labels⟩
    rcases R.told h.same_token with ⟨_, start, _⟩ | ⟨edge, _⟩
    · exact start
    · have kinds := alike.kind
      rw [edge.kind, edge.kind'] at kinds
      cases kinds
  reopen opener h := h.reopen opener
  closeScope {s s' f id'} h top ids := by
    subst ids
    have tops := head?_frames h.frames
    rw [top] at tops
    generalize found : s'.frames.head? = o' at tops
    cases tops with
    | some same => exact ⟨_, rfl, same.scope, h.popScope f.scope⟩
  unexpected {s s'} wanted h := by
    by_cases inside : R.inside
    · exact .inl inside
    · exact .inr (h.unexpected inside (late inside) wanted)
  refused reason h := .inr ⟨_, _, h.same_token, rfl, rfl, .other reason⟩

end Retelling

end Builder

end Scoping
