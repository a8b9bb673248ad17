import Scoping.Proofs.Build.Balance

/-!
# Every name is accounted for

What is recorded are names of tokens with their spans, some as uses and some as declarations. Along a
walk the places of those tokens are collected (`Accounts`): a place is collected once, when the cursor
passes it, and never behind a selector. A name that nothing around it makes other than a variable
(`Token.isVariable`) is collected for sure, as the productions pass over a name without a trace only
where something does.
-/

namespace Scoping

/-! ## What is recorded -/

/-- The names that are used, with their spans. -/
def usedIn (references : Array Reference) : List (String × Span) :=
  references.toList.map fun r => (r.name, r.span)

/-- The names that are declared, with the spans of all their declarations. -/
def declaredIn (bindings : Array Binding) : List (String × Span) :=
  bindings.toList.flatMap fun b => b.declarations.map fun span => (b.name, span)

/-- Every name that the tree has recorded. -/
def Tree.recorded (t : Tree) : List (String × Span) := usedIn t.references ++ declaredIn t.bindings

/-- What is recorded of a token. -/
def Token.entry (t : Token) : String × Span := (t.lexeme, t.span)

/-- A name of which neither the token before nor the one after tells that it is other than a variable:
it is no contextual word, property, label or key, and not what a jump leads to. Before a parenthesis
it may be the name of a method. -/
def Token.isVariable (before : Option Token) (name : Token) (after : Option Token) : Bool :=
  name.isIdentifier && !(["of", "async", "get", "set"].contains name.lexeme) &&
    !before.any (fun t => t.isSelector || t.isKeyword .break_ || t.isKeyword .continue_) &&
    !after.any (fun t => t.isPunct .colon || t.isPunct .openParen)

/-- Over a list of tokens, what the tree has recorded are names of tokens: no token twice, no property,
and every variable. Uses are in source order. -/
structure Tree.AccountsFor (t : Tree) (ts : List Token) : Prop where
  apart : (t.recorded.map (·.2)).Nodup
  ordered : t.references.toList.Pairwise fun r q => r.span.start < q.span.start
  named : ∀ r ∈ t.recorded, ∃ name ∈ ts, name.isIdentifier = true ∧ r = name.entry ∧
    ∀ u ∈ ts, u.span = r.2 → u = name
  unselected : ∀ before point name after, Builder.significant ts = before ++ point :: name :: after →
    point.isSelector = true → ∀ r ∈ t.recorded, r.2 ≠ name.span
  complete : ∀ before name after, Builder.significant ts = before ++ name :: after →
    name.isVariable before.getLast? after.head? = true → t.recorded.count name.entry = 1

namespace Token

variable {t : Token}

theorem isVariable_of_not_isIdentifier {before after : Option Token}
    (h : t.isIdentifier = false) : isVariable before t after = false := by
  simp [isVariable, h]

theorem isVariable_of_isSelector {before after : Option Token}
    (h : before.any Token.isSelector = true) : isVariable before t after = false := by
  cases before with
  | none => cases h
  | some u =>
    rw [Option.any_some] at h
    simp [isVariable, h]

theorem isSelector_of_isPlain (h : t.kind.isPlain = true) : t.isSelector = false := by
  unfold TokenKind.isPlain at h
  cases kind : t.kind with
  | punctuation p => cases p <;> simp_all [isSelector, isPunct]
  | _ => simp_all [isSelector, isPunct]

theorem isIdentifier_of_isPlain (h : t.kind.isPlain = true) : t.isIdentifier = false := by
  unfold TokenKind.isPlain at h
  cases kind : t.kind <;> simp_all [isIdentifier]

theorem isIdentifier_of_isSelector (h : t.isSelector = true) : t.isIdentifier = false := by
  simp only [isSelector, isPunct, Bool.or_eq_true, beq_iff_eq] at h
  rcases h with kind | kind <;> simp [isIdentifier, kind]

theorem isBracket_iff : t.isBracket = true ↔
    (∃ shape, t.opens? = some shape) ∨ ∃ shape, t.closes? = some shape := by
  simp [isBracket, Option.isSome_iff_exists]

theorem isSelector_of_isBracket (h : t.isBracket = true) : t.isSelector = false := by
  unfold isBracket opens? closes? at h
  cases kind : t.kind with
  | punctuation p =>
    cases p <;> simp_all [isSelector, isPunct, Punctuation.opens?, Punctuation.closes?]
  | _ => simp_all

theorem isIdentifier_of_isBracket (h : t.isBracket = true) : t.isIdentifier = false := by
  unfold isBracket opens? closes? at h
  cases kind : t.kind <;> simp_all [isIdentifier]

end Token

namespace Builder

variable {c : Context} {s t r : State} {places uses names : List Nat} {n : Nat}

/-! ## Places -/

namespace Context

/-- What stands at a place is the name of a property. -/
def isProperty (c : Context) (place : Nat) : Bool := (c.before? place).any Token.isSelector

/-- What stands at a place is a variable, by the tokens around it. -/
def isVariable (c : Context) (place : Nat) : Bool :=
  Token.isVariable (c.before? place) (c.token place) (some (c.token (place + 1)))

/-- What is recorded of the token at a place. -/
def entry (c : Context) (place : Nat) : String × Span := (c.token place).entry

end Context

/-- Among the places before `stop` these are the ones that are recorded. -/
structure Collected (c : Context) (stop : Nat) (places : List Nat) : Prop where
  once : places.Nodup
  name : ∀ n ∈ places, n < stop ∧ (c.token n).isIdentifier = true ∧ c.isProperty n = false
  all : ∀ n < stop, c.isVariable n = true → n ∈ places

namespace Collected

theorem perm {more : List Nat} (h : Collected c n places) (same : more.Perm places) :
    Collected c n more where
  once := same.nodup_iff.mpr h.once
  name m mem := h.name m (same.mem_iff.mp mem)
  all m less counts := same.mem_iff.mpr (h.all m less counts)

/-- A place that holds no variable may be left out. -/
theorem skip (h : Collected c n places) (other : c.isVariable n = false) :
    Collected c (n + 1) places where
  once := h.once
  name m mem := ⟨Nat.lt_succ_of_lt (h.name m mem).1, (h.name m mem).2⟩
  all m less counts := by
    rcases Nat.lt_succ_iff_lt_or_eq.mp less with before | rfl
    · exact h.all m before counts
    · rw [other] at counts
      cases counts

/-- A name that is no property may be taken in. -/
theorem add (h : Collected c n places) (name : (c.token n).isIdentifier = true)
    (free : c.isProperty n = false) : Collected c (n + 1) (n :: places) where
  once := List.nodup_cons.mpr ⟨fun mem => Nat.lt_irrefl n (h.name n mem).1, h.once⟩
  name := by
    refine List.forall_mem_cons.mpr ⟨⟨Nat.lt_succ_self n, name, free⟩, fun m mem => ?_⟩
    exact ⟨Nat.lt_succ_of_lt (h.name m mem).1, (h.name m mem).2⟩
  all m less counts := by
    rcases Nat.lt_succ_iff_lt_or_eq.mp less with before | rfl
    · exact List.mem_cons_of_mem _ (h.all m before counts)
    · exact List.mem_cons_self

end Collected

/-! ## What a declaration records -/

theorem declaredIn_push {bindings : Array Binding} {b : Binding} {span : Span}
    (single : b.declarations = [span]) :
    declaredIn (bindings.push b) = declaredIn bindings ++ [(b.name, span)] := by
  simp [declaredIn, single]

/-- A binding that is declared once more has one declaration more. -/
theorem declaredIn_modify {bindings : Array Binding} {id : BindingId} {b : Binding}
    (at_id : bindings[id]? = some b) (kind : BindingKind) (span : Span) :
    (declaredIn (bindings.modify id (·.redeclare kind span))).Perm
      ((b.name, span) :: declaredIn bindings) := by
  obtain ⟨inside, found⟩ := Array.getElem?_eq_some_iff.mp at_id
  obtain ⟨before, x, behind, whole, place, modified⟩ :=
    List.exists_of_modify (·.redeclare kind span) (l := bindings.toList) inside
  have same : x = b := by
    have at_x : bindings.toList[id]? = some x := by simp [whole, ← place]
    rw [Array.getElem?_toList, at_id] at at_x
    exact (Option.some.inj at_x).symm
  subst same
  have more : (x.redeclare kind span).declarations = x.declarations ++ [span] := by
    simp [Binding.redeclare, Binding.declarations]
  have spelled : (x.redeclare kind span).name = x.name := rfl
  rw [declaredIn, declaredIn, Array.toList_modify, modified, whole]
  simp only [List.flatMap_append, List.flatMap_cons, more, spelled, List.map_append, List.map_cons,
    List.map_nil, List.append_assoc, List.singleton_append]
  rw [← List.append_assoc, ← List.append_assoc]
  exact List.perm_middle

/-- A declaration records the name of its token, and nothing else. -/
theorem declaredIn_declare (listed : Listed s) (name : Token) (kind : BindingKind) :
    (declaredIn (s.declare name kind).bindings).Perm (name.entry :: declaredIn s.bindings) := by
  rcases s.declare_cases name kind with ⟨known, found, e⟩ | ⟨_, e⟩
  · obtain ⟨b, at_known, spelled, _⟩ := listed.boundIn found
    rw [e, Token.entry, ← spelled]
    exact declaredIn_modify at_known kind name.span
  · rw [e]
    show (declaredIn (s.bindings.push _)).Perm _
    rw [declaredIn_push rfl]
    exact List.perm_append_singleton _ _

/-! ## Along a walk -/

/-- The places of the tokens whose names are recorded as uses and as declarations. -/
structure Accounts (c : Context) (s : State) (uses names : List Nat) : Prop where
  listed : Listed s
  used : usedIn s.references = uses.map c.entry
  declared : (declaredIn s.bindings).Perm (names.map c.entry)
  sorted : uses.Pairwise (· < ·)
  collected : Collected c s.pos (uses ++ names)
  prev : s.prev = c.before? s.pos

/-- All that is recorded is accounted for. -/
def Accounted (c : Context) (s : State) : Prop := ∃ uses names, Accounts c s uses names

/-- The cursor stands on no property's name. -/
def Clear (c : Context) (s : State) : Prop :=
  (c.token s.pos).isWord = true → c.isProperty s.pos = false

theorem accounted_start : Accounted c .start :=
  ⟨[], [], listed_start, rfl, List.Perm.refl _, List.Pairwise.nil,
    ⟨List.nodup_nil, nofun, nofun⟩, rfl⟩

theorem clear_start : Clear c .start := fun _ => rfl

theorem Clear.of_pos (h : Clear c s) (pos : t.pos = s.pos) : Clear c t := by
  unfold Clear
  rw [pos]
  exact h

theorem isProperty_behind (notEnd : (c.token s.pos).isEnd = false) :
    c.isProperty (c.behind s).pos = (c.token s.pos).isSelector := by
  rw [behind_pos notEnd]
  rfl

/-- Behind a token that is no selector. -/
theorem clear_behind (notEnd : (c.token s.pos).isEnd = false)
    (other : (c.token s.pos).isSelector = false) : Clear c (c.behind s) := by
  intro _
  rw [isProperty_behind notEnd, other]

theorem clear_behind_name (name : (c.token s.pos).isIdentifier = true) : Clear c (c.behind s) :=
  clear_behind (Token.isEnd_of_isIdentifier name)
    (Token.isSelector_of_isWord (Token.isWord_of_isIdentifier name))

theorem Passes.clear (passes : Passes c s) : Clear c (c.behind s) := by
  rcases passes with plain | ⟨name, _⟩
  · exact clear_behind (Token.isFlat_iff.mp (Token.isFlat_of_isPlain plain)).1
      (Token.isSelector_of_isPlain plain)
  · exact clear_behind_name name

namespace Accounted

/-- A change that leaves alone what is recorded, and the cursor. -/
theorem still (h : Accounted c s)
    (declarations : ∀ i, declarationsIn t.scopes i = declarationsIn s.scopes i)
    (references : t.references = s.references) (bindings : t.bindings = s.bindings)
    (pos : t.pos = s.pos) (prev : t.prev = s.prev) : Accounted c t := by
  obtain ⟨uses, names, h⟩ := h
  refine ⟨uses, names, h.listed.of_eq bindings declarations, ?_, ?_, h.sorted, ?_, ?_⟩
  · rw [references, h.used]
  · rw [bindings]
    exact h.declared
  · rw [pos]
    exact h.collected
  · rw [prev, pos, h.prev]

/-- The cursor passes a token that is no variable. -/
theorem skip (h : Accounted c s) (notEnd : (c.token s.pos).isEnd = false)
    (other : c.isVariable s.pos = false) : Accounted c (c.behind s) := by
  obtain ⟨uses, names, h⟩ := h
  have collected := h.collected.skip other
  rw [← behind_pos notEnd] at collected
  refine ⟨uses, names, h.listed, h.used, h.declared, h.sorted, collected, ?_⟩
  rw [behind_pos notEnd]
  rfl

theorem skip_of_not_isIdentifier (h : Accounted c s) (notEnd : (c.token s.pos).isEnd = false)
    (other : (c.token s.pos).isIdentifier = false) : Accounted c (c.behind s) :=
  h.skip notEnd (Token.isVariable_of_not_isIdentifier other)

/-- The cursor passes a name, which is recorded as a use. -/
theorem use (h : Accounted c s) (clear : Clear c s)
    (name : (c.token s.pos).isIdentifier = true) :
    Accounted c ((c.behind s).refer (c.token s.pos)) := by
  obtain ⟨uses, names, h⟩ := h
  have notEnd := Token.isEnd_of_isIdentifier name
  have free := clear (Token.isWord_of_isIdentifier name)
  have before (n : Nat) (mem : n ∈ uses) : n < s.pos :=
    (h.collected.name n (List.mem_append_left _ mem)).1
  refine ⟨uses ++ [s.pos], names, h.listed, ?used, h.declared, ?sorted, ?collected, ?prev⟩
  case used =>
    have new : usedIn ((c.behind s).refer (c.token s.pos)).references =
        usedIn s.references ++ [c.entry s.pos] := by
      simp [usedIn, Context.entry, Token.entry]
    rw [new, h.used, List.map_append, List.map_singleton]
  case sorted =>
    refine List.pairwise_append.mpr ⟨h.sorted, List.pairwise_singleton _ _, fun n mem m last => ?_⟩
    rw [List.mem_singleton.mp last]
    exact before n mem
  case collected =>
    rw [State.refer_pos, behind_pos notEnd, List.append_assoc]
    exact (h.collected.add name free).perm List.perm_middle
  case prev =>
    rw [State.refer_pos, behind_pos notEnd]
    rfl

/-- The cursor has passed a name, which is recorded as a declaration. -/
theorem declare {kind : BindingKind} (h : Accounted c s) (clear : Clear c s)
    (name : (c.token s.pos).isIdentifier = true)
    (declarations : ∀ i, declarationsIn r.scopes i = declarationsIn s.scopes i)
    (references : r.references = s.references) (bindings : r.bindings = s.bindings)
    (pos : r.pos = (c.behind s).pos) (prev : r.prev = (c.behind s).prev) :
    Accounted c (r.declare (c.token s.pos) kind) := by
  obtain ⟨uses, names, h⟩ := h
  have listed := h.listed.of_eq bindings declarations
  have notEnd := Token.isEnd_of_isIdentifier name
  have free := clear (Token.isWord_of_isIdentifier name)
  rw [behind_pos notEnd] at pos
  refine ⟨uses, s.pos :: names, listed.declare _ _, ?used, ?declared, h.sorted, ?collected, ?prev⟩
  case used => rw [State.declare_references, references, h.used]
  case declared =>
    have more := declaredIn_declare listed (c.token s.pos) kind
    rw [bindings] at more
    exact more.trans (h.declared.cons _)
  case collected =>
    rw [State.declare_pos, pos]
    exact (h.collected.add name free).perm List.perm_middle
  case prev =>
    rw [State.declare_prev, State.declare_pos, pos, prev]
    rfl

/-- What a production passes over without a trace is no variable. -/
theorem pass (h : Accounted c s) (passes : Passes c s) : Accounted c (c.behind s) := by
  refine h.skip (Token.isFlat_iff.mp passes.isFlat).1 ?_
  rcases passes with plain | ⟨_, unrecorded⟩
  · exact Token.isVariable_of_not_isIdentifier (Token.isIdentifier_of_isPlain plain)
  · obtain ⟨uses, names, h⟩ := h
    unfold Unrecorded at unrecorded
    rw [h.prev] at unrecorded
    unfold Context.isVariable Token.isVariable
    rcases unrecorded with contextual | colon | paren | jump
    · simp [contextual]
    · simp [colon]
    · simp [paren]
    · cases before : c.before? s.pos with
      | none =>
        rw [before] at jump
        cases jump
      | some u =>
        rw [before, Option.any_some, Bool.or_eq_true] at jump
        rcases jump with jump | jump <;> simp [jump]

/-- A bracket records nothing. -/
theorem bracket (h : Accounted c s) (bracket : (c.token s.pos).isBracket = true) :
    Accounted c (c.behind s) ∧ Clear c (c.behind s) := by
  have notEnd : (c.token s.pos).isEnd = false := by
    rcases Token.isBracket_iff.mp bracket with ⟨shape, opens⟩ | ⟨shape, closes⟩
    · exact Token.isEnd_of_opens? opens
    · exact Token.isEnd_of_closes? closes
  exact ⟨h.skip_of_not_isIdentifier notEnd (Token.isIdentifier_of_isBracket bracket),
    clear_behind notEnd (Token.isSelector_of_isBracket bracket)⟩

/-- The name behind a selector is passed along with it. -/
theorem select (h : Accounted c s) (point : (c.token s.pos).isSelector = true) :
    Accounted c (c.behindSelector s) ∧ Clear c (c.behindSelector s) := by
  have notEnd := (Token.isFlat_iff.mp (Token.isFlat_of_isSelector point)).1
  have behind := h.skip_of_not_isIdentifier notEnd (Token.isIdentifier_of_isSelector point)
  have property : c.isProperty (c.behind s).pos = true := by rw [isProperty_behind notEnd, point]
  unfold Context.behindSelector
  split
  · next word =>
    have notEnd := Token.isEnd_of_isWord word
    exact ⟨behind.skip notEnd (Token.isVariable_of_isSelector property),
      clear_behind notEnd (Token.isSelector_of_isWord word)⟩
  · next other => exact ⟨behind, fun word => absurd word other⟩

/-- A scope that begins records the name of its function, if it has one. -/
theorem opening (h : Accounted c s) (clear : Clear c s) (opening : Opening c s t) :
    Accounted c t ∧ Clear c t := by
  cases opening with
  | plain _ =>
    exact ⟨h.still (fun _ => declarationsIn_push (s := s.deepen)) rfl rfl rfl rfl, clear⟩
  | named name _ =>
    refine ⟨h.declare clear name (fun _ => declarationsIn_push (s := (c.behind s).deepen)) rfl rfl
      rfl rfl, ?_⟩
    exact (clear_behind_name name).of_pos (State.declare_pos ..)

end Accounted

/-- On a walk every name is accounted for. -/
theorem Walk.accounted (w : Walk c s t) (h : Accounted c s) (clear : Clear c s) :
    Accounted c t ∧ Clear c t := by
  induction w with
  | stay => exact ⟨h, clear⟩
  | trans _ _ first second =>
    obtain ⟨h, clear⟩ := first h clear
    exact second h clear
  | pass passes => exact ⟨h.pass passes, passes.clear⟩
  | select point => exact h.select point
  | use name => exact ⟨h.use clear name, clear_behind_name name⟩
  | name name _ =>
    exact ⟨h.declare clear name (fun _ => rfl) rfl rfl rfl rfl,
      (clear_behind_name name).of_pos (State.declare_pos ..)⟩
  | pair opens _ closes inner =>
    have opening := Token.isBracket_iff.mpr (.inl ⟨_, opens⟩)
    have closing := Token.isBracket_iff.mpr (.inr ⟨_, closes⟩)
    obtain ⟨inside, _⟩ := inner (h.bracket opening).1 (h.bracket opening).2
    exact inside.bracket closing
  | deeper _ _ inner =>
    obtain ⟨inside, clear⟩ := inner (h.still (fun _ => rfl) rfl rfl rfl rfl) clear
    exact ⟨inside.still (fun _ => rfl) rfl rfl rfl rfl, clear⟩
  | @scope s opened t u opener _ opening _ _ _ header body =>
    obtain ⟨begun, clear⟩ := h.opening clear opening
    obtain ⟨headed, clear⟩ := header begun clear
    have reopened : Accounted c (t.reopen opener) :=
      headed.still (fun _ => by rw [State.reopen_scopes]) (by simp) (by simp) (by simp) (by simp)
    obtain ⟨inside, clear⟩ := body reopened (clear.of_pos (State.reopen_pos ..))
    exact ⟨inside.still (fun _ => declarationsIn_pop) rfl rfl rfl rfl, clear⟩

/-! ## From a source -/

/-- The token that a list of tokens is split at, by its place. -/
theorem token_of_split {ts before after : List Token} {final u : Token} {limit : Nat}
    (split : significant ts = before ++ u :: after) :
    (Context.ofTokens ts final limit).token before.length = u := by
  have inside : before.length < (significant ts).length := by simp [split]
  rw [token_ofTokens inside]
  simp [split]

theorem before?_of_split {ts before after : List Token} {final u : Token} {limit : Nat}
    (split : significant ts = before ++ u :: after) :
    (Context.ofTokens ts final limit).before? before.length = before.getLast? := by
  cases last : before.getLast? with
  | none =>
    rw [List.getLast?_eq_none_iff.mp last]
    rfl
  | some t =>
    obtain ⟨front, rfl⟩ := List.getLast?_eq_some_iff.mp last
    rw [List.append_assoc, List.singleton_append] at split
    rw [List.length_append, List.length_singleton]
    exact congrArg some (token_of_split split)

theorem isVariable_of_split {ts before after : List Token} {final u next : Token} {limit : Nat}
    (split : significant ts = before ++ u :: next :: after) :
    (Context.ofTokens ts final limit).isVariable before.length =
      u.isVariable before.getLast? (some next) := by
  have behind : significant ts = (before ++ [u]) ++ next :: after := by simp [split]
  have follows : (Context.ofTokens ts final limit).token (before ++ [u]).length = next :=
    token_of_split behind
  rw [List.length_append, List.length_singleton] at follows
  rw [Context.isVariable, before?_of_split split, token_of_split split, follows]

/-- At the end of a source the cursor has passed all tokens but the last. -/
theorem Walk.reads_all {ts : List Token} {cs : List Char} {final : Token} {limit : Nat}
    (w : Walk (Context.ofTokens ts final limit) .start s)
    (formed : (Context.ofTokens ts final limit).Formed)
    (atEnd : ((Context.ofTokens ts final limit).token s.pos).isEnd = true)
    (tiling : Tiling 0 cs ts) {n : Nat} (h : n + 1 < (significant ts).length) : n < s.pos := by
  have inside : s.pos < (significant ts).length := w.inside formed formed.nonempty
  refine Nat.lt_of_not_le fun early => ?_
  have notEnd := significant_notEnd tiling (Nat.lt_of_le_of_lt (Nat.succ_le_succ early) h)
    (List.getElem?_eq_getElem inside)
  rw [token_ofTokens inside, notEnd] at atEnd
  cases atEnd

/-- What is recorded stands in the tree. -/
theorem Accounts.recorded_perm (accounts : Accounts c s uses names) (size : Nat) :
    (s.tree size).recorded.Perm ((uses ++ names).map c.entry) := by
  rw [List.map_append, ← accounts.used]
  exact accounts.declared.append_left _

section
variable (accounts : Accounts c s uses names) (formed : c.Formed)
include accounts formed

/-- A place that is collected holds a token, and is not the last one. -/
theorem Accounts.inside (mem : n ∈ uses ++ names) :
    c.tokens[n]? = some (c.token n) ∧ n + 1 < c.tokens.size :=
  formed.token_at (Token.isEnd_of_isIdentifier (accounts.collected.name n mem).2.1)

variable (spaced : c.Spaced)
include spaced

/-- No two names that are recorded have the same span. -/
theorem Accounts.apart (apart : c.tokens.toList.Pairwise fun t u => t.span.stop ≤ u.span.start)
    (size : Nat) : ((s.tree size).recorded.map (·.2)).Nodup := by
  refine ((accounts.recorded_perm size).map _).nodup_iff.mpr ?_
  rw [List.map_map]
  refine List.pairwise_map.mpr (accounts.collected.once.imp_of_mem ?_)
  intro m n left right different same
  obtain ⟨at_m, inside⟩ := accounts.inside formed left
  obtain ⟨at_n, _⟩ := accounts.inside formed right
  rw [← Array.getElem?_toList] at at_m at_n
  exact different (place_eq_of_span apart at_m at_n (spaced.wide m inside) same.symm)

/-- No two bindings are declared at one span. -/
theorem Accounts.binding_eq {b b' : Nat} {x y : Binding} {span : Span}
    (at_b : s.bindings[b]? = some x) (at_b' : s.bindings[b']? = some y)
    (mem : span ∈ x.declarations) (mem' : span ∈ y.declarations) : b = b' := by
  have once : ((declaredIn s.bindings).map (·.2)).Nodup := by
    refine (accounts.declared.map _).nodup_iff.mpr ?_
    rw [List.map_map]
    refine List.pairwise_map.mpr ((List.nodup_append.mp accounts.collected.once).2.1.imp_of_mem ?_)
    intro m n left right different same
    exact different (spaced.place_eq (accounts.inside formed (List.mem_append_right _ left)).2
      (accounts.inside formed (List.mem_append_right _ right)).2 same)
  have spans : (declaredIn s.bindings).map (·.2) = s.bindings.toList.flatMap (·.declarations) := by
    simp [declaredIn, List.map_flatMap, Function.comp_def]
  rw [spans, List.Nodup, List.pairwise_flatMap, List.pairwise_iff_getElem] at once
  obtain ⟨inside, rfl⟩ := Array.getElem?_eq_some_iff.mp at_b
  obtain ⟨inside', rfl⟩ := Array.getElem?_eq_some_iff.mp at_b'
  have disjoint {i j : Nat} (less : i < j) (inside : i < s.bindings.size)
      (inside' : j < s.bindings.size) (mem : span ∈ (s.bindings[i]).declarations)
      (mem' : span ∈ (s.bindings[j]).declarations) : False :=
    once.2 i j inside inside' less span (by simpa using mem) span (by simpa using mem') rfl
  rcases Nat.lt_trichotomy b b' with less | rfl | more
  · exact (disjoint less inside inside' mem mem').elim
  · rfl
  · exact (disjoint more inside' inside mem' mem).elim

/-- Uses are recorded in source order. -/
theorem Accounts.ordered :
    s.references.toList.Pairwise fun r q => r.span.start < q.span.start := by
  have entries : (usedIn s.references).Pairwise fun r q => r.2.start < q.2.start := by
    rw [accounts.used]
    refine List.pairwise_map.mpr (accounts.sorted.imp_of_mem ?_)
    intro m n left right less
    have first := (accounts.inside formed (List.mem_append_left _ left)).2
    have second := (accounts.inside formed (List.mem_append_left _ right)).2
    exact Nat.lt_of_lt_of_le (spaced.wide m first)
      (spaced.stop_le_start less (Nat.lt_of_succ_lt second))
  rw [usedIn, List.pairwise_map] at entries
  exact entries

end

/-- Every name of a source that makes a tree is accounted for. -/
theorem ofTokens_accountsFor {source : String} {most : Option Nat} {ts : List Token} {limit : Nat}
    {t : Tree} (lexed : tokenize source most = .ok ts) (built : Tree.ofTokens ts limit = .ok t) :
    t.AccountsFor ts := by
  obtain ⟨final, s, last, formed, w, atEnd, rfl⟩ := ofTokens_ok built
  have tiling := tokenize_tiling lexed
  obtain ⟨spaced, _⟩ := ofTokens_spaced tiling last limit
  obtain ⟨⟨uses, names, accounts⟩, _⟩ := w.accounted accounted_start clear_start
  have recorded := accounts.recorded_perm (Context.ofTokens ts final limit).sourceSize
  have ordered := tiling.apart.filter (!·.isComment)
  have apart := accounts.apart formed spaced ordered (Context.ofTokens ts final limit).sourceSize
  have inside {n : Nat} (place : n ∈ uses ++ names) :
      (significant ts)[n]? = some ((Context.ofTokens ts final limit).token n) ∧
        n + 1 < (significant ts).length := by
    simpa [Context.ofTokens] using accounts.inside formed place
  refine ⟨apart, accounts.ordered formed spaced, ?named, ?unselected, ?complete⟩
  case named =>
    intro r mem
    obtain ⟨n, place, rfl⟩ := List.mem_map.mp (recorded.mem_iff.mp mem)
    obtain ⟨_, name, _⟩ := accounts.collected.name n place
    have here := (List.mem_filter.mp (List.mem_of_getElem? (inside place).1)).1
    have wide := tiling.wide _ here (Token.isEnd_of_isIdentifier name)
    refine ⟨_, here, name, rfl, fun u mem same => ?_⟩
    obtain ⟨i, at_i⟩ := List.mem_iff_getElem?.mp here
    obtain ⟨j, at_j⟩ := List.mem_iff_getElem?.mp mem
    cases place_eq_of_span tiling.apart at_i at_j wide same
    exact Option.some.inj (at_j.symm.trans at_i)
  case unselected =>
    intro before point name after split selector r mem same
    obtain ⟨n, place, rfl⟩ := List.mem_map.mp (recorded.mem_iff.mp mem)
    obtain ⟨_, _, free⟩ := accounts.collected.name n place
    have at_name : (significant ts)[before.length + 1]? = some name := by simp [split]
    have wide := spaced.wide n (inside place).2
    cases place_eq_of_span ordered (inside place).1 at_name wide same.symm
    have selected : (Context.ofTokens ts final limit).before? (before.length + 1) = some point :=
      congrArg some (token_of_split split)
    rw [Context.isProperty, selected, Option.any_some, selector] at free
    cases free
  case complete =>
    intro before name after split counts
    have identifier : name.isIdentifier = true := by
      simp only [Token.isVariable, Bool.and_eq_true] at counts
      exact counts.1.1.1
    have here : (Context.ofTokens ts final limit).token before.length = name := token_of_split split
    have notEnd : ((Context.ofTokens ts final limit).token before.length).isEnd = false := by
      rw [here]
      exact Token.isEnd_of_isIdentifier identifier
    have more : before.length + 1 < (significant ts).length := (formed.token_at notEnd).2
    obtain ⟨next, rest, rfl⟩ : ∃ next rest, after = next :: rest := by
      refine List.exists_cons_of_ne_nil fun none => ?_
      rw [split, none, List.length_append, List.length_singleton] at more
      exact Nat.lt_irrefl _ more
    have place := accounts.collected.all before.length (w.reads_all formed atEnd tiling more)
      ((isVariable_of_split split).trans counts)
    have mem := recorded.mem_iff.mpr (List.mem_map_of_mem place)
    rw [Context.entry, here] at mem
    have nodup : (s.tree (Context.ofTokens ts final limit).sourceSize).recorded.Nodup :=
      (List.pairwise_map.mp apart).imp fun different same => different (congrArg _ same)
    rw [nodup.count, if_pos mem]

/-- A method, a property, and a label with a jump to it are passed over. What is recorded are two uses
of the parameter, and the declarations of the variable and of the parameter. -/
theorem ofTokens_accountsFor_method : ∃ ts t,
    tokenize "var o = \x7b m(a) \x7b l: while (a.m) break l; return a \x7d \x7d" none = .ok ts ∧
      Tree.ofTokens ts 9 = .ok t ∧ t.AccountsFor ts ∧
      t.recorded.map (·.1) = ["a", "a", "o", "a"] := by
  have made : (tokenize "var o = \x7b m(a) \x7b l: while (a.m) break l; return a \x7d \x7d"
      none).toOption.bind (fun ts => (Tree.ofTokens ts 9).toOption.map fun t =>
        t.recorded.map (·.1)) = some ["a", "a", "o", "a"] := by decide +kernel
  obtain ⟨ts, lexed, made⟩ := Option.bind_eq_some_iff.mp made
  obtain ⟨t, built, recorded⟩ := Option.map_eq_some_iff.mp made
  have lexed := ok_of_toOption lexed
  have built := ok_of_toOption built
  exact ⟨ts, t, lexed, built, ofTokens_accountsFor lexed built, recorded⟩

end Builder

end Scoping
