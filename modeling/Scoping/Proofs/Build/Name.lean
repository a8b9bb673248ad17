import Scoping.Proofs.Build.Range

/-!
# The names that are recorded

A use of a name is recorded in the scope where its token sits. A declaration lands (`Lands`) in that
scope too, or in the next one upwards that bounds a function; the name of a function expression lands
in the scope that begins right behind it. A name that is declared again in the same scope keeps its
binding, so the places of its earlier declarations land in the owner of the binding as well.
-/

namespace Scoping

/-- The names that a scope declares. -/
def declarationsIn (scopes : Array Scope) (i : ScopeId) : Declarations :=
  ((scopes[i]?).map (·.declarations)).getD #[]

theorem declarationsIn_of_getElem? {scopes : Array Scope} {i : Nat} {x : Scope}
    (h : scopes[i]? = some x) : declarationsIn scopes i = x.declarations := by
  rw [declarationsIn, h, Option.map_some, Option.getD_some]

theorem find?_declarationsIn (scopes : Array Scope) (i : ScopeId) (name : String) :
    (declarationsIn scopes i).find? name = (scopes[i]?).bind (·.find? name) := by
  unfold declarationsIn
  cases scopes[i]? <;> rfl

namespace Declarations

theorem find?_push (ds : Declarations) (name name' : String) (b : BindingId) :
    Declarations.find? (Array.push ds (name', b)) name =
      (ds.find? name).or (if name' = name then some b else none) := by
  rw [Declarations.find?, Array.find?_push, Declarations.find?, Option.map_or]
  by_cases same : name' = name <;> simp [same]

end Declarations

@[simp] theorem Binding.declarations_redeclare (b : Binding) (kind : BindingKind) (span : Span) :
    (b.redeclare kind span).declarations = b.declarations ++ [span] := by
  simp [Binding.declarations, Binding.redeclare]

namespace Builder

variable {c : Context} {s t : State}

/-! ## The table of names -/

/-- What a scope declares under a name is a binding of that name in that scope. -/
def Listed (s : State) : Prop :=
  ∀ (i : Nat) (name : String) (b : BindingId), (name, b) ∈ declarationsIn s.scopes i →
    ∃ x, s.bindings[b]? = some x ∧ x.name = name ∧ x.scope = i

theorem listed_start : Listed .start := by
  intro i name b mem
  cases at_i : State.start.scopes[i]? with
  | none =>
    rw [declarationsIn, at_i] at mem
    cases List.not_mem_nil mem.val
  | some x =>
    rw [declarationsIn_of_getElem? at_i, (start_scope at_i).2] at mem
    cases List.not_mem_nil mem.val

/-- The binding that a scope finds for a name is in its list. -/
theorem mem_of_find? {ds : Declarations} {name : String} {b : BindingId}
    (h : ds.find? name = some b) : (name, b) ∈ ds := by
  obtain ⟨d, found, rfl⟩ := Option.map_eq_some_iff.mp h
  have same : d.1 = name := by simpa using Array.find?_some found
  exact same ▸ Array.mem_of_find?_eq_some found

/-- A scope binds a name only to a binding of that name in that scope. -/
theorem Listed.boundIn {i : Nat} {name : String} {b : BindingId} (listed : Listed s)
    (h : boundIn s.scopes i name = some b) :
    ∃ x, s.bindings[b]? = some x ∧ x.name = name ∧ x.scope = i := by
  obtain ⟨x, at_i, found⟩ := Option.bind_eq_some_iff.mp h
  refine listed i name b ?_
  rw [declarationsIn_of_getElem? at_i]
  exact mem_of_find? found

section
variable {kind : ScopeKind} {label : String} {start : Nat} {opener : Opener} {i : Nat}

/-- A new scope declares nothing. -/
theorem declarationsIn_push :
    declarationsIn (s.pushScope kind label start opener).scopes i = declarationsIn s.scopes i := by
  cases at_i : (s.pushScope kind label start opener).scopes[i]? with
  | none =>
    have outside := Array.getElem?_eq_none_iff.mp at_i
    rw [State.pushScope_size] at outside
    rw [declarationsIn, at_i, declarationsIn, Array.getElem?_eq_none (Nat.le_of_succ_le outside)]
  | some x =>
    rw [declarationsIn_of_getElem? at_i]
    rcases State.pushScope_cases _ _ _ _ _ at_i with ⟨rfl, rfl⟩ | ⟨_, y, at_y, rfl⟩
    · rw [declarationsIn, Array.getElem?_eq_none (Nat.le_refl _)]
      rfl
    · rw [declarationsIn_of_getElem? at_y]
      split <;> rfl

theorem declarationsIn_pop {id : ScopeId} {stop : Nat} :
    declarationsIn (s.popScope id stop).scopes i = declarationsIn s.scopes i := by
  unfold declarationsIn
  rw [State.popScope_scope, Option.map_map]
  cases s.scopes[i]? with
  | none => rfl
  | some x =>
    rw [Option.map_some, Option.map_some, Function.comp_apply]
    split <;> rfl

end

/-- What a declaration makes of the bindings: all stay as they are but the one that the scope has
for the name, or one is added. -/
theorem declare_binding_cases {name : Token} {kind : BindingKind} {b : Nat} {x : Binding}
    (listed : Listed s) (h : (s.declare name kind).bindings[b]? = some x) :
    s.bindings[b]? = some x ∨
      (b = s.bindings.size ∧ x = ⟨b, name.lexeme, kind, name.span, #[], s.target kind⟩) ∨
      ∃ y, s.bindings[b]? = some y ∧ y.name = name.lexeme ∧ y.scope = s.target kind ∧
        x = y.redeclare kind name.span := by
  rcases s.declare_cases name kind with ⟨known, found, e⟩ | ⟨_, e⟩
  · rw [e] at h
    simp only [Array.getElem?_modify] at h
    split at h
    · next same =>
      subst same
      obtain ⟨y, at_b, same⟩ := Option.map_eq_some_iff.mp h
      obtain ⟨z, at_b', spelled, owner⟩ := listed.boundIn found
      rw [at_b] at at_b'
      cases at_b'
      exact .inr (.inr ⟨y, at_b, spelled, owner, same.symm⟩)
    · exact .inl h
  · rw [e] at h
    simp only [Array.getElem?_push] at h
    split at h
    · next same => exact .inr (.inl ⟨same, same ▸ (Option.some.inj h).symm⟩)
    · exact .inl h

/-- A declaration adds its name to the scope where it lands, and to no other. -/
theorem mem_declarationsIn_declare {name : Token} {kind : BindingKind} {i : Nat} {text : String}
    {b : BindingId} (h : (text, b) ∈ declarationsIn (s.declare name kind).scopes i) :
    (text, b) ∈ declarationsIn s.scopes i ∨
      text = name.lexeme ∧ b = s.bindings.size ∧ i = s.target kind ∧
        (s.declare name kind).bindings[b]? =
          some ⟨b, name.lexeme, kind, name.span, #[], s.target kind⟩ := by
  rcases s.declare_cases name kind with ⟨known, found, e⟩ | ⟨_, e⟩
  · rw [e] at h
    exact .inl h
  · rw [e] at h ⊢
    unfold declarationsIn at h ⊢
    simp only [Array.getElem?_modify] at h
    cases at_i : s.scopes[i]? with
    | none =>
      rw [at_i, Option.map_none, ite_self] at h
      exact .inl h
    | some x =>
      rw [at_i] at h
      split at h
      · next same =>
        rw [Option.map_some, Option.map_some, Option.getD_some, Array.mem_push] at h
        rcases h with old | new
        · exact .inl old
        · cases new
          exact .inr ⟨rfl, rfl, same.symm, by simp⟩
      · exact .inl h

section
variable (name : Token) (kind : BindingKind)

/-- A name that is declared again in its scope keeps its binding. -/
theorem declare_again {known : BindingId}
    (old : (declarationsIn s.scopes (s.target kind)).find? name.lexeme = some known) :
    s.declare name kind =
      { s with bindings := s.bindings.modify known (·.redeclare kind name.span) } := by
  rw [find?_declarationsIn] at old
  rcases s.declare_cases name kind with ⟨known', old', e⟩ | ⟨new, _⟩
  · rw [old] at old'
    rw [e, Option.some.inj old']
  · rw [old] at new
    cases new

/-- A name that is new to its scope gets a binding. -/
theorem declare_new (new : (declarationsIn s.scopes (s.target kind)).find? name.lexeme = none) :
    (s.declare name kind).bindings = s.bindings.push
      ⟨s.bindings.size, name.lexeme, kind, name.span, #[], s.target kind⟩ ∧
    ∀ i : Nat, declarationsIn (s.declare name kind).scopes i =
      if s.target kind = i ∧ i < s.scopes.size then
        (declarationsIn s.scopes i).push (name.lexeme, s.bindings.size)
      else declarationsIn s.scopes i := by
  rw [find?_declarationsIn] at new
  rcases s.declare_cases name kind with ⟨known, old, _⟩ | ⟨_, e⟩
  · rw [new] at old
    cases old
  · rw [e]
    refine ⟨rfl, fun i => ?_⟩
    unfold declarationsIn
    simp only [Array.getElem?_modify]
    by_cases inside : i < s.scopes.size
    · simp only [inside, and_true]
      split <;> simp [inside]
    · simp [inside]

/-- A new name is bound where its declaration lands, and nowhere else. -/
theorem find?_declare_new
    (new : (declarationsIn s.scopes (s.target kind)).find? name.lexeme = none) (i : Nat)
    (text : String) :
    (declarationsIn (s.declare name kind).scopes i).find? text =
      ((declarationsIn s.scopes i).find? text).or
        (if s.target kind = i ∧ i < s.scopes.size ∧ name.lexeme = text then some s.bindings.size
        else none) := by
  rw [(declare_new name kind new).2]
  by_cases here : s.target kind = i ∧ i < s.scopes.size
  · rw [if_pos here, Declarations.find?_push]
    simp [here]
  · rw [if_neg here, if_neg fun all => here ⟨all.1, all.2.1⟩, Option.or_none]

end

theorem Listed.declare (listed : Listed s) (name : Token) (kind : BindingKind) :
    Listed (s.declare name kind) := by
  intro i text b mem
  rcases mem_declarationsIn_declare mem with old | ⟨rfl, _, rfl, new⟩
  · obtain ⟨x, at_b, spelled, owner⟩ := listed i text b old
    obtain ⟨y, at_b, keeps⟩ := (State.Grows.declare s name kind).binding b x at_b
    exact ⟨y, at_b, keeps.name.trans spelled, keeps.scope.trans owner⟩
  · exact ⟨_, new, rfl, rfl⟩

theorem Listed.of_eq (listed : Listed s) (bindings : t.bindings = s.bindings)
    (declarations : ∀ i, declarationsIn t.scopes i = declarationsIn s.scopes i) : Listed t := by
  intro i name b mem
  rw [declarations] at mem
  rw [bindings]
  exact listed i name b mem

/-! ## Where declarations land -/

/-- A scope that declarations reach from inside is still reached when more is built. -/
theorem hoistsTo_grows {i j : Nat} (h : HoistsTo s.scopes i j) (grows : s.Grows t) :
    HoistsTo t.scopes i j := by
  induction h with
  | here at_i bounds =>
    obtain ⟨y, at_i', keeps⟩ := grows.scope _ _ at_i
    exact .here at_i' (keeps.kind ▸ bounds)
  | out at_i bounds parent _ ih =>
    obtain ⟨y, at_i', keeps⟩ := grows.scope _ _ at_i
    exact .out at_i' (keeps.kind ▸ bounds) (keeps.parent.trans parent) ih

/-- A declaration that leaves blocks ends up in the next scope that bounds a function. -/
theorem Shaped.target_hoistsTo {kind : BindingKind} (shaped : Shaped c s)
    (hoists : kind.hoists = true) : HoistsTo s.scopes s.currentScope (s.target kind) := by
  obtain ⟨f, rest, top⟩ := shaped.exists_cons
  have way := shaped.way
  rw [top, List.map_cons] at way
  unfold State.target
  rw [if_pos hoists]
  cases found : s.frames.find? fun f => (s.scopes[f.scope]?).any (·.kind.boundsFunction) with
  | some g =>
    refine Shaped.currentScope_eq top ▸ way.hoistsTo ?_
    rw [← List.map_cons (f := fun f : Frame => f.scope), ← top, List.find?_map]
    exact congrArg (Option.map _) found
  | none =>
    -- The way up ends in the global scope, which bounds everything.
    have root := shaped.open_iff.mpr (shaped.rooted.encloses shaped.currentScope_lt)
    obtain ⟨g, mem, isRoot⟩ := root
    obtain ⟨x, at_root, isGlobal, _⟩ := shaped.rooted.root
    have bounds := List.find?_eq_none.mp found g mem
    rw [isRoot, at_root, Option.any_some, isGlobal] at bounds
    exact absurd rfl bounds

theorem target_of_not_hoists {kind : BindingKind} (stays : kind.hoists = false) :
    s.target kind = s.currentScope := by
  rw [State.target, stays]
  rfl

/-- Where a declaration of some kind lands whose name is the token at `n`. -/
inductive Lands (c : Context) (s : State) (n : Nat) : BindingKind → ScopeId → Prop
  | here {kind : BindingKind} {i : Nat} : kind.hoists = false → Sits c s n i → Lands c s n kind i
  | hoisted {kind : BindingKind} {i j : Nat} : kind.hoists = true → Sits c s n i →
    HoistsTo s.scopes i j → Lands c s n kind j
  | inner {i : Nat} {x : Scope} : n + 1 < c.tokens.size → s.scopes[i]? = some x →
    x.kind = .function → x.range.start = (c.token (n + 1)).span.start → Lands c s n .function i

/-- A name is declared at a span with some kind, and lands in a scope. -/
def Declared (c : Context) (s : State) (name : String) (span : Span) (kind : BindingKind)
    (owner : ScopeId) : Prop :=
  ∃ n, (c.token n).lexeme = name ∧ (c.token n).span = span ∧ Lands c s n kind owner

/-- A use of a name is recorded where its token sits. -/
def Used (c : Context) (s : State) (r : Reference) : Prop :=
  ∃ n, (c.token n).lexeme = r.name ∧ (c.token n).span = r.span ∧ Sits c s n r.scope

/-- Every name is recorded where it belongs. -/
structure Named (c : Context) (s : State) : Prop where
  listed : Listed s
  latest : ∀ (b : Nat) (x : Binding), s.bindings[b]? = some x →
    Declared c s x.name x.declaredAt x.kind x.scope
  earlier : ∀ (b : Nat) (x : Binding), s.bindings[b]? = some x → ∀ e ∈ x.earlier,
    ∃ kind, Declared c s x.name e kind x.scope
  uses : ∀ r ∈ s.references, Used c s r

theorem named_start : Named c .start where
  listed := listed_start
  latest _ _ h := nomatch h
  earlier _ _ h := nomatch h
  uses _ h := nomatch h

section
variable (spaced : c.Spaced) (formed : c.Formed) (shaped : Shaped c s) (ranged : Ranged c s)
include spaced formed shaped ranged

theorem Lands.move {n : Nat} {kind : BindingKind} {i : ScopeId} (lands : Lands c s n kind i)
    (move : Move c s t) : Lands c t n kind i := by
  cases lands with
  | here stays sits => exact .here stays (sits.move spaced formed move shaped ranged)
  | hoisted hoists sits reaches =>
    exact .hoisted hoists (sits.move spaced formed move shaped ranged)
      (hoistsTo_grows reaches move.grows)
  | inner before at_i function starts =>
    obtain ⟨y, at_i', keeps⟩ := move.grows.scope _ _ at_i
    exact .inner before at_i' (keeps.kind.trans function) (keeps.start.trans starts)

theorem Declared.move {name : String} {span : Span} {kind : BindingKind} {owner : ScopeId}
    (declared : Declared c s name span kind owner) (move : Move c s t) :
    Declared c t name span kind owner := by
  obtain ⟨n, spelled, stands, lands⟩ := declared
  exact ⟨n, spelled, stands, lands.move spaced formed shaped ranged move⟩

theorem Used.move {r : Reference} (used : Used c s r) (move : Move c s t) : Used c t r := by
  obtain ⟨n, spelled, stands, sits⟩ := used
  exact ⟨n, spelled, stands, sits.move spaced formed move shaped ranged⟩

/-- A declaration whose name has just been read lands where the name sits, or further out. -/
theorem lands_declare {kind : BindingKind} (notEnd : (c.token s.pos).isEnd = false) :
    Lands c ((c.behind s).declare (c.token s.pos) kind) s.pos kind ((c.behind s).target kind) := by
  have sits : Sits c ((c.behind s).declare (c.token s.pos) kind) s.pos s.currentScope :=
    (sits_behind spaced formed shaped ranged notEnd).still (still_declare _ _ _)
  have shaped' : Shaped c (c.behind s) := shaped.move (.ahead notEnd)
  cases hoists : kind.hoists with
  | false =>
    rw [target_of_not_hoists hoists]
    exact .here hoists sits
  | true =>
    exact .hoisted hoists sits
      (hoistsTo_grows (shaped'.target_hoistsTo hoists) (.declare _ _ _))

end

/-- A declaration that lands keeps every name where it belongs. -/
theorem Named.declare {r : State} {name : Token} {kind : BindingKind} {n : Nat}
    (listed : Listed r) (token : c.token n = name)
    (lands : Lands c (r.declare name kind) n kind (r.target kind))
    (latest : ∀ (b : Nat) (x : Binding), r.bindings[b]? = some x →
      Declared c (r.declare name kind) x.name x.declaredAt x.kind x.scope)
    (earlier : ∀ (b : Nat) (x : Binding), r.bindings[b]? = some x → ∀ e ∈ x.earlier,
      ∃ kind', Declared c (r.declare name kind) x.name e kind' x.scope)
    (uses : ∀ u ∈ r.references, Used c (r.declare name kind) u) :
    Named c (r.declare name kind) where
  listed := listed.declare name kind
  latest b x at_b := by
    rcases declare_binding_cases listed at_b with old | ⟨_, rfl⟩ | ⟨y, _, spelled, owner, rfl⟩
    · exact latest b x old
    · exact ⟨n, by rw [token], by rw [token], lands⟩
    · exact ⟨n, by rw [token]; exact spelled.symm, by rw [token]; rfl, owner ▸ lands⟩
  earlier b x at_b e mem := by
    rcases declare_binding_cases listed at_b with old | ⟨_, rfl⟩ | ⟨y, at_y, _, _, rfl⟩
    · exact earlier b x old e mem
    · cases List.not_mem_nil mem.val
    · rcases Array.mem_push.mp mem with old | rfl
      · exact earlier b y at_y e old
      · exact ⟨y.kind, latest b y at_y⟩
  uses u mem := uses u (by rw [State.declare_references] at mem; exact mem)

/-- In a function that has just begun, its own name lands there. -/
theorem target_push_function {label : String} {start : Nat} {opener : Opener} :
    (s.pushScope .function label start opener).target .function = s.scopes.size := by
  unfold State.target
  rw [if_pos (by decide), State.pushScope_frames, List.find?_cons, State.pushScope_scope_new]
  rfl

/-- The name of a function expression lands in the scope behind it. -/
theorem lands_own {label : String} {opener : Opener} (formed : c.Formed)
    (notEnd : (c.token s.pos).isEnd = false) : Lands c (((c.behind s).deepen.pushScope .function label
      (c.token (c.behind s).pos).span.start opener).declare (c.token s.pos) .function) s.pos
      .function s.scopes.size := by
  have new := (c.behind s).deepen.pushScope_scope_new .function label
    (c.token (c.behind s).pos).span.start opener
  obtain ⟨y, at_new, keeps⟩ := (State.Grows.declare _ (c.token s.pos) .function).scope _ _ new
  refine .inner (formed.token_at notEnd).2 at_new keeps.kind (keeps.start.trans ?_)
  rw [behind_pos notEnd]
  rfl

/-- Every move records names where they belong. -/
theorem Named.move (spaced : c.Spaced) (formed : c.Formed) (move : Move c s t)
    (shaped : Shaped c s) (ranged : Ranged c s) (named : Named c s) : Named c t := by
  have latest (b : Nat) (x : Binding) (h : s.bindings[b]? = some x) :=
    (named.latest b x h).move spaced formed shaped ranged move
  have earlier (b : Nat) (x : Binding) (h : s.bindings[b]? = some x) (e : Span)
      (mem : e ∈ x.earlier) : ∃ kind, Declared c t x.name e kind x.scope := by
    obtain ⟨kind, declared⟩ := named.earlier b x h e mem
    exact ⟨kind, declared.move spaced formed shaped ranged move⟩
  have uses (r : Reference) (mem : r ∈ s.references) :=
    (named.uses r mem).move spaced formed shaped ranged move
  have unchanged (bindings : t.bindings = s.bindings) (references : t.references = s.references)
      (declarations : ∀ i, declarationsIn t.scopes i = declarationsIn s.scopes i) : Named c t :=
    { listed := named.listed.of_eq bindings declarations
      latest := fun b x h => latest b x (bindings ▸ h)
      earlier := fun b x h => earlier b x (bindings ▸ h)
      uses := fun r mem => uses r (references ▸ mem) }
  cases move with
  | level n => exact unchanged rfl rfl fun _ => rfl
  | ahead _ => exact unchanged rfl rfl fun _ => rfl
  | use name =>
    have notEnd := Token.isEnd_of_isIdentifier name
    refine ⟨named.listed, latest, earlier, fun r mem => ?_⟩
    rcases Array.mem_push.mp mem with old | rfl
    · exact uses r old
    · exact ⟨s.pos, rfl, rfl,
        (sits_behind spaced formed shaped ranged notEnd).still (still_refer _ _)⟩
  | name name _ =>
    have notEnd := Token.isEnd_of_isIdentifier name
    exact .declare (r := c.behind s) named.listed rfl
      (lands_declare spaced formed shaped ranged notEnd) latest earlier uses
  | enter _ opening =>
    cases opening with
    | plain _ => exact unchanged rfl rfl fun _ => declarationsIn_push (s := s.deepen)
    | named name _ =>
      have notEnd := Token.isEnd_of_isIdentifier name
      refine .declare (named.listed.of_eq rfl fun _ => declarationsIn_push) rfl ?_ latest earlier
        uses
      rw [target_push_function]
      exact lands_own formed notEnd
  | reopen opener =>
    exact unchanged (by simp) (by simp) fun _ => by rw [State.reopen_scopes]
  | leave _ _ _ _ => exact unchanged rfl rfl fun _ => declarationsIn_pop

/-- Whatever is read, its names are recorded where they belong. -/
theorem Walk.named (w : Walk c .start s) (formed : c.Formed) (spaced : c.Spaced) : Named c s := by
  have all : Shaped c s ∧ Ranged c s ∧ Named c s := by
    refine w.keeps (I := fun s => Shaped c s ∧ Ranged c s ∧ Named c s)
      (fun s t move ⟨shaped, ranged, named⟩ => ?_) start_leveled
      ⟨shaped_start, ranged_start formed, named_start⟩
    exact ⟨shaped.move move, ranged.move spaced formed move shaped,
      named.move spaced formed move shaped ranged⟩
  exact all.2.2

end Builder

end Scoping
