import Scoping.Proofs.Build.Finish
import Scoping.Proofs.Tree.Chain

/-!
# The table of bindings

The names that scopes declare and the bindings of a tree are one table, read from two sides
(`Tree.Tabled`): a scope leads from a name to a binding, and the binding names that scope and that
name. A declaration either adds a row or writes over the kind and the place of one that is there; the
scope where it lands is found from the kind that it writes, so a binding of a kind that belongs to a
function is never left in a block, however often its name is declared again.

A row keeps the places of all its declarations (`Rows`), and as each is the token that the cursor has
just passed, they stand in the order of the source.
-/

namespace Scoping

/-- The bindings of the tree and the names that its scopes declare say the same of each other. -/
structure Tree.Tabled (t : Tree) : Prop where
  id : ∀ (b : Nat) (x : Binding), t.bindings[b]? = some x → x.id = b
  declared : ∀ s ∈ t.scopes, ∀ (name : String) (b : BindingId), s.find? name = some b →
    ∃ x, t.bindings[b]? = some x ∧ x.name = name ∧ x.scope = s.id
  found : ∀ x ∈ t.bindings, ∃ s, t.scopes[x.scope]? = some s ∧ s.find? x.name = some x.id
  /-- No two bindings have one name in one scope. -/
  unique : ∀ x ∈ t.bindings, ∀ y ∈ t.bindings, x.scope = y.scope → x.name = y.name → x = y
  /-- No scope lists a name twice. -/
  names : ∀ s ∈ t.scopes, (s.declarations.toList.map (·.1)).Nodup
  ordered : ∀ s ∈ t.scopes, s.declarations.ids.Pairwise (· < ·)
  homes : ∀ x ∈ t.bindings, x.kind = .var ∨ x.kind = .function ∨ x.kind = .param →
    ∃ s, t.scopes[x.scope]? = some s ∧ (s.kind = .function ∨ s.kind = .global)

theorem ScopeKind.boundsFunction_iff {kind : ScopeKind} :
    kind.boundsFunction = true ↔ kind = .function ∨ kind = .global := by
  cases kind <;> decide

namespace Declarations

variable {ds : Declarations} {name : String} {b : BindingId}

theorem find?_eq_none_iff : ds.find? name = none ↔ name ∉ ds.toList.map (·.1) := by
  rw [Declarations.find?, Option.map_eq_none_iff, Array.find?_eq_none, List.mem_map]
  constructor
  · rintro none ⟨d, mem, rfl⟩
    exact none d (Array.mem_toList_iff.mp mem) (beq_self_eq_true d.1)
  · intro none d mem same
    exact none ⟨d, Array.mem_toList_iff.mpr mem, eq_of_beq same⟩

@[simp] theorem ids_push : Declarations.ids (Array.push ds (name, b)) = ds.ids ++ [b] := by
  simp [ids]

theorem exists_mem_of_mem_ids (h : b ∈ ds.ids) : ∃ name, (name, b) ∈ ds := by
  obtain ⟨d, mem, rfl⟩ := List.mem_map.mp h
  exact ⟨d.1, Array.mem_toList_iff.mp mem⟩

end Declarations

namespace Builder

variable {c : Context} {s t : State}

/-! ## Rows -/

/-- The names that scopes declare and the bindings, as far as they are known. -/
structure Rows (s : State) : Prop where
  listed : Listed s
  id : ∀ (b : Nat) (x : Binding), s.bindings[b]? = some x → x.id = b
  found : ∀ (b : Nat) (x : Binding), s.bindings[b]? = some x →
    (declarationsIn s.scopes x.scope).find? x.name = some b
  names : ∀ i, ((declarationsIn s.scopes i).toList.map (·.1)).Nodup
  ordered : ∀ i, (declarationsIn s.scopes i).ids.Pairwise (· < ·)
  homes : ∀ (b : Nat) (x : Binding), s.bindings[b]? = some x →
    x.kind.hoists = true ∨ x.kind = .param →
      ∃ y, s.scopes[x.scope]? = some y ∧ y.kind.boundsFunction = true

theorem rows_start : Rows .start := by
  have nothing (i : Nat) : declarationsIn State.start.scopes i = #[] := by
    cases i <;> rfl
  constructor
  case listed => exact listed_start
  case id => intro b x at_b; cases at_b
  case found => intro b x at_b; cases at_b
  case names => intro i; rw [nothing]; exact List.nodup_nil
  case ordered => intro i; rw [nothing]; exact List.Pairwise.nil
  case homes => intro b x at_b; cases at_b

namespace Rows

/-- What leaves declarations and bindings alone leaves the rows. -/
theorem still (rows : Rows s) (grows : s.Grows t) (bindings : t.bindings = s.bindings)
    (declarations : ∀ i, declarationsIn t.scopes i = declarationsIn s.scopes i) : Rows t := by
  constructor
  case listed => exact rows.listed.of_eq bindings declarations
  case id => rw [bindings]; exact rows.id
  case found =>
    intro b x at_b
    rw [bindings] at at_b
    rw [declarations]
    exact rows.found b x at_b
  case names => intro i; rw [declarations]; exact rows.names i
  case ordered => intro i; rw [declarations]; exact rows.ordered i
  case homes =>
    intro b x at_b kind
    rw [bindings] at at_b
    obtain ⟨y, at_home, bounds⟩ := rows.homes b x at_b kind
    obtain ⟨z, at_home', keeps⟩ := grows.scope _ _ at_home
    exact ⟨z, at_home', keeps.kind ▸ bounds⟩

/-- A binding that a scope lists exists already. -/
theorem lt_size_of_mem_ids (rows : Rows s) {i : Nat} {b : BindingId}
    (h : b ∈ (declarationsIn s.scopes i).ids) : b < s.bindings.size := by
  obtain ⟨name, mem⟩ := Declarations.exists_mem_of_mem_ids h
  obtain ⟨x, at_b, _⟩ := rows.listed i name b mem
  exact (Array.getElem?_eq_some_iff.mp at_b).1

/-- A declaration lands in a scope that exists. -/
theorem target_lt (shaped : Shaped c s) (kind : BindingKind) :
    s.target kind < s.scopes.size := by
  cases hoists : kind.hoists with
  | true =>
    obtain ⟨y, at_target, _⟩ := (shaped.target_hoistsTo hoists).bounds
    exact (Array.getElem?_eq_some_iff.mp at_target).1
  | false =>
    rw [target_of_not_hoists hoists]
    exact shaped.currentScope_lt

/-- A declaration whose kind belongs to a function lands in one, or in the global scope. -/
theorem target_bounds {kind : BindingKind} (shaped : Shaped c s)
    (inFunction : kind = .param → InFunction s) (belongs : kind.hoists = true ∨ kind = .param) :
    ∃ y, s.scopes[s.target kind]? = some y ∧ y.kind.boundsFunction = true := by
  rcases belongs with hoists | rfl
  · exact (shaped.target_hoistsTo hoists).bounds
  · obtain ⟨y, at_top, function⟩ := inFunction rfl
    rw [target_of_not_hoists rfl]
    exact ⟨y, at_top, by rw [function]; rfl⟩

section
variable (rows : Rows s) (shaped : Shaped c s) (name : Token) {kind : BindingKind}
  (inFunction : kind = .param → InFunction s)
include rows shaped inFunction

/-- A name that is declared again keeps its row, with another kind. -/
theorem redeclare {known : BindingId}
    (old : (declarationsIn s.scopes (s.target kind)).find? name.lexeme = some known) :
    Rows (s.declare name kind) := by
  obtain ⟨x, at_known, spelled, owner⟩ := rows.listed _ _ _ (mem_of_find? old)
  rw [declare_again name kind old]
  -- Where a binding stood before, one of the same name and scope stands now.
  have before {b : Nat} {y : Binding} (at_b : (s.bindings.modify known
      (·.redeclare kind name.span))[b]? = some y) : s.bindings[b]? = some y ∨
        b = known ∧ y = x.redeclare kind name.span := by
    rw [Array.getElem?_modify] at at_b
    split at at_b
    · next same =>
      subst same
      rw [at_known] at at_b
      exact .inr ⟨rfl, (Option.some.inj at_b).symm⟩
    · exact .inl at_b
  constructor
  case listed =>
    have kept := rows.listed.declare name kind
    rw [declare_again name kind old] at kept
    exact kept
  case id =>
    intro b y at_b
    rcases before at_b with at_b | ⟨rfl, rfl⟩
    · exact rows.id b y at_b
    · exact rows.id b x at_known
  case found =>
    intro b y at_b
    rcases before at_b with at_b | ⟨rfl, rfl⟩
    · exact rows.found b y at_b
    · exact rows.found b x at_known
  case names => exact rows.names
  case ordered => exact rows.ordered
  case homes =>
    intro b y at_b belongs
    rcases before at_b with at_b | ⟨rfl, rfl⟩
    · exact rows.homes b y at_b belongs
    · show ∃ z, s.scopes[x.scope]? = some z ∧ _
      rw [owner]
      exact target_bounds shaped inFunction belongs

/-- A new name gets a row of its own, behind all others. -/
theorem insert (new : (declarationsIn s.scopes (s.target kind)).find? name.lexeme = none) :
    Rows (s.declare name kind) := by
  obtain ⟨bindings, declarations⟩ := declare_new name kind new
  have inside : s.target kind < s.scopes.size := target_lt shaped kind
  have after {b : Nat} {y : Binding} (at_b : (s.declare name kind).bindings[b]? = some y) :
      s.bindings[b]? = some y ∨
        b = s.bindings.size ∧ y = ⟨b, name.lexeme, kind, name.span, #[], s.target kind⟩ := by
    rw [bindings, Array.getElem?_push] at at_b
    split at at_b
    · next same => exact .inr ⟨same, same ▸ (Option.some.inj at_b).symm⟩
    · exact .inl at_b
  constructor
  case listed => exact rows.listed.declare name kind
  case id =>
    intro b y at_b
    rcases after at_b with at_b | ⟨_, rfl⟩
    · exact rows.id b y at_b
    · rfl
  case found =>
    intro b y at_b
    rw [find?_declare_new name kind new]
    rcases after at_b with at_b | ⟨same, rfl⟩
    · rw [rows.found b y at_b, Option.some_or]
    · show ((declarationsIn s.scopes (s.target kind)).find? name.lexeme).or _ = _
      rw [new, Option.none_or, if_pos ⟨rfl, inside, rfl⟩, same]
  case names =>
    intro i
    rw [declarations]
    split
    · next here =>
      rw [← here.1, Array.toList_push, List.map_append, List.map_singleton]
      apply (List.perm_append_singleton _ _).nodup_iff.mpr
      exact List.nodup_cons.mpr ⟨Declarations.find?_eq_none_iff.mp new, rows.names _⟩
    · exact rows.names i
  case ordered =>
    intro i
    rw [declarations]
    split
    · rw [Declarations.ids_push]
      apply List.pairwise_append.mpr
      refine ⟨rows.ordered i, List.pairwise_singleton _ _, ?_⟩
      intro b mem last isLast
      rw [List.mem_singleton.mp isLast]
      exact rows.lt_size_of_mem_ids mem
    · exact rows.ordered i
  case homes =>
    intro b y at_b belongs
    have grows := State.Grows.declare s name kind
    have home : ∃ z, s.scopes[y.scope]? = some z ∧ z.kind.boundsFunction = true := by
      rcases after at_b with at_b | ⟨_, rfl⟩
      · exact rows.homes b y at_b belongs
      · exact target_bounds shaped inFunction belongs
    obtain ⟨z, at_home, bounds⟩ := home
    obtain ⟨z', at_home', keeps⟩ := grows.scope _ _ at_home
    exact ⟨z', at_home', keeps.kind ▸ bounds⟩

theorem declare : Rows (s.declare name kind) := by
  cases known : (declarationsIn s.scopes (s.target kind)).find? name.lexeme with
  | some b => exact rows.redeclare shaped name inFunction known
  | none => exact rows.insert shaped name inFunction known

end

/-- Every move keeps the rows. -/
theorem move (rows : Rows s) (shaped : Shaped c s) (move : Move c s t) : Rows t := by
  have grows := move.grows
  cases move with
  | level n => exact rows.still grows rfl fun _ => rfl
  | ahead _ => exact rows.still grows rfl fun _ => rfl
  | use _ => exact rows.still grows rfl fun _ => rfl
  | name _ declares =>
    have behind : Rows (c.behind s) := rows.still (.consume s _) rfl fun _ => rfl
    have shaped : Shaped c (c.behind s) := shaped.of_eq rfl rfl
    apply behind.declare shaped
    rintro rfl
    exact declares
  | enter few opening =>
    cases opening with
    | plain _ => exact rows.still grows rfl fun _ => declarationsIn_push (s := s.deepen)
    | named _ _ =>
      have moved : s.Grows (c.behind s).deepen := (State.Grows.consume s _).trans (.deepen _)
      have begun := moved.trans (.push _ .function (c.token s.pos).lexeme
        (c.token (c.behind s).pos).span.start .header)
      have deeper : Shaped c (c.behind s).deepen := shaped.of_eq rfl rfl
      apply (rows.still begun rfl fun _ => declarationsIn_push).declare
        (deeper.push (by decide) few)
      intro param
      cases param
  | reopen opener =>
    exact rows.still grows (by simp) fun _ => by rw [State.reopen_scopes]
  | leave _ _ _ _ => exact rows.still grows rfl fun _ => declarationsIn_pop

end Rows

/-! ## Places -/

/-- Each binding is declared at tokens that the cursor has passed, and lists them in their order. -/
def InOrder (c : Context) (s : State) : Prop :=
  ∀ (b : Nat) (x : Binding), s.bindings[b]? = some x → ∃ places : List Nat,
    x.declarations = places.map (fun n => (c.token n).span) ∧ places.Pairwise (· < ·) ∧
      ∀ n ∈ places, n < s.pos ∧ (c.token n).isEnd = false

theorem inOrder_start : InOrder c .start := by
  intro b x at_b
  cases at_b

namespace InOrder

theorem still (inOrder : InOrder c s) (bindings : t.bindings = s.bindings) (pos : s.pos ≤ t.pos) :
    InOrder c t := by
  intro b x at_b
  rw [bindings] at at_b
  obtain ⟨places, spans, ascending, passed⟩ := inOrder b x at_b
  refine ⟨places, spans, ascending, ?_⟩
  intro n mem
  exact ⟨Nat.lt_of_lt_of_le (passed n mem).1 pos, (passed n mem).2⟩

/-- The token that has just been passed comes behind all that were declared before. -/
theorem declare {r : State} {kind : BindingKind} (inOrder : InOrder c s) (listed : Listed r)
    (bindings : r.bindings = s.bindings) (pos : r.pos = s.pos + 1)
    (notEnd : (c.token s.pos).isEnd = false) : InOrder c (r.declare (c.token s.pos) kind) := by
  have before : InOrder c r := inOrder.still bindings (by rw [pos]; exact Nat.le_succ _)
  intro b x at_b
  rw [State.declare_pos]
  rcases declare_binding_cases listed at_b with old | ⟨_, rfl⟩ | ⟨y, at_y, _, _, rfl⟩
  · exact before b x old
  · refine ⟨[s.pos], rfl, List.pairwise_singleton _ _, ?_⟩
    intro n mem
    rw [List.mem_singleton.mp mem, pos]
    exact ⟨Nat.lt_succ_self _, notEnd⟩
  · rw [bindings] at at_y
    obtain ⟨places, spans, ascending, passed⟩ := inOrder b y at_y
    refine ⟨places ++ [s.pos], ?_, ?_, ?_⟩
    · rw [Binding.declarations_redeclare, spans, List.map_append, List.map_singleton]
    · apply List.pairwise_append.mpr
      refine ⟨ascending, List.pairwise_singleton _ _, ?_⟩
      intro n mem last isLast
      rw [List.mem_singleton.mp isLast]
      exact (passed n mem).1
    · intro n mem
      rw [pos]
      rcases List.mem_append.mp mem with mem | last
      · exact ⟨Nat.lt_succ_of_lt (passed n mem).1, (passed n mem).2⟩
      · rw [List.mem_singleton.mp last]
        exact ⟨Nat.lt_succ_self _, notEnd⟩

/-- Every move declares in the order of the tokens. -/
theorem move (inOrder : InOrder c s) (rows : Rows s) (move : Move c s t) : InOrder c t := by
  cases move with
  | level n => exact inOrder.still rfl (Nat.le_refl _)
  | ahead notEnd =>
    apply inOrder.still (t := c.behind s) rfl
    rw [behind_pos notEnd]
    exact Nat.le_succ _
  | use name =>
    apply inOrder.still (t := (c.behind s).refer _) rfl
    rw [State.refer_pos, behind_pos (Token.isEnd_of_isIdentifier name)]
    exact Nat.le_succ _
  | name name _ =>
    have notEnd := Token.isEnd_of_isIdentifier name
    exact inOrder.declare (r := c.behind s) rows.listed rfl (behind_pos notEnd) notEnd
  | enter _ opening =>
    cases opening with
    | plain _ => exact inOrder.still rfl (Nat.le_refl _)
    | named name _ =>
      have notEnd := Token.isEnd_of_isIdentifier name
      exact inOrder.declare (rows.listed.of_eq rfl fun _ => declarationsIn_push) rfl
        (behind_pos notEnd) notEnd
  | reopen opener => exact inOrder.still (by simp) (by simp)
  | leave _ _ _ _ => exact inOrder.still rfl (Nat.le_refl _)

end InOrder

/-- Whatever is read, the bindings and the names that scopes declare make one table, with the places
of each row in order. -/
theorem Walk.table (w : Walk c .start s) : Rows s ∧ InOrder c s := by
  have all : Shaped c s ∧ Rows s ∧ InOrder c s := by
    apply w.keeps (I := fun s => Shaped c s ∧ Rows s ∧ InOrder c s) _ start_leveled
      ⟨shaped_start, rows_start, inOrder_start⟩
    intro s t move ⟨shaped, rows, inOrder⟩
    exact ⟨shaped.move move, rows.move shaped move, inOrder.move rows move⟩
  exact all.2

/-! ## The finished table -/

/-- Only the range of the global scope is set at the end. -/
theorem scope_of_tree {size i : Nat} {x : Scope} (at_i : (s.tree size).scopes[i]? = some x) :
    ∃ y, s.scopes[i]? = some y ∧ x.id = y.id ∧ x.kind = y.kind ∧ x.declarations = y.declarations := by
  simp only [State.tree, Array.getElem?_modify] at at_i
  split at at_i
  · obtain ⟨y, at_y, rfl⟩ := Option.map_eq_some_iff.mp at_i
    exact ⟨y, at_y, rfl, rfl, rfl⟩
  · exact ⟨x, at_i, rfl, rfl, rfl⟩

/-- A scope of a run is one of the finished tree. -/
theorem exists_scope_of_tree (size : Nat) {i : Nat} {y : Scope} (at_i : s.scopes[i]? = some y) :
    ∃ x, (s.tree size).scopes[i]? = some x ∧ x.kind = y.kind ∧ x.declarations = y.declarations := by
  have inside : i < (s.tree size).scopes.size := by
    rw [← (alike_tree s size).size_eq]
    exact (Array.getElem?_eq_some_iff.mp at_i).1
  have at_t : (s.tree size).scopes[i]? = some (s.tree size).scopes[i] :=
    Array.getElem?_eq_getElem inside
  obtain ⟨y', at_i', _, kind, declarations⟩ := scope_of_tree at_t
  rw [at_i] at at_i'
  cases at_i'
  exact ⟨_, at_t, kind, declarations⟩

theorem Rows.tabled (rows : Rows s) (shaped : Shaped c s) (size : Nat) : (s.tree size).Tabled := by
  have scopes {y : Scope} (mem : y ∈ (s.tree size).scopes) :
      y.declarations = declarationsIn s.scopes y.id := by
    obtain ⟨i, at_i⟩ := Array.mem_iff_getElem?.mp mem
    obtain ⟨x, at_x, id, _, same⟩ := scope_of_tree at_i
    rw [id, shaped.rooted.id i x at_x, declarationsIn_of_getElem? at_x, same]
  have found {x : Binding} (mem : x ∈ s.bindings) :
      s.bindings[x.id]? = some x ∧
        (declarationsIn s.scopes x.scope).find? x.name = some x.id := by
    obtain ⟨b, at_b⟩ := Array.mem_iff_getElem?.mp mem
    rw [rows.id b x at_b]
    exact ⟨at_b, rows.found b x at_b⟩
  constructor
  case id => exact rows.id
  case declared =>
    intro y mem name b bound
    rw [Scope.find?, scopes mem] at bound
    exact rows.listed y.id name b (mem_of_find? bound)
  case found =>
    intro x mem
    have bound := (found mem).2
    rw [find?_declarationsIn] at bound
    obtain ⟨y, at_home, bound⟩ := Option.bind_eq_some_iff.mp bound
    obtain ⟨z, at_home', _, declarations⟩ := exists_scope_of_tree size at_home
    refine ⟨z, at_home', ?_⟩
    rw [Scope.find?, declarations]
    exact bound
  case unique =>
    intro x left y right scope name
    obtain ⟨at_x, bound⟩ := found left
    obtain ⟨at_y, bound'⟩ := found right
    rw [scope, name, bound'] at bound
    rw [← Option.some.inj bound, at_y] at at_x
    exact (Option.some.inj at_x).symm
  case names =>
    intro y mem
    rw [scopes mem]
    exact rows.names y.id
  case ordered =>
    intro y mem
    rw [scopes mem]
    exact rows.ordered y.id
  case homes =>
    intro x mem kind
    have belongs : x.kind.hoists = true ∨ x.kind = .param := by
      rcases kind with kind | kind | kind
      · exact .inl (by rw [kind]; rfl)
      · exact .inl (by rw [kind]; rfl)
      · exact .inr kind
    obtain ⟨y, at_home, bounds⟩ := rows.homes x.id x (found mem).1 belongs
    obtain ⟨z, at_home', same, _⟩ := exists_scope_of_tree size at_home
    refine ⟨z, at_home', ?_⟩
    rw [same]
    exact ScopeKind.boundsFunction_iff.mp bounds

/-- Over tokens in order, the declarations of a binding are in the order of the source. -/
theorem InOrder.ascending (inOrder : InOrder c s) (formed : c.Formed) (spaced : c.Spaced)
    {x : Binding} (mem : x ∈ s.bindings) :
    x.declarations.Pairwise fun d e => d.start < e.start := by
  obtain ⟨b, at_b⟩ := Array.mem_iff_getElem?.mp mem
  obtain ⟨places, spans, ascending, passed⟩ := inOrder b x at_b
  rw [spans]
  apply List.pairwise_map.mpr
  apply ascending.imp_of_mem
  intro m n left right less
  have first := (formed.token_at (passed m left).2).2
  have second := (formed.token_at (passed n right).2).2
  calc (c.token m).span.start
      < (c.token m).span.stop := spaced.wide m first
    _ ≤ (c.token n).span.start := spaced.stop_le_start less (Nat.lt_of_succ_lt second)

/-- The bindings of every tree that is built and the names that its scopes declare are one table; over
the tokens of a source each binding lists its declarations in source order. -/
theorem ofTokens_tabled {ts : List Token} {limit : Nat} {t : Tree}
    (h : Tree.ofTokens ts limit = .ok t) : t.Tabled ∧
      ∀ (source : String) (most : Option Nat), tokenize source most = .ok ts →
        ∀ x ∈ t.bindings, x.declarations.Pairwise fun d e => d.start < e.start := by
  obtain ⟨final, s, last, formed, w, _, rfl⟩ := ofTokens_ok h
  obtain ⟨rows, inOrder⟩ := w.table
  refine ⟨rows.tabled w.shaped _, ?_⟩
  intro source most lexed x mem
  obtain ⟨spaced, _⟩ := ofTokens_spaced (tokenize_tiling lexed) last limit
  exact inOrder.ascending formed spaced mem

/-- A parameter that is declared again by `var` and then by `function` stays in its function, and a
variable of the same name in a block of it is another binding. -/
theorem ofTokens_tabled_redeclared : ∃ ts t,
    tokenize "function f(a) { var a; { let a } function a() { } }" none = .ok ts ∧
      Tree.ofTokens ts 9 = .ok t ∧ t.Tabled ∧
      t.bindings.toList.map (fun x => (x.name, x.kind, x.scope)) =
        [("f", .function, 0), ("a", .function, 1), ("a", .let_, 2)] ∧
      ∀ x ∈ t.bindings, x.declarations.Pairwise fun d e => d.start < e.start := by
  have made : (tokenize "function f(a) { var a; { let a } function a() { } }" none).toOption.bind
      (fun ts => (Tree.ofTokens ts 9).toOption.map fun t =>
        t.bindings.toList.map (fun x => (x.name, x.kind, x.scope))) =
      some [("f", .function, 0), ("a", .function, 1), ("a", .let_, 2)] := by decide +kernel
  obtain ⟨ts, lexed, made⟩ := Option.bind_eq_some_iff.mp made
  obtain ⟨t, built, known⟩ := Option.map_eq_some_iff.mp made
  have lexed := ok_of_toOption lexed
  have built := ok_of_toOption built
  obtain ⟨tabled, ordered⟩ := ofTokens_tabled built
  exact ⟨ts, t, lexed, built, tabled, known, ordered _ none lexed⟩

end Builder

end Scoping
