import Scoping.Proofs.Build.Shape

/-!
# The ranges that are written

Over tokens that stand one behind the other, a scope begins at the token under the cursor and ends
where the last token read ends. So at every moment (`Ranged`) a scope that is not open ends behind
its start and before the cursor, and of two scopes the later is inside the earlier or begins behind
its end. A token that is read stands in the range of exactly the scopes around the one that was
innermost (`Sits`); an open scope is taken to have no end yet.
-/

namespace Scoping

/-- The range of a scope. -/
def rangeIn (scopes : Array Scope) (i : ScopeId) : Span :=
  ((scopes[i]?).map (·.range)).getD (.point 0)

theorem rangeIn_of_getElem? {scopes : Array Scope} {i : Nat} {x : Scope}
    (h : scopes[i]? = some x) : rangeIn scopes i = x.range := by
  rw [rangeIn, h, Option.map_some, Option.getD_some]

namespace Builder

/-! ## Tokens in order -/

/-- The tokens stand one behind the other, and each but the last takes some room. -/
structure Context.Spaced (c : Context) : Prop where
  wide : ∀ n, n + 1 < c.tokens.size → (c.token n).span.start < (c.token n).span.stop
  apart : ∀ n, n + 1 < c.tokens.size → (c.token n).span.stop ≤ (c.token (n + 1)).span.start
  ends : c.final.span.start ≤ c.final.span.stop

/-- Where the tokens before a place end. -/
def Context.endBefore (c : Context) : (place : Nat) → Nat
  | 0 => 0
  | n + 1 => (c.token n).span.stop

namespace Context.Spaced

variable {c : Context} (spaced : c.Spaced) {m n : Nat}
include spaced

theorem endBefore_le (h : n < c.tokens.size) : c.endBefore n ≤ (c.token n).span.start := by
  cases n with
  | zero => exact Nat.zero_le _
  | succ n => exact spaced.apart n h

theorem endBefore_le_succ (h : n + 1 < c.tokens.size) : c.endBefore n ≤ c.endBefore (n + 1) := by
  have := spaced.endBefore_le (Nat.lt_of_succ_lt h)
  have := spaced.wide n h
  show _ ≤ (c.token n).span.stop
  omega

theorem stop_le_endBefore (less : m < n) (h : n < c.tokens.size) :
    (c.token m).span.stop ≤ c.endBefore n := by
  induction n with
  | zero => omega
  | succ n ih =>
    rcases Nat.lt_succ_iff_lt_or_eq.mp less with before | rfl
    · exact Nat.le_trans (ih before (by omega)) (spaced.endBefore_le_succ h)
    · exact Nat.le_refl _

theorem stop_le_start (less : m < n) (h : n < c.tokens.size) :
    (c.token m).span.stop ≤ (c.token n).span.start :=
  Nat.le_trans (spaced.stop_le_endBefore less h) (spaced.endBefore_le h)

theorem stop_lt_stop (less : m < n) (h : n + 1 < c.tokens.size) :
    (c.token m).span.stop < (c.token n).span.stop :=
  Nat.lt_of_le_of_lt (spaced.stop_le_start less (Nat.lt_of_succ_lt h)) (spaced.wide n h)

theorem start_lt_endBefore (less : m < n) (h : n < c.tokens.size) :
    (c.token m).span.start < c.endBefore n :=
  Nat.lt_of_lt_of_le (spaced.wide m (by omega)) (spaced.stop_le_endBefore less h)

/-- Tokens that are not the last have the same span only at the same place. -/
theorem place_eq (inside : m + 1 < c.tokens.size) (inside' : n + 1 < c.tokens.size)
    (same : (c.token m).span = (c.token n).span) : m = n := by
  have wide := spaced.wide m inside
  rcases Nat.lt_trichotomy m n with less | rfl | more
  · have apart := spaced.stop_le_start less (Nat.lt_of_succ_lt inside')
    rw [← same] at apart
    omega
  · rfl
  · have apart := spaced.stop_le_start more (Nat.lt_of_succ_lt inside)
    rw [← same] at apart
    omega

end Context.Spaced

/-! ## Open scopes -/

/-- The scope is open. -/
def State.Open (s : State) (i : ScopeId) : Prop := ∃ f ∈ s.frames, f.scope = i

/-- What is open, and where it starts. -/
def State.stack (s : State) : List (ScopeId × Nat) := s.frames.map fun f => (f.scope, f.start)

variable {c : Context} {s t : State}

theorem open_iff_mem_stack {i : ScopeId} : s.Open i ↔ ∃ start, (i, start) ∈ s.stack := by
  unfold State.Open State.stack
  simp only [List.mem_map, Prod.mk.injEq]
  constructor
  · rintro ⟨f, mem, same⟩
    exact ⟨f.start, f, mem, same, rfl⟩
  · rintro ⟨start, f, mem, same, _⟩
    exact ⟨f, mem, same⟩

/-- Open are the innermost open scope and those around it. -/
theorem Shaped.open_iff (shaped : Shaped c s) {i : Nat} :
    s.Open i ↔ Encloses s.scopes i s.currentScope :=
  shaped.mem_frames_iff

theorem Shaped.top_lt (shaped : Shaped c s) {f : Frame} {rest : List Frame}
    (top : s.frames = f :: rest) : f.scope < s.scopes.size :=
  Shaped.currentScope_eq top ▸ shaped.currentScope_lt

/-- A scope opens inside the open ones. -/
theorem open_push {kind : ScopeKind} {label : String} {start : Nat} {opener : Opener} {i : Nat} :
    (s.pushScope kind label start opener).Open i ↔ i = s.scopes.size ∨ s.Open i := by
  unfold State.Open
  rw [State.pushScope_frames]
  simp only [List.mem_cons, exists_eq_or_imp, eq_comm]

/-- Ending the innermost scope leaves the others open. -/
theorem open_pop (shaped : Shaped c s) {f : Frame} {rest : List Frame} {stop i : Nat}
    (top : s.frames = f :: rest) : (s.popScope f.scope stop).Open i ↔ s.Open i ∧ i ≠ f.scope := by
  have way := shaped.way
  rw [top, List.map_cons] at way
  unfold State.Open
  rw [State.popScope_frames, top, List.tail_cons]
  constructor
  · rintro ⟨g, mem, rfl⟩
    refine ⟨⟨g, List.mem_cons_of_mem _ mem, rfl⟩, Nat.ne_of_lt ?_⟩
    exact way.lt_head shaped.rooted (List.mem_map_of_mem mem)
  · rintro ⟨⟨g, mem, rfl⟩, other⟩
    rcases List.mem_cons.mp mem with rfl | mem
    · exact absurd rfl other
    · exact ⟨g, mem, rfl⟩

/-! ## Ranges under the changes of the state -/

section
variable {kind : ScopeKind} {label : String} {start : Nat} {opener : Opener} {i : Nat}

theorem rangeIn_push_new :
    rangeIn (s.pushScope kind label start opener).scopes s.scopes.size = .point start :=
  rangeIn_of_getElem? (s.pushScope_scope_new kind label start opener)

theorem rangeIn_push_old (h : i < s.scopes.size) :
    rangeIn (s.pushScope kind label start opener).scopes i = rangeIn s.scopes i := by
  have at_i : s.scopes[i]? = some s.scopes[i] := Array.getElem?_eq_getElem h
  have at_t := s.pushScope_scope_old kind label start opener h
  rw [at_i, Option.map_some] at at_t
  rw [rangeIn_of_getElem? at_i, rangeIn_of_getElem? at_t]
  split <;> rfl

theorem rangeIn_pop_self {id : ScopeId} {stop : Nat} (h : id < s.scopes.size) :
    rangeIn (s.popScope id stop).scopes id = ⟨(rangeIn s.scopes id).start, stop⟩ := by
  have at_i : s.scopes[id]? = some s.scopes[id] := Array.getElem?_eq_getElem h
  have at_t := s.popScope_scope id stop id
  rw [at_i, Option.map_some, if_pos rfl] at at_t
  rw [rangeIn_of_getElem? at_i, rangeIn_of_getElem? at_t]

theorem rangeIn_pop_other {id : ScopeId} {stop : Nat} (h : i ≠ id) :
    rangeIn (s.popScope id stop).scopes i = rangeIn s.scopes i := by
  unfold rangeIn
  rw [State.popScope_scope]
  simp only [if_neg (Ne.symm h), Option.map_id']

/-- The end of a scope leaves every beginning where it is. -/
theorem rangeIn_pop_start {id : ScopeId} {stop : Nat} (h : id < s.scopes.size) :
    (rangeIn (s.popScope id stop).scopes i).start = (rangeIn s.scopes i).start := by
  by_cases same : i = id
  · rw [same, rangeIn_pop_self h]
  · rw [rangeIn_pop_other same]

theorem rangeIn_declare (name : Token) (kind : BindingKind) :
    rangeIn (s.declare name kind).scopes i = rangeIn s.scopes i := by
  rcases s.declare_cases name kind with ⟨_, _, e⟩ | ⟨_, e⟩
  · rw [e]
  · rw [e]
    unfold rangeIn
    rw [Array.getElem?_modify]
    split
    · rw [Option.map_map]
      rfl
    · rfl

end

/-- `t` differs from `s` in nothing that ranges depend on. -/
structure Still (s t : State) : Prop where
  pos : t.pos = s.pos
  prevEnd : t.prevEnd = s.prevEnd
  shape : Alike s.scopes t.scopes
  range : ∀ i, rangeIn t.scopes i = rangeIn s.scopes i
  stack : t.stack = s.stack

theorem still_level (s : State) (n : Nat) : Still s { s with depth := n } :=
  ⟨rfl, rfl, rfl, fun _ => rfl, rfl⟩

theorem still_refer (s : State) (name : Token) : Still s (s.refer name) :=
  ⟨rfl, rfl, rfl, fun _ => rfl, rfl⟩

theorem still_declare (s : State) (name : Token) (kind : BindingKind) :
    Still s (s.declare name kind) where
  pos := s.declare_pos name kind
  prevEnd := by rw [State.prevEnd, State.declare_prev, State.prevEnd]
  shape := alike_declare name kind
  range _ := rangeIn_declare name kind
  stack := by rw [State.stack, State.declare_frames, State.stack]

theorem still_reopen (s : State) (opener : Opener) : Still s (s.reopen opener) where
  pos := s.reopen_pos opener
  prevEnd := by rw [State.prevEnd, State.reopen_prev, State.prevEnd]
  shape := by rw [State.reopen_scopes]; rfl
  range _ := by rw [State.reopen_scopes]
  stack := by
    unfold State.stack
    cases top : s.frames with
    | nil => simp only [State.reopen, top]
    | cons f rest => rw [s.reopen_frames opener top, List.map_cons, List.map_cons]

theorem Still.open_iff (still : Still s t) {i : ScopeId} : t.Open i ↔ s.Open i := by
  rw [open_iff_mem_stack, open_iff_mem_stack, still.stack]

/-! ## Ranges at every moment -/

/-- Where scopes begin and end, as far as the cursor has come. -/
structure Ranged (c : Context) (s : State) : Prop where
  inside : s.pos < c.tokens.size
  prevEnd : s.prevEnd = c.endBefore s.pos
  begun : ∀ i < s.scopes.size, (rangeIn s.scopes i).start ≤ (c.token s.pos).span.start
  stack : ∀ i start, (i, start) ∈ s.stack → (rangeIn s.scopes i).start = start
  closed : ∀ i < s.scopes.size, ¬ s.Open i →
    (rangeIn s.scopes i).start < (rangeIn s.scopes i).stop ∧
      (rangeIn s.scopes i).stop ≤ s.prevEnd
  apart : ∀ i j : Nat, i < j → j < s.scopes.size → Encloses s.scopes i j ∨
    ¬ s.Open i ∧ (rangeIn s.scopes i).stop ≤ (rangeIn s.scopes j).start
  inner : ∀ i p : Nat, parentIn s.scopes i = some p →
    (rangeIn s.scopes p).start ≤ (rangeIn s.scopes i).start ∧
      (¬ s.Open p → (rangeIn s.scopes i).stop ≤ (rangeIn s.scopes p).stop)

theorem ranged_start (formed : c.Formed) : Ranged c .start where
  inside := formed.nonempty
  prevEnd := rfl
  begun i lt := by
    have lt : i < 1 := lt
    obtain rfl : i = 0 := by omega
    exact Nat.zero_le _
  stack i start mem := by
    obtain ⟨rfl, rfl⟩ : i = globalScope ∧ start = 0 := by
      simpa [State.stack, State.start] using mem
    rfl
  closed i lt notOpen := by
    have lt : i < 1 := lt
    obtain rfl : i = 0 := by omega
    exact absurd ⟨_, List.mem_singleton_self _, rfl⟩ notOpen
  apart i j less lt := by
    have lt : j < 1 := lt
    omega
  inner i p parent := by
    have lt : i < 1 := lt_size_of_parentIn parent
    obtain rfl : i = 0 := by omega
    cases parent

namespace Ranged

theorem still (ranged : Ranged c s) (still : Still s t) : Ranged c t where
  inside := still.pos ▸ ranged.inside
  prevEnd := by rw [still.prevEnd, ranged.prevEnd, still.pos]
  begun i lt := by
    rw [still.range, still.pos]
    exact ranged.begun i (still.shape.size_eq ▸ lt)
  stack i start mem := by
    rw [still.range]
    exact ranged.stack i start (still.stack ▸ mem)
  closed i lt notOpen := by
    rw [still.range, still.prevEnd]
    rw [still.open_iff] at notOpen
    exact ranged.closed i (still.shape.size_eq ▸ lt) notOpen
  apart i j less lt := by
    rw [still.range, still.range, still.open_iff, ← still.shape.encloses_iff]
    exact ranged.apart i j less (still.shape.size_eq ▸ lt)
  inner i p parent := by
    rw [still.range, still.range, still.open_iff]
    rw [← still.shape.parentIn_eq] at parent
    exact ranged.inner i p parent

variable (spaced : c.Spaced)
include spaced

theorem ahead (formed : c.Formed) (ranged : Ranged c s) (notEnd : (c.token s.pos).isEnd = false) :
    Ranged c (c.behind s) := by
  have pos : (c.behind s).pos = s.pos + 1 := behind_pos notEnd
  have inside : s.pos + 1 < c.tokens.size := (formed.token_at notEnd).2
  have later : s.prevEnd ≤ (c.behind s).prevEnd := by
    rw [ranged.prevEnd]
    exact spaced.endBefore_le_succ inside
  have further : (c.token s.pos).span.start ≤ (c.token (s.pos + 1)).span.start := by
    have := spaced.wide s.pos inside
    have := spaced.apart s.pos inside
    omega
  exact
    { inside := pos ▸ inside
      prevEnd := by rw [pos]; rfl
      begun := fun i lt => Nat.le_trans (ranged.begun i lt) (pos ▸ further)
      stack := ranged.stack
      closed := fun i lt notOpen =>
        ⟨(ranged.closed i lt notOpen).1, Nat.le_trans (ranged.closed i lt notOpen).2 later⟩
      apart := ranged.apart
      inner := ranged.inner }

theorem push {kind : ScopeKind} {label : String} {opener : Opener} (shaped : Shaped c s)
    (ranged : Ranged c s) :
    Ranged c (s.pushScope kind label (c.token s.pos).span.start opener) where
  inside := ranged.inside
  prevEnd := ranged.prevEnd
  begun i lt := by
    rw [State.pushScope_size] at lt
    rcases Nat.lt_succ_iff_lt_or_eq.mp lt with old | rfl
    · rw [rangeIn_push_old old]
      exact ranged.begun i old
    · rw [rangeIn_push_new]
      exact Nat.le_refl _
  stack i start mem := by
    rcases List.mem_cons.mp mem with same | mem
    · cases same
      rw [rangeIn_push_new]
      rfl
    · have old : i < s.scopes.size := by
        have isOpen : s.Open i := open_iff_mem_stack.mpr ⟨start, mem⟩
        exact (shaped.open_iff.mp isOpen).lt_size_left shaped.rooted
      rw [rangeIn_push_old old]
      exact ranged.stack i start mem
  closed i lt notOpen := by
    rw [open_push, not_or] at notOpen
    rw [State.pushScope_size] at lt
    have old : i < s.scopes.size := by omega
    rw [rangeIn_push_old old]
    exact ranged.closed i old notOpen.2
  apart i j less lt := by
    rw [State.pushScope_size] at lt
    rcases Nat.lt_succ_iff_lt_or_eq.mp lt with old | rfl
    · rw [rangeIn_push_old old, rangeIn_push_old (Nat.lt_trans less old),
        encloses_push_old shaped old, open_push]
      rcases ranged.apart i j less old with around | ⟨notOpen, before⟩
      · exact .inl around
      · exact .inr ⟨not_or.mpr ⟨by omega, notOpen⟩, before⟩
    · rw [rangeIn_push_old less, rangeIn_push_new, encloses_push_new shaped, open_push]
      by_cases isOpen : s.Open i
      · exact .inl (.inr (shaped.open_iff.mp isOpen))
      · refine .inr ⟨not_or.mpr ⟨Nat.ne_of_lt less, isOpen⟩, ?_⟩
        have ends := (ranged.closed i less isOpen).2
        rw [ranged.prevEnd] at ends
        exact Nat.le_trans ends (spaced.endBefore_le ranged.inside)
  inner i p parent := by
    have inside := lt_size_of_parentIn parent
    rw [State.pushScope_size] at inside
    rcases Nat.lt_succ_iff_lt_or_eq.mp inside with old | rfl
    · rw [parentIn_push_old _ _ _ _ _ old] at parent
      have old' : p < s.scopes.size := Nat.lt_trans (shaped.rooted.parentIn_lt parent) old
      rw [rangeIn_push_old old, rangeIn_push_old old', open_push]
      refine ⟨(ranged.inner i p parent).1, fun notOpen => ?_⟩
      exact (ranged.inner i p parent).2 (not_or.mp notOpen).2
    · rw [parentIn_push_new] at parent
      cases parent
      rw [rangeIn_push_old shaped.currentScope_lt, rangeIn_push_new, open_push]
      refine ⟨ranged.begun _ shaped.currentScope_lt, fun notOpen => ?_⟩
      exact absurd (shaped.open_iff.mpr (.self shaped.currentScope_lt)) (not_or.mp notOpen).2

section
variable {f : Frame} {rest : List Frame} (shaped : Shaped c s) (ranged : Ranged c s)
  (top : s.frames = f :: rest)
include shaped ranged top
omit spaced

/-- Behind the scope that ends, all that begins later is inside it. -/
theorem leave_apart {i j : Nat} (less : i < j) (lt : j < s.scopes.size) :
    Encloses s.scopes i j ∨ ¬ (s.Open i ∧ i ≠ f.scope) ∧
      (rangeIn (s.popScope f.scope s.prevEnd).scopes i).stop ≤ (rangeIn s.scopes j).start := by
  by_cases same : i = f.scope
  · exact .inl (same ▸ shaped.around f (top ▸ List.mem_cons_self) j (same ▸ Nat.le_of_lt less) lt)
  · rw [rangeIn_pop_other same]
    rcases ranged.apart i j less lt with around | ⟨notOpen, before⟩
    · exact .inl around
    · exact .inr ⟨fun both => notOpen both.1, before⟩

/-- The scope that ends has no open child, and its parent stays open. -/
theorem leave_inner {i p : Nat} (parent : parentIn s.scopes i = some p)
    (notOpen : ¬ (s.Open p ∧ p ≠ f.scope)) :
    (rangeIn (s.popScope f.scope s.prevEnd).scopes i).stop ≤
      (rangeIn (s.popScope f.scope s.prevEnd).scopes p).stop := by
  have current : s.currentScope = f.scope := Shaped.currentScope_eq top
  have less := shaped.rooted.parentIn_lt parent
  by_cases same : i = f.scope
  · have isOpen : s.Open p := by
      rw [shaped.open_iff, current, ← same]
      exact .parent parent shaped.rooted
    exact absurd ⟨isOpen, by omega⟩ notOpen
  · rw [rangeIn_pop_other same]
    by_cases same' : p = f.scope
    · have childClosed : ¬ s.Open i := by
        intro isOpen
        have outside := (current ▸ shaped.open_iff.mp isOpen).le shaped.rooted
        omega
      rw [same', rangeIn_pop_self (shaped.top_lt top)]
      exact (ranged.closed i (lt_size_of_parentIn parent) childClosed).2
    · rw [rangeIn_pop_other same']
      exact (ranged.inner i p parent).2 fun isOpen => notOpen ⟨isOpen, same'⟩

end

theorem leave {f : Frame} {rest : List Frame} {first : Nat} (shaped : Shaped c s)
    (ranged : Ranged c s) (top : s.frames = f :: rest)
    (start : f.start = (c.token first).span.start) (further : first < s.pos) :
    Ranged c (s.popScope f.scope s.prevEnd) := by
  have inside : f.scope < s.scopes.size := shaped.top_lt top
  have begins : (rangeIn s.scopes f.scope).start = f.start :=
    ranged.stack f.scope f.start (by rw [State.stack, top]; exact List.mem_cons_self)
  have wide : f.start < s.prevEnd := by
    rw [start, ranged.prevEnd]
    exact spaced.start_lt_endBefore further ranged.inside
  have alike := alike_popScope (s := s) f.scope s.prevEnd
  refine ⟨ranged.inside, ranged.prevEnd, ?begun, ?stack, ?closed, ?apart, ?inner⟩
  case begun =>
    intro i lt
    rw [State.popScope_size] at lt
    rw [rangeIn_pop_start inside]
    exact ranged.begun i lt
  case stack =>
    intro i start mem
    have mem : (i, start) ∈ s.stack := by
      unfold State.stack at mem ⊢
      rw [State.popScope_frames] at mem
      obtain ⟨g, mem, same⟩ := List.mem_map.mp mem
      exact List.mem_map.mpr ⟨g, List.mem_of_mem_tail mem, same⟩
    rw [rangeIn_pop_start inside]
    exact ranged.stack i start mem
  case closed =>
    intro i lt notOpen
    rw [State.popScope_size] at lt
    rw [open_pop shaped top] at notOpen
    by_cases same : i = f.scope
    · rw [same, rangeIn_pop_self inside, begins]
      exact ⟨wide, Nat.le_refl _⟩
    · rw [rangeIn_pop_other same]
      exact ranged.closed i lt fun isOpen => notOpen ⟨isOpen, same⟩
  case apart =>
    intro i j less lt
    rw [State.popScope_size] at lt
    rw [← alike.encloses_iff, open_pop shaped top, rangeIn_pop_start inside]
    exact ranged.leave_apart shaped top less lt
  case inner =>
    intro i p parent
    rw [← alike.parentIn_eq] at parent
    rw [rangeIn_pop_start inside, rangeIn_pop_start inside, open_pop shaped top]
    exact ⟨(ranged.inner i p parent).1, ranged.leave_inner shaped top parent⟩

/-- Every move keeps ranges in order. -/
theorem move (formed : c.Formed) (move : Move c s t) (shaped : Shaped c s) (ranged : Ranged c s) :
    Ranged c t := by
  cases move with
  | level n => exact ranged.still (still_level s n)
  | ahead notEnd => exact ranged.ahead spaced formed notEnd
  | use name =>
    have notEnd := Token.isEnd_of_isIdentifier name
    exact (ranged.ahead spaced formed notEnd).still (still_refer _ _)
  | name name _ =>
    have notEnd := Token.isEnd_of_isIdentifier name
    exact (ranged.ahead spaced formed notEnd).still (still_declare _ _ _)
  | enter few opening =>
    cases opening with
    | plain _ =>
      have deeper : Ranged c s.deepen := ranged.still (still_level s _)
      exact deeper.push spaced (shaped.move (.level s _))
    | named name _ =>
      have notEnd := Token.isEnd_of_isIdentifier name
      have deeper : Ranged c (c.behind s).deepen :=
        (ranged.ahead spaced formed notEnd).still (still_level _ _)
      have shaped' : Shaped c (c.behind s).deepen := (shaped.move (.ahead notEnd)).move (.level _ _)
      exact (deeper.push spaced shaped').still (still_declare _ _ _)
  | reopen opener => exact ranged.still (still_reopen s opener)
  | leave top _ start further => exact ranged.leave spaced shaped top start further

end Ranged

/-- Whatever is read, ranges are in order. -/
theorem Walk.ranged (w : Walk c .start s) (formed : c.Formed) (spaced : c.Spaced) : Ranged c s := by
  have both : Shaped c s ∧ Ranged c s := by
    refine w.keeps (I := fun s => Shaped c s ∧ Ranged c s) (fun s t move ⟨shaped, ranged⟩ => ?_)
      start_leveled ⟨shaped_start, ranged_start formed⟩
    exact ⟨shaped.move move, ranged.move spaced formed move shaped⟩
  exact both.2

/-! ## Where a token sits -/

/-- The range of a scope covers a span; an open scope has no end yet. -/
def State.Covers (s : State) (i : ScopeId) (span : Span) : Prop :=
  (rangeIn s.scopes i).start ≤ span.start ∧ (s.Open i ∨ span.stop ≤ (rangeIn s.scopes i).stop)

/-- The token at `n` is read, and the scopes whose range covers it are `i` and those around it. -/
structure Sits (c : Context) (s : State) (n i : Nat) : Prop where
  before : n < s.pos
  inside : i < s.scopes.size
  covers : ∀ j < s.scopes.size, s.Covers j (c.token n).span ↔ Encloses s.scopes j i

theorem Still.covers_iff (still : Still s t) {i : Nat} {span : Span} :
    t.Covers i span ↔ s.Covers i span := by
  rw [State.Covers, State.Covers, still.range, still.open_iff]

/-- The token under the cursor sits in the innermost open scope once it is read. -/
theorem sits_behind (spaced : c.Spaced) (formed : c.Formed) (shaped : Shaped c s)
    (ranged : Ranged c s) (notEnd : (c.token s.pos).isEnd = false) :
    Sits c (c.behind s) s.pos s.currentScope where
  before := by
    rw [behind_pos notEnd]
    exact Nat.lt_succ_self _
  inside := shaped.currentScope_lt
  covers j lt := by
    change _ ↔ Encloses s.scopes j s.currentScope
    rw [← shaped.open_iff]
    constructor
    · rintro ⟨_, isOpen | before⟩
      · exact isOpen
      · apply Classical.byContradiction
        intro notOpen
        have ends := (ranged.closed j lt notOpen).2
        rw [ranged.prevEnd] at ends
        have := spaced.endBefore_le ranged.inside
        have := spaced.wide s.pos (formed.token_at notEnd).2
        have before : (c.token s.pos).span.stop ≤ (rangeIn s.scopes j).stop := before
        omega
    · exact fun isOpen => ⟨ranged.begun j lt, .inl isOpen⟩

namespace Sits

variable {n i : Nat}

theorem still (sits : Sits c s n i) (still : Still s t) : Sits c t n i where
  before := still.pos ▸ sits.before
  inside := still.shape.size_eq ▸ sits.inside
  covers j lt := by
    rw [still.covers_iff, ← still.shape.encloses_iff]
    exact sits.covers j (still.shape.size_eq ▸ lt)

theorem ahead (sits : Sits c s n i) (notEnd : (c.token s.pos).isEnd = false) :
    Sits c (c.behind s) n i where
  before := by
    rw [behind_pos notEnd]
    exact Nat.lt_succ_of_lt sits.before
  inside := sits.inside
  covers := sits.covers

variable (spaced : c.Spaced)
include spaced

/-- A scope that begins behind a token does not cover it. -/
theorem push {kind : ScopeKind} {label : String} {opener : Opener} (shaped : Shaped c s)
    (ranged : Ranged c s) (sits : Sits c s n i) :
    Sits c (s.pushScope kind label (c.token s.pos).span.start opener) n i where
  before := sits.before
  inside := by
    rw [State.pushScope_size]
    exact Nat.lt_succ_of_lt sits.inside
  covers j lt := by
    rw [State.pushScope_size] at lt
    rw [encloses_push_old shaped sits.inside]
    rcases Nat.lt_succ_iff_lt_or_eq.mp lt with old | rfl
    · rw [← sits.covers j old, State.Covers, State.Covers, rangeIn_push_old old, open_push,
        or_iff_right (Nat.ne_of_lt old)]
    · constructor
      · rintro ⟨starts, _⟩
        rw [rangeIn_push_new] at starts
        have wide := spaced.wide n (by have := ranged.inside; have := sits.before; omega)
        have := spaced.stop_le_start sits.before ranged.inside
        have starts : (c.token s.pos).span.start ≤ (c.token n).span.start := starts
        omega
      · intro outside
        have := outside.le shaped.rooted
        have := sits.inside
        omega

/-- A scope that ends behind a token covers it as it did before. -/
theorem leave {f : Frame} {rest : List Frame} (shaped : Shaped c s) (ranged : Ranged c s)
    (sits : Sits c s n i) (top : s.frames = f :: rest) :
    Sits c (s.popScope f.scope s.prevEnd) n i where
  before := sits.before
  inside := by
    rw [State.popScope_size]
    exact sits.inside
  covers j lt := by
    rw [State.popScope_size] at lt
    rw [← (alike_popScope (s := s) f.scope s.prevEnd).encloses_iff, ← sits.covers j lt,
      State.Covers, State.Covers, open_pop shaped top]
    by_cases same : j = f.scope
    · have isOpen : s.Open j := ⟨f, top ▸ List.mem_cons_self, same.symm⟩
      have ends : (c.token n).span.stop ≤ s.prevEnd := by
        rw [ranged.prevEnd]
        exact spaced.stop_le_endBefore sits.before ranged.inside
      rw [same, rangeIn_pop_self (same ▸ lt)]
      simp only [ne_eq, not_true_eq_false, and_false, false_or, ends, and_true, same ▸ isOpen,
        true_or]
    · rw [rangeIn_pop_other same]
      simp only [ne_eq, same, not_false_eq_true, and_true]

/-- A token that is read sits where it sits. -/
theorem move (formed : c.Formed) (move : Move c s t) (shaped : Shaped c s) (ranged : Ranged c s)
    (sits : Sits c s n i) : Sits c t n i := by
  cases move with
  | level m => exact sits.still (still_level s m)
  | ahead notEnd => exact sits.ahead notEnd
  | use name =>
    have notEnd := Token.isEnd_of_isIdentifier name
    exact (sits.ahead notEnd).still (still_refer _ _)
  | name name _ =>
    have notEnd := Token.isEnd_of_isIdentifier name
    exact (sits.ahead notEnd).still (still_declare _ _ _)
  | enter few opening =>
    cases opening with
    | plain _ =>
      have sits' : Sits c s.deepen n i := sits.still (still_level s _)
      exact sits'.push spaced (shaped.move (.level s _)) (ranged.still (still_level s _))
    | named name _ =>
      have notEnd := Token.isEnd_of_isIdentifier name
      have shaped' : Shaped c (c.behind s).deepen := (shaped.move (.ahead notEnd)).move (.level _ _)
      have ranged' : Ranged c (c.behind s).deepen :=
        (ranged.ahead spaced formed notEnd).still (still_level _ _)
      have sits' : Sits c (c.behind s).deepen n i := (sits.ahead notEnd).still (still_level _ _)
      exact (sits'.push spaced shaped' ranged').still (still_declare _ _ _)
  | reopen opener => exact sits.still (still_reopen s opener)
  | leave top _ _ _ => exact sits.leave spaced shaped ranged top

end Sits

end Builder

end Scoping
