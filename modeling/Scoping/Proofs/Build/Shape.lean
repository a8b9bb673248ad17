import Scoping.Proofs.Build.Move
import Scoping.Proofs.Tree.WayUp

/-!
# The tree that is built

At every moment of a run the scopes are one tree (`Rooted`), the open ones are the way up from the
innermost, and every scope that begins behind an open one is inside it (`Shaped.around`): nothing is
opened beside a scope that is not closed. So the numbers inside each scope leave no gap.
-/

namespace Scoping

namespace Builder

/-- The scopes are a tree, and the open ones a way up through it. -/
structure Shaped (c : Context) (s : State) : Prop where
  rooted : Rooted s.scopes
  contiguous : Contiguous s.scopes
  way : WayUp s.scopes (s.frames.map (·.scope))
  around : ∀ f ∈ s.frames, ∀ j : Nat, f.scope ≤ j → j < s.scopes.size →
    Encloses s.scopes f.scope j
  shallow : ∀ i < s.scopes.size, ∃ l, WayUp s.scopes (i :: l) ∧ l.length ≤ c.limit

variable {c : Context} {s t : State}

/-- At the start there is only the global scope. -/
theorem start_scope {i : Nat} {x : Scope} (h : State.start.scopes[i]? = some x) :
    i = globalScope ∧ x = ⟨globalScope, .global, "Global", none, #[], #[], .point 0⟩ := by
  cases i with
  | zero => exact ⟨rfl, (Option.some.inj h).symm⟩
  | succ i => cases h

theorem shaped_start : Shaped c .start where
  rooted := by
    refine ⟨⟨_, rfl, rfl, rfl⟩, fun i x at_i => ?_, fun i x at_i inner => ?_, fun i x at_i => ?_⟩
    · obtain ⟨rfl, rfl⟩ := start_scope at_i
      rfl
    · exact absurd (start_scope at_i).1 inner
    · obtain ⟨rfl, rfl⟩ := start_scope at_i
      rfl
  contiguous i j k ij jk outside := by
    have inside : k < 1 := outside.lt_size
    have same : k = j := by omega
    exact same ▸ outside
  way := .root rfl (by decide)
  around f mem j _ lt := by
    cases List.mem_singleton.mp mem
    have lt : j < 1 := lt
    obtain rfl : j = 0 := by omega
    exact .self Nat.one_pos
  shallow i lt := by
    have lt : i < 1 := lt
    obtain rfl : i = 0 := by omega
    exact ⟨[], .root rfl Nat.one_pos, Nat.zero_le _⟩

namespace Shaped

theorem exists_cons (shaped : Shaped c s) : ∃ f rest, s.frames = f :: rest := by
  have way := shaped.way
  cases frames : s.frames with
  | nil =>
    rw [frames] at way
    cases way
  | cons f rest => exact ⟨f, rest, rfl⟩

theorem currentScope_eq {f : Frame} {rest : List Frame} (top : s.frames = f :: rest) :
    s.currentScope = f.scope := by
  rw [State.currentScope, top]

/-- What encloses the innermost open scope is open. -/
theorem mem_frames_iff (shaped : Shaped c s) {i : Nat} :
    (∃ f ∈ s.frames, f.scope = i) ↔ Encloses s.scopes i s.currentScope := by
  obtain ⟨f, rest, top⟩ := shaped.exists_cons
  have way := shaped.way
  rw [top, List.map_cons] at way
  rw [currentScope_eq top, ← way.mem_iff, top]
  exact List.mem_map.symm

theorem currentScope_lt (shaped : Shaped c s) : s.currentScope < s.scopes.size := by
  obtain ⟨f, rest, top⟩ := shaped.exists_cons
  have way := shaped.way
  rw [top, List.map_cons] at way
  exact currentScope_eq top ▸ way.lt_size

/-- Scopes may change in anything but their shape, and open ones may end. -/
theorem of_alike (shaped : Shaped c s) (scopes : Alike s.scopes t.scopes)
    (way : WayUp s.scopes (t.frames.map (·.scope)))
    (frames : ∀ f ∈ t.frames, ∃ g ∈ s.frames, f.scope = g.scope) : Shaped c t where
  rooted := scopes.rooted shaped.rooted
  contiguous := scopes.contiguous shaped.contiguous
  way := way.mono (Nat.le_of_eq scopes.size_eq) fun j _ => by rw [scopes.parentIn_eq]
  around f mem j le lt := by
    obtain ⟨g, mem', same⟩ := frames f mem
    rw [same] at le ⊢
    exact scopes.encloses (shaped.around g mem' j le (scopes.size_eq ▸ lt))
  shallow i lt := by
    obtain ⟨l, way, few⟩ := shaped.shallow i (scopes.size_eq ▸ lt)
    exact ⟨l, way.mono (Nat.le_of_eq scopes.size_eq) fun j _ => by rw [scopes.parentIn_eq], few⟩

end Shaped

/-! ## A scope begins -/

section
variable (s) (kind : ScopeKind) (label : String) (start : Nat) (opener : Opener)

/-- A new scope is right inside the innermost open one. -/
theorem parentIn_push_new :
    parentIn (s.pushScope kind label start opener).scopes s.scopes.size = some s.currentScope := by
  rw [parentIn, State.pushScope_scope_new, Option.bind_some]

theorem parentIn_push_old {i : Nat} (h : i < s.scopes.size) :
    parentIn (s.pushScope kind label start opener).scopes i = parentIn s.scopes i := by
  rw [parentIn, State.pushScope_scope_old _ _ _ _ _ h, parentIn]
  cases s.scopes[i]? with
  | none => rfl
  | some x =>
    rw [Option.map_some, Option.bind_some, Option.bind_some]
    split <;> rfl

variable {s kind label start opener}

/-- Around a new scope stand those that were open. -/
theorem encloses_push_new (shaped : Shaped c s) {i : Nat} :
    Encloses (s.pushScope kind label start opener).scopes i s.scopes.size ↔
      i = s.scopes.size ∨ Encloses s.scopes i s.currentScope := by
  have old := fun j => parentIn_push_old s kind label start opener (i := j)
  constructor
  · intro outside
    by_cases same : i = s.scopes.size
    · exact .inl same
    · obtain ⟨p, parent, outside⟩ := outside.of_ne same
      rw [parentIn_push_new] at parent
      cases parent
      exact .inr (outside.of_grown shaped.rooted old shaped.currentScope_lt)
  · rintro (rfl | outside)
    · exact .self (by rw [State.pushScope_size]; exact Nat.lt_succ_self _)
    · refine .outer (parentIn_push_new ..) (outside.mono ?_ fun j p parent => ?_)
      · rw [State.pushScope_size]
        exact Nat.le_succ _
      · rw [old j (lt_size_of_parentIn parent), parent]

/-- Around an old scope stand those that stood there. -/
theorem encloses_push_old (shaped : Shaped c s) {i j : Nat} (h : j < s.scopes.size) :
    Encloses (s.pushScope kind label start opener).scopes i j ↔ Encloses s.scopes i j := by
  have old := fun j => parentIn_push_old s kind label start opener (i := j)
  constructor
  · exact fun outside => outside.of_grown shaped.rooted old h
  · intro outside
    refine outside.mono ?_ fun j p parent => ?_
    · rw [State.pushScope_size]
      exact Nat.le_succ _
    · rw [old j (lt_size_of_parentIn parent), parent]

/-- A new scope is the last child of the one that it opens in. -/
theorem children_push (shaped : Shaped c s) {p : Nat} {x : Scope}
    (at_p : (s.pushScope kind label start opener).scopes[p]? = some x) :
    x.children.toList = (List.range (s.pushScope kind label start opener).scopes.size).filter
      (parentIn (s.pushScope kind label start opener).scopes · = some p) := by
  have same : (List.range s.scopes.size).filter
      (parentIn (s.pushScope kind label start opener).scopes · = some p) =
        (List.range s.scopes.size).filter (parentIn s.scopes · = some p) := by
    apply List.filter_congr
    intro i mem
    rw [parentIn_push_old _ _ _ _ _ (List.mem_range.mp mem)]
  rw [State.pushScope_size, List.range_succ, List.filter_append, same, List.filter_cons,
    List.filter_nil, parentIn_push_new]
  rcases State.pushScope_cases _ _ _ _ _ at_p with ⟨rfl, rfl⟩ | ⟨_, y, at_y, rfl⟩
  · have none : (List.range s.scopes.size).filter (parentIn s.scopes · = some s.scopes.size) =
        [] := by
      apply List.filter_eq_nil_iff.mpr
      intro i mem
      have inside := List.mem_range.mp mem
      simp only [decide_eq_true_eq]
      intro parent
      exact Nat.lt_asymm inside (shaped.rooted.parentIn_lt parent)
    rw [none]
    simp [Nat.ne_of_lt shaped.currentScope_lt]
  · rw [← shaped.rooted.children p y at_y]
    by_cases top : s.currentScope = p
    · simp [top]
    · simp [top]

theorem rooted_push (shaped : Shaped c s) (notGlobal : kind ≠ .global) :
    Rooted (s.pushScope kind label start opener).scopes where
  root := by
    obtain ⟨x, at_root, isGlobal, parent⟩ := shaped.rooted.root
    rw [State.pushScope_scope_old _ _ _ _ _ shaped.rooted.size_pos, at_root, Option.map_some]
    refine ⟨_, rfl, ?_⟩
    split <;> exact ⟨isGlobal, parent⟩
  id i x at_i := by
    rcases State.pushScope_cases _ _ _ _ _ at_i with ⟨rfl, rfl⟩ | ⟨_, y, at_y, rfl⟩
    · rfl
    · rw [← shaped.rooted.id i y at_y]
      split <;> rfl
  inner i x at_i inner := by
    rcases State.pushScope_cases _ _ _ _ _ at_i with ⟨rfl, rfl⟩ | ⟨_, y, at_y, rfl⟩
    · exact ⟨notGlobal, _, rfl, shaped.currentScope_lt⟩
    · have old := shaped.rooted.inner i y at_y inner
      split <;> exact old
  children _ _ at_p := children_push shaped at_p

/-- What comes between an open scope and the new one is inside the open one. -/
theorem contiguous_push (shaped : Shaped c s) :
    Contiguous (s.pushScope kind label start opener).scopes := by
  intro i j k ij jk outside
  have inside := outside.lt_size
  rw [State.pushScope_size] at inside
  rcases Nat.lt_succ_iff_lt_or_eq.mp inside with inside | rfl
  · rw [encloses_push_old shaped inside] at outside
    rw [encloses_push_old shaped (Nat.lt_of_le_of_lt jk inside)]
    exact shaped.contiguous i j k ij jk outside
  · rcases Nat.lt_or_eq_of_le jk with less | rfl
    · rw [encloses_push_old shaped less]
      rcases (encloses_push_new shaped).mp outside with rfl | around
      · omega
      · obtain ⟨g, mem, rfl⟩ := shaped.mem_frames_iff.mpr around
        exact shaped.around g mem j ij less
    · exact outside

theorem Shaped.push (shaped : Shaped c s) (notGlobal : kind ≠ .global)
    (few : s.frames.length ≤ c.limit) : Shaped c (s.pushScope kind label start opener) := by
  obtain ⟨f, rest, top⟩ := shaped.exists_cons
  have old := fun j => parentIn_push_old s kind label start opener (i := j)
  have size : s.scopes.size ≤ (s.pushScope kind label start opener).scopes.size := by
    rw [State.pushScope_size]
    exact Nat.le_succ _
  have way : WayUp (s.pushScope kind label start opener).scopes
      (s.scopes.size :: s.frames.map (·.scope)) := by
    have below := shaped.way.mono size old
    rw [top, List.map_cons] at below ⊢
    exact .step (currentScope_eq top ▸ parentIn_push_new ..) below
  refine ⟨rooted_push shaped notGlobal, contiguous_push shaped, way, ?around, ?shallow⟩
  case around =>
    intro g mem j le lt
    rw [State.pushScope_size] at lt
    rw [State.pushScope_frames] at mem
    rcases List.mem_cons.mp mem with rfl | mem
    · have le : s.scopes.size ≤ j := le
      obtain rfl : j = s.scopes.size := by omega
      exact (encloses_push_new shaped).mpr (.inl rfl)
    · rcases Nat.lt_succ_iff_lt_or_eq.mp lt with less | rfl
      · exact (encloses_push_old shaped less).mpr (shaped.around g mem j le less)
      · exact (encloses_push_new shaped).mpr (.inr (shaped.mem_frames_iff.mp ⟨g, mem, rfl⟩))
  case shallow =>
    intro i lt
    rw [State.pushScope_size] at lt
    rcases Nat.lt_succ_iff_lt_or_eq.mp lt with less | rfl
    · obtain ⟨l, way, shallow⟩ := shaped.shallow i less
      exact ⟨l, way.mono size old, shallow⟩
    · exact ⟨_, way, by rw [List.length_map]; exact few⟩

end

/-! ## Moves -/

theorem alike_declare (name : Token) (kind : BindingKind) :
    Alike s.scopes (s.declare name kind).scopes := by
  rcases s.declare_cases name kind with ⟨_, _, e⟩ | ⟨_, e⟩
  · rw [e]
    rfl
  · rw [e]
    dsimp only
    apply alike_modify
    intro x
    rfl

theorem alike_popScope (id : ScopeId) (stop : Nat) :
    Alike s.scopes (s.popScope id stop).scopes := by
  dsimp only [State.popScope]
  apply alike_modify
  intro x
  rfl

/-- Whatever leaves scopes and frames alone leaves the shape. -/
theorem Shaped.of_eq (shaped : Shaped c s) (scopes : t.scopes = s.scopes)
    (frames : t.frames = s.frames) : Shaped c t :=
  shaped.of_alike (by rw [scopes]; rfl) (frames ▸ shaped.way) fun f mem => ⟨f, frames ▸ mem, rfl⟩

theorem Shaped.declare (shaped : Shaped c s) (name : Token) (kind : BindingKind) :
    Shaped c (s.declare name kind) :=
  shaped.of_alike (alike_declare name kind) (by rw [State.declare_frames]; exact shaped.way)
    fun f mem => ⟨f, s.declare_frames name kind ▸ mem, rfl⟩

/-- The same scopes are open when what opened the innermost is changed. -/
theorem reopen_scopes_open (s : State) (opener : Opener) :
    (s.reopen opener).frames.map (·.scope) = s.frames.map (·.scope) := by
  cases top : s.frames with
  | nil => simp only [State.reopen, top]
  | cons f rest => rw [s.reopen_frames opener top, List.map_cons, List.map_cons]

/-- Every move keeps the tree in shape. -/
theorem Shaped.move (move : Move c s t) (shaped : Shaped c s) : Shaped c t := by
  cases move with
  | level n => exact shaped.of_eq rfl rfl
  | ahead _ => exact shaped.of_eq rfl rfl
  | use _ => exact shaped.of_eq rfl rfl
  | name _ _ =>
    have behind : Shaped c (c.behind s) := shaped.of_eq rfl rfl
    exact behind.declare _ _
  | enter few opening =>
    cases opening with
    | plain notGlobal =>
      have deeper : Shaped c s.deepen := shaped.of_eq rfl rfl
      exact deeper.push notGlobal few
    | named _ _ =>
      have deeper : Shaped c (c.behind s).deepen := shaped.of_eq rfl rfl
      exact (deeper.push (by decide) few).declare _ _
  | reopen opener =>
    refine shaped.of_alike (by rw [State.reopen_scopes]; rfl) ?_ fun f mem => ?_
    · rw [reopen_scopes_open]
      exact shaped.way
    · have mem := List.mem_map_of_mem (f := (·.scope)) mem
      rw [reopen_scopes_open] at mem
      obtain ⟨g, mem, same⟩ := List.mem_map.mp mem
      exact ⟨g, mem, same.symm⟩
  | @leave f rest _ top more _ _ =>
    refine shaped.of_alike (alike_popScope _ _) ?_ fun g mem => ?_
    · have way := shaped.way
      rw [State.popScope_frames, top, List.tail_cons]
      rw [top, List.map_cons] at way
      exact way.tail (by simpa using more)
    · exact ⟨g, List.mem_of_mem_tail mem, rfl⟩

theorem start_leveled : Leveled .start := ⟨nofun, Nat.le_refl _⟩

/-- Whatever is read, the tree is in shape. -/
theorem Walk.shaped (w : Walk c .start s) : Shaped c s :=
  w.keeps (fun _ _ => Shaped.move) start_leveled shaped_start

end Builder

end Scoping
