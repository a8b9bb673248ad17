import Scoping.Proofs.Build.Compose
import Scoping.Proofs.Build.Halves

/-!
# Names declared both ways

With the global scope in halves, what `var` and `function` declare for it goes to the outer half, and
what `let` and `const` declare to the inner one. What the two runs do there is told by one list, the
declarations that land in the global scope, in order (`DeclaredGlobally`, `Halves.History`). As long as
no name is in it both ways, the bindings are the same, each at home in one half or the other
(`Halves.Tables`); a name that is gets two bindings (`Halves.Clash`).

A binding keeps the kind of its latest declaration only, so whether a name was declared both ways cannot be
told from the tree; the halves tell it (`mem_bothWays_iff`).
-/

namespace Scoping

/-- The binding in its half of the global scope, or in its scope, which is numbered one higher. -/
def Binding.halved (b : Binding) : Binding := { b with scope := b.kind.home b.scope }

namespace Builder

/-- Where a scope declares a name. -/
def declaredAt (s : State) (i : ScopeId) (name : String) : List Span :=
  (((declarationsIn s.scopes i).find? name).bind (s.bindings[·]?)).elim [] Binding.declarations

/-- What the changes that lead to a state have declared in the global scope, in order. -/
inductive DeclaredGlobally : State → List (Token × BindingKind) → Prop
  | start : DeclaredGlobally .start []
  | still {s t : State} {made : List (Token × BindingKind)} :
    DeclaredGlobally s made → Change (fun _ => False) s t → DeclaredGlobally t made
  | declare {s : State} {made : List (Token × BindingKind)} (name : Token) (kind : BindingKind) :
    DeclaredGlobally s made → DeclaredGlobally (s.declare name kind)
      (if s.target kind = globalScope then made ++ [(name, kind)] else made)

/-- Where the declarations of a name stand that are of the given kinds. -/
def placesOf (made : List (Token × BindingKind)) (name : String) (kinds : BindingKind → Bool) :
    List Span :=
  (made.filter fun d => d.1.lexeme == name && kinds d.2).map (·.1.span)

theorem placesOf_append {made : List (Token × BindingKind)} {t : Token} {kind : BindingKind}
    {name : String} {kinds : BindingKind → Bool} :
    placesOf (made ++ [(t, kind)]) name kinds =
      placesOf made name kinds ++ if t.lexeme = name ∧ kinds kind = true then [t.span] else [] := by
  unfold placesOf
  rw [List.filter_append, List.map_append]
  by_cases counts : t.lexeme = name ∧ kinds kind = true
  · rw [if_pos counts]
    simp [counts.1, counts.2]
  · rw [if_neg counts, List.filter_cons_of_neg (by simpa using counts)]
    rfl

theorem placesOf_ne_nil {made : List (Token × BindingKind)} {name : String}
    {kinds : BindingKind → Bool} :
    placesOf made name kinds ≠ [] ↔ ∃ d ∈ made, d.1.lexeme = name ∧ kinds d.2 = true := by
  simp [placesOf]

namespace Halves

/-- What has been declared in the global scope, each declaration with its kind: the global scope has all
of them, the outer half those that leave blocks, and the inner half the others. -/
structure History (s s' : State) (made : List (Token × BindingKind)) : Prop where
  declares : DeclaredGlobally s made
  whole : ∀ name, declaredAt s globalScope name = placesOf made name fun _ => true
  outer : ∀ name, declaredAt s' globalScope name = placesOf made name (·.hoists)
  inner : ∀ name, declaredAt s' 1 name = placesOf made name (! ·.hoists)

/-- What the global scope declares is declared in the halves, in the outer one by what leaves blocks and
in the inner one by what does not. -/
structure Shared (s s' : State) : Prop where
  listed : Listed s
  listed' : Listed s'
  history : ∃ made, History s s' made

/-- A name is declared in both halves. -/
def Clash (s' : State) : Prop :=
  ∃ name, ((declarationsIn s'.scopes globalScope).find? name).isSome ∧
    ((declarationsIn s'.scopes 1).find? name).isSome

/-- The bindings are the same, and every name that the global scope declares is declared in one half. -/
structure Tables (s s' : State) : Prop where
  bindings : s'.bindings = s.bindings.map Binding.halved
  other : ∀ i : Nat, i ≠ globalScope → declarationsIn s'.scopes (i + 1) = declarationsIn s.scopes i
  global : ∀ name, (declarationsIn s.scopes globalScope).find? name =
    ((declarationsIn s'.scopes globalScope).find? name).or ((declarationsIn s'.scopes 1).find? name)

variable {s s' : State}

theorem nothing_declared (i : Nat) : declarationsIn State.halved.scopes i = #[] := by
  match i with
  | 0 => rfl
  | 1 => rfl
  | i + 2 => rfl

theorem listed_halved : Listed .halved := by
  intro i name b mem
  rw [nothing_declared] at mem
  cases List.not_mem_nil mem.val

theorem shared_start : Shared .start .halved where
  listed := listed_start
  listed' := listed_halved
  history := ⟨[], .start, fun _ => rfl, fun _ => rfl, fun _ => rfl⟩

theorem tables_start : Tables .start .halved where
  bindings := by simp [State.halved, State.start]
  other i inner := by
    obtain ⟨i, rfl⟩ := Nat.exists_eq_succ_of_ne_zero inner
    exact nothing_declared _
  global name := rfl

/-! ## Declarations -/

section
variable (t : Token) (kind : BindingKind)

/-- A declaration is added where it lands, to those of its name, and nowhere else. -/
theorem declaredAt_declare (listed : Listed s) (i : Nat) (name : String) :
    declaredAt (s.declare t kind) i name = declaredAt s i name ++
      if s.target kind = i ∧ i < s.scopes.size ∧ t.lexeme = name then [t.span] else [] := by
  cases found : (declarationsIn s.scopes (s.target kind)).find? t.lexeme with
  | some known =>
    obtain ⟨x, at_known, spelled, owner⟩ := listed _ _ _ (mem_of_find? found)
    have inside : s.target kind < s.scopes.size := by
      rw [find?_declarationsIn] at found
      obtain ⟨y, at_target, _⟩ := Option.bind_eq_some_iff.mp found
      exact (Array.getElem?_eq_some_iff.mp at_target).1
    rw [declare_again t kind found]
    unfold declaredAt
    by_cases here : s.target kind = i ∧ t.lexeme = name
    · obtain ⟨rfl, rfl⟩ := here
      simp [found, at_known, inside, Array.getElem?_modify]
    · rw [if_neg fun all => here ⟨all.1, all.2.2⟩, List.append_nil]
      cases other : (declarationsIn s.scopes i).find? name with
      | none => rfl
      | some b =>
        obtain ⟨y, at_b, spelled', owner'⟩ := listed _ _ _ (mem_of_find? other)
        have apart : known ≠ b := by
          rintro rfl
          rw [at_known] at at_b
          cases at_b
          exact here ⟨owner.symm.trans owner', spelled.symm.trans spelled'⟩
        simp only [Option.bind_some, Array.getElem?_modify, if_neg apart]
  | none =>
    unfold declaredAt
    rw [find?_declare_new t kind found, (declare_new t kind found).1]
    cases old : (declarationsIn s.scopes i).find? name with
    | some b =>
      obtain ⟨y, at_b, _⟩ := listed _ _ _ (mem_of_find? old)
      have elsewhere : ¬ (s.target kind = i ∧ i < s.scopes.size ∧ t.lexeme = name) := by
        rintro ⟨rfl, _, rfl⟩
        rw [found] at old
        cases old
      have inside := (Array.getElem?_eq_some_iff.mp at_b).1
      rw [Option.some_or, Option.bind_some, Option.bind_some, Array.getElem?_push_lt inside, if_neg elsewhere,
        List.append_nil, ← Array.getElem?_eq_getElem inside]
    | none =>
      rw [Option.none_or]
      split
      · simp [Binding.declarations]
      · rfl

/-- What is declared is declared somewhere. -/
theorem declaredAt_ne_nil {i : Nat} {name : String} (listed : Listed s) :
    declaredAt s i name ≠ [] ↔ ((declarationsIn s.scopes i).find? name).isSome := by
  unfold declaredAt
  cases found : (declarationsIn s.scopes i).find? name with
  | none => simp
  | some b =>
    obtain ⟨x, at_b, _⟩ := listed _ _ _ (mem_of_find? found)
    simp [at_b, Binding.declarations]

/-- A declaration for the global scope lands in one of the halves, by its kind. -/
theorem History.declare {made : List (Token × BindingKind)} (h : Split s s') (listed : Listed s)
    (listed' : Listed s') (history : History s s' made) :
    History (s.declare t kind) (s'.declare t kind)
      (if s.target kind = globalScope then made ++ [(t, kind)] else made) := by
  have outer : s'.target kind = globalScope ↔ kind.hoists = true ∧ s.target kind = globalScope := by
    rw [h.target_eq, BindingKind.home_eq_global_iff]
  have inner : s'.target kind = 1 ↔ kind.hoists = false ∧ s.target kind = globalScope := by
    rw [h.target_eq, BindingKind.home_eq_one_iff]
  have nonempty : globalScope < s.scopes.size := h.nonempty
  have nonempty' : globalScope < s'.scopes.size := by rw [h.size_eq]; exact Nat.succ_pos _
  have both : 1 < s'.scopes.size := by rw [h.size_eq]; exact Nat.succ_lt_succ h.nonempty
  refine ⟨history.declares.declare t kind, fun name => ?_, fun name => ?_, fun name => ?_⟩
  · rw [declaredAt_declare t kind listed, history.whole]
    by_cases root : s.target kind = globalScope <;> simp [root, nonempty, placesOf_append]
  · rw [declaredAt_declare t kind listed', history.outer]
    by_cases root : s.target kind = globalScope <;>
      simp [root, outer, nonempty', placesOf_append, and_comm]
  · rw [declaredAt_declare t kind listed', history.inner]
    by_cases root : s.target kind = globalScope <;>
      simp [root, inner, both, placesOf_append, and_comm]

theorem Shared.declare (h : Split s s') (shared : Shared s s') :
    Shared (s.declare t kind) (s'.declare t kind) where
  listed := shared.listed.declare t kind
  listed' := shared.listed'.declare t kind
  history := shared.history.imp' _ fun _ history =>
    history.declare t kind h shared.listed shared.listed'

/-- Nothing that is declared is lost by one more declaration. -/
theorem isSome_declare {i : Nat} {name : String}
    (h : ((declarationsIn s.scopes i).find? name).isSome) :
    ((declarationsIn (s.declare t kind).scopes i).find? name).isSome := by
  cases found : (declarationsIn s.scopes (s.target kind)).find? t.lexeme with
  | some known => rwa [declare_again t kind found]
  | none =>
    rw [(declare_new t kind found).2]
    split
    · simp [Declarations.find?_push, h]
    · exact h

theorem Clash.declare (h : Clash s') : Clash (s'.declare t kind) := by
  obtain ⟨name, outer, inner⟩ := h
  exact ⟨name, isSome_declare t kind outer, isSome_declare t kind inner⟩

/-- Where a declaration lands its name is declared. -/
theorem isSome_declare_target (inside : s.target kind < s.scopes.size) :
    ((declarationsIn (s.declare t kind).scopes (s.target kind)).find? t.lexeme).isSome := by
  cases found : (declarationsIn s.scopes (s.target kind)).find? t.lexeme with
  | some known =>
    rw [declare_again t kind found, found]
    rfl
  | none =>
    rw [(declare_new t kind found).2, if_pos ⟨rfl, inside⟩]
    simp [Declarations.find?_push]

section
variable (h : Split s s') (tables : Tables s s')
include h tables

/-- Both runs find the same binding for a name that is declared, or the name was declared in the other
half. -/
theorem Tables.find?_target : Clash (s'.declare t kind) ∨
    (declarationsIn s'.scopes (s'.target kind)).find? t.lexeme =
      (declarationsIn s.scopes (s.target kind)).find? t.lexeme := by
  have global := tables.global t.lexeme
  have lands := isSome_declare_target (s := s') t kind
  have target := h.target_eq kind
  have size := h.size_eq
  have nonempty := h.nonempty
  by_cases root : s.target kind = globalScope
  · rw [root] at target ⊢
    cases outer : (declarationsIn s'.scopes globalScope).find? t.lexeme with
    | some b =>
      cases hoists : kind.hoists with
      | true =>
        rw [BindingKind.home, if_pos ⟨hoists, rfl⟩] at target
        rw [target, global, outer]
        exact .inr rfl
      | false =>
        rw [BindingKind.home, if_neg (by simp [hoists])] at target
        rw [target] at lands
        refine .inl ⟨t.lexeme, isSome_declare t kind (by rw [outer]; rfl), lands ?_⟩
        rw [size]
        exact Nat.succ_lt_succ nonempty
    | none =>
      rw [outer, Option.none_or] at global
      cases hoists : kind.hoists with
      | true =>
        rw [BindingKind.home, if_pos ⟨hoists, rfl⟩] at target
        rw [target] at lands ⊢
        cases inner : (declarationsIn s'.scopes 1).find? t.lexeme with
        | some b =>
          refine .inl ⟨t.lexeme, lands ?_, isSome_declare t kind (by rw [inner]; rfl)⟩
          rw [size]
          exact Nat.succ_pos _
        | none =>
          rw [outer, global, inner]
          exact .inr rfl
      | false =>
        rw [BindingKind.home, if_neg (by simp [hoists])] at target
        rw [target, global]
        exact .inr rfl
  · rw [BindingKind.home, if_neg fun both => root both.2] at target
    rw [target, tables.other _ root]
    exact .inr rfl

/-- A new name of the global scope goes to one of the halves. -/
theorem Tables.global_declare (new : (declarationsIn s.scopes (s.target kind)).find? t.lexeme = none)
    (new' : (declarationsIn s'.scopes (s'.target kind)).find? t.lexeme = none) (name : String) :
    (declarationsIn (s.declare t kind).scopes globalScope).find? name =
      ((declarationsIn (s'.declare t kind).scopes globalScope).find? name).or
        ((declarationsIn (s'.declare t kind).scopes 1).find? name) := by
  have target := h.target_eq kind
  have sizes : s'.bindings.size = s.bindings.size := by rw [tables.bindings, Array.size_map]
  have outer : globalScope < s.scopes.size := h.nonempty
  have outer' : globalScope < s'.scopes.size := by rw [h.size_eq]; exact Nat.succ_pos _
  have inner' : 1 < s'.scopes.size := by rw [h.size_eq]; exact Nat.succ_lt_succ h.nonempty
  rw [find?_declare_new t kind new, find?_declare_new t kind new', find?_declare_new t kind new',
    tables.global, sizes]
  by_cases same : t.lexeme = name
  · subst same
    by_cases root : s.target kind = globalScope
    · rw [root, tables.global, Option.or_eq_none_iff] at new
      have half : s'.target kind = globalScope ∨ s'.target kind = 1 := by
        rw [target, root]
        unfold BindingKind.home
        split
        · exact .inl rfl
        · exact .inr rfl
      rcases half with half | half
      · simp [root, half, new, outer, outer']
      · have other : 1 ≠ globalScope := by decide
        simp [root, half, new, outer, inner', other]
    · have further : s'.target kind = s.target kind + 1 := by
        rw [target, BindingKind.home, if_neg fun both => root both.2]
      have one : s.target kind ≠ 0 := root
      simp [further, globalScope, one]
  · simp [same]

/-- While no name is declared in both halves, one more declaration finds the same binding or none, or is
the first to declare its name in the other half. -/
theorem Tables.declare (listed : Listed s') :
    Clash (s'.declare t kind) ∨ Tables (s.declare t kind) (s'.declare t kind) := by
  have target := h.target_eq kind
  refine (tables.find?_target t kind h).imp_right fun known => ?_
  cases found : (declarationsIn s.scopes (s.target kind)).find? t.lexeme with
  | some b =>
    rw [found] at known
    obtain ⟨x', at_b', _, owner⟩ := listed _ _ _ (mem_of_find? known)
    rw [declare_again t kind known, declare_again t kind found]
    refine { tables with bindings := ?_ }
    rw [tables.bindings, Array.getElem?_map] at at_b'
    obtain ⟨x, at_b, rfl⟩ := Option.map_eq_some_iff.mp at_b'
    have same : kind.home x.scope = x.kind.home x.scope := by
      have own : x.kind.home x.scope = kind.home (s.target kind) := owner.trans target
      rw [own, BindingKind.home_inj own]
    have again : (x.redeclare kind t.span).halved = x.halved.redeclare kind t.span := by
      simp only [Binding.halved, Binding.redeclare, same]
    apply Array.ext_getElem?
    intro i
    simp only [tables.bindings, Array.getElem?_modify, Array.getElem?_map]
    by_cases here : b = i
    · subst here
      simp [at_b, again]
    · simp [here]
  | none =>
    rw [found] at known
    obtain ⟨bindings, declared⟩ := declare_new t kind found
    obtain ⟨bindings', declared'⟩ := declare_new t kind known
    have sizes : s'.bindings.size = s.bindings.size := by rw [tables.bindings, Array.size_map]
    have size := h.size_eq
    refine ⟨?_, fun i inner => ?_, fun name => ?_⟩
    · rw [bindings, bindings', Array.map_push, tables.bindings, target, Array.size_map]
      rfl
    · rw [declared, declared', tables.other i inner, sizes]
      have there : s'.target kind = i + 1 ∧ i + 1 < s'.scopes.size ↔
          s.target kind = i ∧ i < s.scopes.size := by
        rw [target, size, Nat.succ_lt_succ_iff]
        refine and_congr_left fun _ => ?_
        unfold BindingKind.home
        split
        · next out =>
          rw [out.2]
          exact ⟨fun same => absurd same (Nat.succ_ne_zero _).symm, fun same => absurd same.symm inner⟩
        · exact Nat.succ_inj
      simp only [there]
    · exact tables.global_declare t kind h found known name

end

end

/-! ## The two runs -/

/-- The runs are split, and the bindings are the same unless a name was declared in both halves. -/
structure Alongside (s s' : State) : Prop where
  split : Split s s'
  shared : Shared s s'
  tables : Clash s' ∨ Tables s s'

theorem alongside_start : Alongside .start .halved := ⟨split_start, shared_start, .inr tables_start⟩

namespace Alongside

variable (h : Alongside s s')
include h

/-- What declares nothing leaves the tables as they are. -/
theorem keep {u u' : State} (split : Split u u') (change : Change (fun _ => False) s u)
    (bindings : u.bindings = s.bindings)
    (bindings' : u'.bindings = s'.bindings)
    (declared : ∀ i, declarationsIn u.scopes i = declarationsIn s.scopes i)
    (declared' : ∀ i, declarationsIn u'.scopes i = declarationsIn s'.scopes i) :
    Alongside u u' := by
  refine ⟨split, ⟨h.shared.listed.of_eq bindings declared, h.shared.listed'.of_eq bindings' declared',
    ?_⟩, ?_⟩
  · have same (i : Nat) (name : String) : declaredAt u i name = declaredAt s i name := by
      rw [declaredAt, declaredAt, declared, bindings]
    have same' (i : Nat) (name : String) : declaredAt u' i name = declaredAt s' i name := by
      rw [declaredAt, declaredAt, declared', bindings']
    obtain ⟨made, history⟩ := h.shared.history
    exact ⟨made, history.declares.still change, fun name => (same _ _).trans (history.whole name),
      fun name => (same' _ _).trans (history.outer name),
      fun name => (same' _ _).trans (history.inner name)⟩
  · rcases h.tables with ⟨name, outer, inner⟩ | tables
    · exact .inl ⟨name, by rw [declared']; exact outer, by rw [declared']; exact inner⟩
    · refine .inr ⟨?_, fun i inner => ?_, fun name => ?_⟩
      · rw [bindings, bindings', tables.bindings]
      · rw [declared, declared', tables.other i inner]
      · rw [declared, declared', declared', tables.global]

theorem consume (t : Token) : Alongside (s.consume t) (s'.consume t) :=
  h.keep (h.split.consume t) (.consume s t) rfl rfl (fun _ => rfl) fun _ => rfl

theorem behind (c : Context) : Alongside (c.behind s) (c.behind s') := by
  have behind := h.consume (c.token s.pos)
  rw [Context.behind, Context.behind, h.split.pos]
  exact behind

theorem declare (t : Token) (kind : BindingKind) :
    Alongside (s.declare t kind) (s'.declare t kind) := by
  refine ⟨(h.split.declare_left t kind).declare_right t kind, h.shared.declare t kind h.split, ?_⟩
  rcases h.tables with clash | tables
  · exact .inl (clash.declare t kind)
  · exact tables.declare t kind h.split h.shared.listed'

end Alongside

variable {c : Context}

/-- A program is read in the same way whether or not the global scope is in halves. -/
def simulation (c : Context) : Simulation c c where
  rel := Alongside
  same := Eq
  fails _ _ := True
  lost _ := True
  ids i i' := i ≠ globalScope ∧ i' = i + 1
  shift := 0
  rounds := .refl
  arrows _ := rfl
  alike same := .inl (same ▸ .refl _)
  pos h := h.split.pos
  here h := by rw [h.split.pos]
  next h _ := by rw [h.split.pos]
  afterNext h _ := by rw [h.split.pos]
  operand h _ := by rw [h.split.prev]
  closesTop {s s'} h closes := by
    obtain ⟨inner, last, bottom, _, frames', _⟩ := h.split.frames
    unfold closesTop at closes ⊢
    rw [frames', h.split.pos]
    cases top : s.frames with
    | nil =>
      rw [top] at closes
      cases closes
    | cons f rest =>
      rw [top] at closes
      obtain ⟨_, opener, _⟩ := f
      cases opener with
      | brace place => exact closes
      | _ => cases closes
  behind h _ := h.behind c
  select {s s'} h _ := by
    have first := h.behind c
    unfold Context.behindSelector
    rw [first.split.pos]
    split
    · exact first.behind c
    · exact first
  refer {s s' t t'} h same _ := by
    subst same
    exact h.keep (h.split.refer t) (.refer _ t) rfl rfl (fun _ => rfl) fun _ => rfl
  declare {s s' t t'} kind h same _ := by
    subst same
    exact h.declare t kind
  enter h allowed := ⟨by rw [h.split.depth]; exact allowed,
    h.keep h.split.deepen (.deepen _) rfl rfl (fun _ => rfl) fun _ => rfl⟩
  tooDeep _ _ := .inl trivial
  leave h := h.keep h.split.rise (.rise _) rfl rfl (fun _ => rfl) fun _ => rfl
  openScope {s s' label label'} kind opener h _ labels := by
    have label := labels.eq fun _ _ => id
    have notGlobal : s.scopes.size ≠ globalScope := Nat.ne_of_gt h.split.nonempty
    rw [label, Opener.moved_zero, h.split.pos]
    exact ⟨⟨notGlobal, h.split.size_eq⟩, h.keep (h.split.pushScope _ _ _ _) (.push _ _ _ _ _) rfl rfl
      (fun _ => declarationsIn_push) fun _ => declarationsIn_push⟩
  reopen {s s'} opener h := by
    rw [Opener.moved_zero]
    exact h.keep (h.split.reopen opener) (.reopen s opener) (s.reopen_bindings opener) (s'.reopen_bindings opener)
      (fun _ => by rw [State.reopen_scopes]) fun _ => by rw [State.reopen_scopes]
  closeScope {s s' f id'} h top ids := by
    obtain ⟨inside, rfl⟩ := ids
    obtain ⟨inner, last, bottom, _, frames', _⟩ := h.split.frames
    have ends : s'.prevEnd = s.prevEnd := by rw [State.prevEnd, State.prevEnd, h.split.prev]
    rw [ends]
    refine ⟨f.halved, ?_, rfl, h.keep (h.split.popScope top inside _) (.pop _ _ _) rfl rfl
      (fun _ => declarationsIn_pop) fun _ => declarationsIn_pop⟩
    rw [frames']
    cases frames : s.frames with
    | nil =>
      rw [frames] at top
      cases top
    | cons g rest =>
      rw [frames] at top
      obtain rfl : g = f := Option.some.inj top
      rfl
  unexpected _ _ := trivial
  refused _ _ := trivial

/-- A program that is read is read with the global scope in halves as well. -/
theorem run_halved {level rounds : Nat}
    (ran : ((programFor (Grammar.level level) rounds).run c).run .start = .ok ((), s)) :
    ∃ s', ((programFor (Grammar.level level) rounds).run c).run .halved = .ok ((), s') ∧
      Alongside s s' := by
  have meets := programFor_inStep (level_inStep (simulation c) (Nat.le_refl level))
    (fun {s s'} (h : Alongside s s') => by rw [h.split.pos]) (Nat.le_refl rounds) alongside_start
  rw [ran] at meets
  obtain ⟨_, s', ran', _, alongside⟩ := meets
  exact ⟨s', ran', alongside⟩

end Halves

/-! ## Names declared both ways -/

/-- The names that the global scope declares both by `var` or `function` and by `let` or `const`. With a
block open inside the global scope the declarations of the first kind leave it and the others do not
(`Halves.Split.target_eq`). -/
def bothWays (c : Context) : List String :=
  match ((programFor (Grammar.level c.levels) c.rounds).run c).run .halved with
  | .error _ => []
  | .ok (_, s) => ((declarationsIn s.scopes globalScope).toList.map (·.1)).filter fun name =>
      ((declarationsIn s.scopes 1).find? name).isSome

variable {c : Context} {s s' : State} {name : String}

theorem mem_bothWays
    (ran : ((programFor (Grammar.level c.levels) c.rounds).run c).run .halved = .ok ((), s')) :
    name ∈ bothWays c ↔ ((declarationsIn s'.scopes globalScope).find? name).isSome ∧
      ((declarationsIn s'.scopes 1).find? name).isSome := by
  have listed : name ∈ (declarationsIn s'.scopes globalScope).toList.map (·.1) ↔
      ((declarationsIn s'.scopes globalScope).find? name).isSome := by
    simp [Declarations.find?]
  unfold bothWays
  rw [ran]
  dsimp only
  rw [List.mem_filter, listed]

theorem not_clash (apart : bothWays c = [])
    (ran : ((programFor (Grammar.level c.levels) c.rounds).run c).run .halved = .ok ((), s')) :
    ¬ Halves.Clash s' := by
  rintro ⟨name, both⟩
  have mem := (mem_bothWays ran).mpr both
  rw [apart] at mem
  cases mem

/-- The names declared both ways are those that a run declares in the global scope by declarations of both
kinds. -/
theorem mem_bothWays_iff
    (ran : ((programFor (Grammar.level c.levels) c.rounds).run c).run .start = .ok ((), s)) :
    ∃ made, DeclaredGlobally s made ∧
      (∀ name, declaredAt s globalScope name = placesOf made name fun _ => true) ∧
      ∀ name, name ∈ bothWays c ↔
        (∃ d ∈ made, d.1.lexeme = name ∧ d.2.hoists = true) ∧
          ∃ d ∈ made, d.1.lexeme = name ∧ d.2.hoists = false := by
  obtain ⟨s', ran', alongside⟩ := Halves.run_halved ran
  obtain ⟨made, history⟩ := alongside.shared.history
  refine ⟨made, history.declares, history.whole, fun name => ?_⟩
  have listed' := alongside.shared.listed'
  rw [mem_bothWays ran', ← Halves.declaredAt_ne_nil listed', ← Halves.declaredAt_ne_nil listed',
    history.outer, history.inner, placesOf_ne_nil, placesOf_ne_nil]
  simp only [Bool.not_eq_true']

end Builder

end Scoping
