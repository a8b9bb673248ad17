import Scoping.Proofs.Build.Finish
import Scoping.Proofs.Text.Line

/-!
# Where scopes begin and end

A scope begins where a token does, and ends where one does. So what holds at both ends of every token
holds at both ends of every range (`Walk.edged`); in particular no range cuts a character in two
(`Context.marked_boundary`).
-/

namespace Scoping

/-- No token cuts a character in two. -/
theorem Tiling.boundary {before cs : List Char} {ts : List Token}
    (h : Tiling (byteSize before) cs ts) :
    ∀ t ∈ ts, Boundary (before ++ cs) t.span.start ∧ Boundary (before ++ cs) t.span.stop := by
  generalize place : byteSize before = offset at h
  induction h generalizing before with
  | @last offset gap t _ _ _ span =>
    subst place
    intro u mem
    rw [List.mem_singleton.mp mem, span, ← byteSize_append]
    have atEnd : Boundary (before ++ gap) (byteSize (before ++ gap)) :=
      ⟨before ++ gap, [], (List.append_nil _).symm, rfl⟩
    exact ⟨atEnd, atEnd⟩
  | @token offset gap body rest t ts _ _ _ _ span _ ih =>
    subst place
    intro u mem
    rcases List.mem_cons.mp mem with rfl | mem
    · rw [span, ← byteSize_append, ← byteSize_append]
      exact ⟨⟨before ++ gap, body ++ rest, by simp, rfl⟩, ⟨before ++ gap ++ body, rest, by simp, rfl⟩⟩
    · have behind := @ih (before ++ (gap ++ body)) (by simp [Nat.add_assoc]) u mem
      simpa only [List.append_assoc] using behind

namespace Builder

variable {c : Context} {s t : State} {P : Nat → Prop}

/-- Something holds at the beginning of the source, and where tokens begin and end. -/
structure Context.Marked (c : Context) (P : Nat → Prop) : Prop where
  zero : P 0
  start : ∀ n, P (c.token n).span.start
  stop : ∀ n, P (c.token n).span.stop

/-- It holds at the cursor, and where ranges begin and end. -/
structure Edged (P : Nat → Prop) (s : State) : Prop where
  prevEnd : P s.prevEnd
  start : ∀ i, P (rangeIn s.scopes i).start
  stop : ∀ i, P (rangeIn s.scopes i).stop

theorem edged_start (zero : P 0) : Edged P .start := by
  have range (i : Nat) : rangeIn State.start.scopes i = .point 0 := by
    cases i <;> rfl
  constructor
  case prevEnd => exact zero
  case start => intro i; rw [range]; exact zero
  case stop => intro i; rw [range]; exact zero

namespace Edged

theorem still (edged : Edged P s) (still : Still s t) : Edged P t := by
  constructor
  case prevEnd => rw [still.prevEnd]; exact edged.prevEnd
  case start => intro i; rw [still.range]; exact edged.start i
  case stop => intro i; rw [still.range]; exact edged.stop i

theorem behind (edged : Edged P s) (marked : c.Marked P) : Edged P (c.behind s) where
  prevEnd := marked.stop s.pos
  start := edged.start
  stop := edged.stop

theorem push {kind : ScopeKind} {label : String} {start : Nat} {opener : Opener}
    (edged : Edged P s) (begins : P start) : Edged P (s.pushScope kind label start opener) := by
  have range (i : Nat) : rangeIn (s.pushScope kind label start opener).scopes i = .point start ∨
      rangeIn (s.pushScope kind label start opener).scopes i = rangeIn s.scopes i := by
    rcases Nat.lt_trichotomy i s.scopes.size with old | rfl | beyond
    · exact .inr (rangeIn_push_old old)
    · exact .inl rangeIn_push_new
    · right
      unfold rangeIn
      rw [Array.getElem?_eq_none (Nat.le_of_lt beyond),
        Array.getElem?_eq_none (by rw [State.pushScope_size]; exact beyond)]
  constructor
  case prevEnd => exact edged.prevEnd
  case start =>
    intro i
    rcases range i with new | old
    · rw [new]; exact begins
    · rw [old]; exact edged.start i
  case stop =>
    intro i
    rcases range i with new | old
    · rw [new]; exact begins
    · rw [old]; exact edged.stop i

theorem leave (edged : Edged P s) {id : ScopeId} (inside : id < s.scopes.size) :
    Edged P (s.popScope id s.prevEnd) := by
  constructor
  case prevEnd => exact edged.prevEnd
  case start =>
    intro i
    rw [rangeIn_pop_start inside]
    exact edged.start i
  case stop =>
    intro i
    by_cases same : i = id
    · rw [same, rangeIn_pop_self inside]
      exact edged.prevEnd
    · rw [rangeIn_pop_other same]
      exact edged.stop i

theorem move (edged : Edged P s) (marked : c.Marked P) (shaped : Shaped c s) (move : Move c s t) :
    Edged P t := by
  cases move with
  | level n => exact edged.still (still_level s n)
  | ahead _ => exact edged.behind marked
  | use _ => exact (edged.behind marked).still (still_refer _ _)
  | name _ _ => exact (edged.behind marked).still (still_declare _ _ _)
  | enter _ opening =>
    cases opening with
    | plain _ => exact (edged.still (still_level s _)).push (marked.start s.pos)
    | named _ _ =>
      have deeper : Edged P (c.behind s).deepen := (edged.behind marked).still (still_level _ _)
      exact (deeper.push (marked.start _)).still (still_declare _ _ _)
  | reopen opener => exact edged.still (still_reopen s opener)
  | leave top _ _ _ => exact edged.leave (shaped.top_lt top)

end Edged

/-- What holds at the ends of tokens holds at the ends of ranges. -/
theorem Walk.edged (w : Walk c .start s) (marked : c.Marked P) : Edged P s := by
  have all : Shaped c s ∧ Edged P s := by
    apply w.keeps (I := fun s => Shaped c s ∧ Edged P s) _ start_leveled
      ⟨shaped_start, edged_start marked.zero⟩
    rintro s t move ⟨shaped, edged⟩
    exact ⟨shaped.move move, edged.move marked shaped move⟩
  exact all.2

/-- It then holds at the ends of the ranges of the finished tree. -/
theorem Edged.tree (edged : Edged P s) (marked : c.Marked P) (shaped : Shaped c s) :
    ∀ x ∈ (s.tree c.sourceSize).scopes, P x.range.start ∧ P x.range.stop := by
  intro x mem
  obtain ⟨i, at_i⟩ := Array.mem_iff_getElem?.mp mem
  rw [← rangeIn_of_getElem? at_i]
  by_cases root : i = globalScope
  · have final : c.token c.tokens.size = c.final := by
      rw [Context.token, Array.getD_eq_getD_getElem?, Array.getElem?_eq_none (Nat.le_refl _),
        Option.getD_none]
    have size : P c.sourceSize := by
      rw [Context.sourceSize, ← final]
      exact marked.stop _
    rw [root, rangeIn_tree_root shaped]
    exact ⟨marked.zero, size⟩
  · rw [rangeIn_tree_inner _ root]
    exact ⟨edged.start i, edged.stop i⟩

/-! ## Ends of characters -/

/-- Whatever place is looked at, a token stands there. -/
theorem Context.Formed.token_mem (formed : c.Formed) (n : Nat) : c.token n ∈ c.tokens := by
  rw [Context.token, Array.getD_eq_getD_getElem?]
  cases at_n : c.tokens[n]? with
  | some t => exact Array.mem_of_getElem? at_n
  | none =>
    have last := formed.last
    rw [Array.back?_eq_getElem?] at last
    exact Array.mem_of_getElem? last

/-- The tokens of a source begin and end where characters do. -/
theorem Context.marked_boundary {cs : List Char} {ts : List Token} (tiling : Tiling 0 cs ts)
    (tokens : c.tokens = (significant ts).toArray) (formed : c.Formed) : c.Marked (Boundary cs) := by
  have whole : Tiling (byteSize []) cs ts := tiling
  have ends (n : Nat) : Boundary cs (c.token n).span.start ∧ Boundary cs (c.token n).span.stop := by
    have mem := formed.token_mem n
    rw [tokens, List.mem_toArray] at mem
    exact whole.boundary _ (List.mem_filter.mp mem).1
  exact ⟨⟨[], cs, rfl, rfl⟩, fun n => (ends n).1, fun n => (ends n).2⟩

end Builder

end Scoping
