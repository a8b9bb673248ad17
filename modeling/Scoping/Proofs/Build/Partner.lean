import Scoping.Build.Bracket

/-!
# Partners of brackets

The pass over the tokens settles a pair when it meets the closing bracket, and never touches the pair
again. So a bracket that stands innermost open before some place is the partner of a closing bracket
of its shape at that place (`partner_of_opened`), whatever comes behind. What is open after a prefix
is told token by token (`opened_of_opens` and its companions).
-/

namespace Scoping

/-- The shape that a token opens. -/
def Token.opens? (t : Token) : Option Bracket :=
  match t.kind with
  | .punctuation p => p.opens?
  | _ => none

/-- The shape that a token closes. -/
def Token.closes? (t : Token) : Option Bracket :=
  match t.kind with
  | .punctuation p => p.closes?
  | _ => none

/-- A token with a shape to open closes none. -/
theorem Token.closes?_of_opens? {t : Token} {b : Bracket} (h : t.opens? = some b) :
    t.closes? = none := by
  unfold Token.opens? at h
  unfold Token.closes?
  split at h
  · next p kind => cases p <;> first | rfl | exact nomatch h
  · cases h

namespace BracketScan

/-! ## One token -/

theorem step_of_opens {b : BracketScan} {t : Token} {shape : Bracket} (h : t.opens? = some shape) :
    b.step t = b.enter shape := by
  unfold Token.opens? at h
  unfold step
  cases kind : t.kind with
  | punctuation p =>
    rw [kind] at h
    have h : p.opens? = some shape := h
    simp only [h]
  | _ =>
    rw [kind] at h
    cases h

theorem step_of_closes {b : BracketScan} {t : Token} {shape : Bracket}
    (h : t.closes? = some shape) : b.step t = b.leave shape := by
  have silent : t.opens? = none := by
    cases opens : t.opens? with
    | none => rfl
    | some _ => exact nomatch (Token.closes?_of_opens? opens).symm.trans h
  unfold Token.closes? at h
  unfold Token.opens? at silent
  unfold step
  cases kind : t.kind with
  | punctuation p =>
    rw [kind] at h silent
    have h : p.closes? = some shape := h
    have silent : p.opens? = none := silent
    simp only [silent, h]
  | _ =>
    rw [kind] at h
    cases h

theorem step_of_neither {b : BracketScan} {t : Token} (opens : t.opens? = none)
    (closes : t.closes? = none) : b.step t = b.skip := by
  unfold Token.opens? at opens
  unfold Token.closes? at closes
  unfold step
  cases kind : t.kind with
  | punctuation p =>
    rw [kind] at opens closes
    have opens : p.opens? = none := opens
    have closes : p.closes? = none := closes
    simp only [opens, closes]
  | _ => rfl

/-- A step either passes over its token, opens a bracket, or settles the innermost open one. -/
theorem step_cases (b : BracketScan) (t : Token) :
    b.step t = b.skip ∨ (∃ shape, t.opens? = some shape ∧ b.step t = b.enter shape) ∨
      ∃ place shape below, t.closes? = some shape ∧ b.opened = (place, shape) :: below ∧
        b.step t = ⟨(b.partners.setIfInBounds place (some b.partners.size)).push (some place),
          below⟩ := by
  cases opens : t.opens? with
  | some shape => exact .inr (.inl ⟨shape, rfl, step_of_opens opens⟩)
  | none =>
    cases closes : t.closes? with
    | none => exact .inl (step_of_neither opens closes)
    | some shape =>
      rw [step_of_closes closes]
      unfold leave
      split
      · next place top below opened =>
        split
        · next same => exact .inr (.inr ⟨place, shape, below, rfl, same ▸ opened, rfl⟩)
        · exact .inl rfl
      · exact .inl rfl

/-! ## The open brackets -/

/-- The open brackets stand at different places of the prefix, innermost last. -/
def Tidy (b : BracketScan) : Prop :=
  (b.partners.size :: b.opened.map Prod.fst).Pairwise (· > ·)

theorem tidy_start : start.Tidy := by simp [Tidy, start]

theorem size_step (b : BracketScan) (t : Token) :
    (b.step t).partners.size = b.partners.size + 1 := by
  rcases b.step_cases t with e | ⟨shape, _, e⟩ | ⟨place, shape, below, _, _, e⟩ <;>
    simp [e, skip, enter]

theorem Tidy.step {b : BracketScan} (h : b.Tidy) (t : Token) : (b.step t).Tidy := by
  unfold Tidy at h ⊢
  rw [List.pairwise_cons] at h
  rw [size_step, List.pairwise_cons]
  rcases b.step_cases t with e | ⟨shape, _, e⟩ | ⟨place, shape, below, _, opened, e⟩
  · rw [e]
    exact ⟨fun p hp => Nat.lt_succ_of_lt (h.1 p hp), h.2⟩
  · rw [e]
    refine ⟨fun p hp => ?_, List.pairwise_cons.mpr h⟩
    rcases List.mem_cons.mp hp with rfl | hp
    · exact Nat.lt_succ_self _
    · exact Nat.lt_succ_of_lt (h.1 p hp)
  · rw [e]
    rw [opened, List.map_cons, List.pairwise_cons] at h
    exact ⟨fun p hp => Nat.lt_succ_of_lt (h.1 p (List.mem_cons_of_mem _ hp)), h.2.2⟩

theorem Tidy.foldl {b : BracketScan} (h : b.Tidy) (ts : List Token) :
    (ts.foldl BracketScan.step b).Tidy := by
  induction ts generalizing b with
  | nil => exact h
  | cons t ts ih => exact ih (h.step t)

theorem size_foldl (b : BracketScan) (ts : List Token) :
    (ts.foldl BracketScan.step b).partners.size = b.partners.size + ts.length := by
  induction ts generalizing b with
  | nil => rfl
  | cons t ts ih => rw [List.foldl_cons, ih, size_step, List.length_cons]; omega

/-! ## Settled pairs -/

/-- What is known of a place that is not open stays known, a partner or that there is none. -/
theorem entry_step {b : BracketScan} {place : Nat} {entry : Option Nat}
    (known : b.partners[place]? = some entry) (closed : place ∉ b.opened.map Prod.fst) (t : Token) :
    (b.step t).partners[place]? = some entry ∧ place ∉ (b.step t).opened.map Prod.fst := by
  have inside : place < b.partners.size := (Array.getElem?_eq_some_iff.mp known).1
  have old {xs : Array (Option Nat)} {x : Option Nat} (size : xs.size = b.partners.size)
      (same : xs[place]? = some entry) : (xs.push x)[place]? = some entry := by
    rw [Array.getElem?_push, if_neg (by omega), same]
  rcases b.step_cases t with e | ⟨shape, _, e⟩ | ⟨top, shape, below, _, opened, e⟩
  · rw [e]
    exact ⟨old rfl known, closed⟩
  · rw [e]
    refine ⟨old rfl known, fun hp => ?_⟩
    rcases List.mem_cons.mp hp with same | hp
    · exact absurd same (by simpa using Nat.ne_of_lt inside)
    · exact closed hp
  · rw [e]
    rw [opened, List.map_cons, List.mem_cons, not_or] at closed
    refine ⟨old (by simp) ?_, closed.2⟩
    rw [Array.getElem?_setIfInBounds_ne (Ne.symm closed.1), known]

theorem entry_foldl {b : BracketScan} {place : Nat} {entry : Option Nat}
    (known : b.partners[place]? = some entry) (closed : place ∉ b.opened.map Prod.fst)
    (ts : List Token) : (ts.foldl BracketScan.step b).partners[place]? = some entry ∧
      place ∉ (ts.foldl BracketScan.step b).opened.map Prod.fst := by
  induction ts generalizing b with
  | nil => exact ⟨known, closed⟩
  | cons t ts ih =>
    obtain ⟨known, closed⟩ := entry_step known closed t
    exact ih known closed

/-- The bracket at `place` has its partner, and is open no more. -/
def Settled (b : BracketScan) (place partner : Nat) : Prop :=
  b.partners[place]? = some (some partner) ∧ place ∉ b.opened.map Prod.fst

theorem Settled.step {b : BracketScan} {place partner : Nat} (h : b.Settled place partner)
    (t : Token) : (b.step t).Settled place partner :=
  entry_step h.1 h.2 t

theorem Settled.foldl {b : BracketScan} {place partner : Nat} (h : b.Settled place partner)
    (ts : List Token) : (ts.foldl BracketScan.step b).Settled place partner :=
  entry_foldl h.1 h.2 ts

/-- A closing bracket settles the innermost open one if that has its shape. -/
theorem Tidy.settled {b : BracketScan} (tidy : b.Tidy) {t : Token} {place : Nat} {shape : Bracket}
    {below : List (Nat × Bracket)} (opened : b.opened = (place, shape) :: below)
    (closes : t.closes? = some shape) : (b.step t).Settled place b.partners.size := by
  rw [step_of_closes closes, leave, opened]
  simp only [↓reduceIte]
  rw [Tidy, opened, List.map_cons, List.pairwise_cons, List.pairwise_cons] at tidy
  have inside : place < b.partners.size := tidy.1 place List.mem_cons_self
  refine ⟨?_, fun hp => Nat.lt_irrefl _ (tidy.2.1 place hp)⟩
  rw [Array.getElem?_push, if_neg (by rw [Array.size_setIfInBounds]; omega),
    Array.getElem?_setIfInBounds_self_of_lt inside]

/-- The closing bracket is settled with it. -/
theorem Tidy.settled_closing {b : BracketScan} (tidy : b.Tidy) {t : Token} {place : Nat}
    {shape : Bracket} {below : List (Nat × Bracket)} (opened : b.opened = (place, shape) :: below)
    (closes : t.closes? = some shape) : (b.step t).Settled b.partners.size place := by
  rw [step_of_closes closes, leave, opened]
  simp only [↓reduceIte]
  rw [Tidy, opened, List.map_cons, List.pairwise_cons] at tidy
  refine ⟨?_, fun mem => ?_⟩
  · rw [Array.getElem?_push, Array.size_setIfInBounds, if_pos rfl]
  · exact Nat.lt_irrefl _ (tidy.1 _ (List.mem_cons_of_mem _ mem))

end BracketScan

/-! ## Prefixes of the tokens -/

/-- The pass over the first `n` tokens. -/
def bracketsTo (ts : List Token) (n : Nat) : BracketScan :=
  (ts.take n).foldl BracketScan.step .start

theorem bracketsTo_succ {ts : List Token} {n : Nat} {t : Token} (h : ts[n]? = some t) :
    bracketsTo ts (n + 1) = (bracketsTo ts n).step t := by
  unfold bracketsTo
  rw [List.take_add_one, h, Option.toList_some, List.foldl_append]
  rfl

theorem tidy_bracketsTo (ts : List Token) (n : Nat) : (bracketsTo ts n).Tidy :=
  BracketScan.tidy_start.foldl _

theorem size_bracketsTo {ts : List Token} {n : Nat} (h : n ≤ ts.length) :
    (bracketsTo ts n).partners.size = n := by
  rw [bracketsTo, BracketScan.size_foldl, List.length_take_of_le h]
  exact Nat.zero_add n

theorem size_matchBrackets (ts : List Token) : (matchBrackets ts).size = ts.length :=
  (BracketScan.size_foldl .start ts).trans (Nat.zero_add _)

/-- All the tokens are those of a prefix and the rest. -/
theorem matchBrackets_eq_foldl (ts : List Token) (n : Nat) : matchBrackets ts =
    ((ts.drop n).foldl BracketScan.step (bracketsTo ts n)).partners := by
  rw [bracketsTo, ← List.foldl_append, List.take_append_drop]
  rfl

/-- The innermost open bracket before a closing one of its shape is its partner in all the tokens. -/
theorem partner_of_opened {ts : List Token} {place close : Nat} {t : Token} {shape : Bracket}
    {below : List (Nat × Bracket)} (at_close : ts[close]? = some t)
    (closes : t.closes? = some shape)
    (opened : (bracketsTo ts close).opened = (place, shape) :: below) :
    (matchBrackets ts)[place]? = some (some close) := by
  have settled := (tidy_bracketsTo ts close).settled opened closes
  have inside : close < ts.length := (List.getElem?_eq_some_iff.mp at_close).1
  rw [size_bracketsTo (Nat.le_of_lt inside), ← bracketsTo_succ at_close] at settled
  rw [matchBrackets_eq_foldl ts (close + 1)]
  exact (settled.foldl _).1

/-! ## What is open after one more token -/

theorem opened_of_neither {ts : List Token} {n : Nat} {t : Token} (h : ts[n]? = some t)
    (opens : t.opens? = none) (closes : t.closes? = none) :
    (bracketsTo ts (n + 1)).opened = (bracketsTo ts n).opened := by
  rw [bracketsTo_succ h, BracketScan.step_of_neither opens closes]
  rfl

theorem opened_of_opens {ts : List Token} {n : Nat} {t : Token} {shape : Bracket}
    (h : ts[n]? = some t) (opens : t.opens? = some shape) :
    (bracketsTo ts (n + 1)).opened = (n, shape) :: (bracketsTo ts n).opened := by
  have inside : n < ts.length := (List.getElem?_eq_some_iff.mp h).1
  rw [bracketsTo_succ h, BracketScan.step_of_opens opens, BracketScan.enter,
    size_bracketsTo (Nat.le_of_lt inside)]

theorem opened_of_closes {ts : List Token} {n place : Nat} {t : Token} {shape : Bracket}
    {below : List (Nat × Bracket)} (h : ts[n]? = some t) (closes : t.closes? = some shape)
    (opened : (bracketsTo ts n).opened = (place, shape) :: below) :
    (bracketsTo ts (n + 1)).opened = below := by
  rw [bracketsTo_succ h, BracketScan.step_of_closes closes, BracketScan.leave, opened]
  simp only [↓reduceIte]

end Scoping
