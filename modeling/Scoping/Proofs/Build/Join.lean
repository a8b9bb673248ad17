import Scoping.Proofs.Build.Partner

/-!
# Joined brackets

The pass over the tokens writes a pair in one case only: a closing bracket finds a bracket of its shape
innermost open before it, and the two are joined (`Joined`). So the partners are told by what is open
behind each prefix (`partner_iff_joined`), whatever was passed over on the way and whatever comes
behind.

Two facts about open brackets then tell where partners stand. A bracket that is open was open ever
since it was read (`mem_opened_of_le`), and the innermost one is the last that was read
(`Joined.le_of_mem`). Hence what stands inside a pair has its partner inside (`Joined.inside`).
-/

namespace Scoping

variable {ts : List Token} {m n : Nat}

/-! ## Open brackets -/

/-- What is open behind a token was open before it, unless the token itself opens it. -/
theorem mem_opened_succ {t : Token} {place : Nat} {shape : Bracket} (at_n : ts[n]? = some t)
    (mem : (place, shape) ∈ (bracketsTo ts (n + 1)).opened) :
    (place, shape) ∈ (bracketsTo ts n).opened ∨ (place = n ∧ t.opens? = some shape) := by
  rw [bracketsTo_succ at_n] at mem
  rcases (bracketsTo ts n).step_cases t with e | ⟨top, opens, e⟩ | ⟨top, _, below, _, opened, e⟩
  · rw [e] at mem
    exact .inl mem
  · rw [e] at mem
    rcases List.mem_cons.mp mem with same | mem
    · cases same
      have inside : n < ts.length := (List.getElem?_eq_some_iff.mp at_n).1
      exact .inr ⟨size_bracketsTo (Nat.le_of_lt inside), opens⟩
    · exact .inl mem
  · rw [e] at mem
    rw [opened]
    exact .inl (List.mem_cons_of_mem _ mem)

/-- What is open stands where a token opens it. -/
theorem opens_of_mem_opened {place : Nat} {shape : Bracket} (le : n ≤ ts.length)
    (mem : (place, shape) ∈ (bracketsTo ts n).opened) :
    ∃ t, ts[place]? = some t ∧ t.opens? = some shape := by
  induction n with
  | zero => cases mem
  | succ n ih =>
    have at_n := List.getElem?_eq_getElem le
    rcases mem_opened_succ at_n mem with mem | ⟨rfl, opens⟩
    · exact ih (Nat.le_of_lt le) mem
    · exact ⟨_, at_n, opens⟩

/-- It was open ever since it was read. -/
theorem mem_opened_of_le {place k : Nat} {shape : Bracket} (since : place < k) (upTo : k ≤ n)
    (le : n ≤ ts.length) (mem : (place, shape) ∈ (bracketsTo ts n).opened) :
    (place, shape) ∈ (bracketsTo ts k).opened := by
  induction upTo with
  | refl => exact mem
  | @step n upTo ih =>
    rcases mem_opened_succ (List.getElem?_eq_getElem le) mem with mem | ⟨rfl, _⟩
    · exact ih (Nat.le_of_lt le) mem
    · exact absurd since (Nat.not_lt.mpr upTo)

/-! ## Brackets that are joined -/

/-- The token at `n` closes the bracket at `m`: the innermost one that is open there, and of its
shape. -/
def Joined (ts : List Token) (m n : Nat) : Prop :=
  ∃ t shape below, ts[n]? = some t ∧ t.closes? = some shape ∧
    (bracketsTo ts n).opened = (m, shape) :: below

/-- The token at `m` opens a bracket of the shape that the one at `n` closes. -/
def SameShape (ts : List Token) (m n : Nat) : Prop :=
  ∃ first last shape, ts[m]? = some first ∧ ts[n]? = some last ∧
    first.opens? = some shape ∧ last.closes? = some shape

namespace Joined

theorem lt_length (h : Joined ts m n) : n < ts.length := by
  obtain ⟨_, _, _, at_n, _⟩ := h
  exact (List.getElem?_eq_some_iff.mp at_n).1

theorem mem_opened (h : Joined ts m n) : ∃ shape, (m, shape) ∈ (bracketsTo ts n).opened := by
  obtain ⟨_, shape, _, _, _, opened⟩ := h
  exact ⟨shape, opened ▸ List.mem_cons_self⟩

theorem lt (h : Joined ts m n) : m < n := by
  obtain ⟨shape, mem⟩ := h.mem_opened
  have tidy := tidy_bracketsTo ts n
  rw [BracketScan.Tidy, List.pairwise_cons, size_bracketsTo (Nat.le_of_lt h.lt_length)] at tidy
  exact tidy.1 m (List.mem_map_of_mem mem)

theorem sameShape (h : Joined ts m n) : SameShape ts m n := by
  have inside := h.lt_length
  obtain ⟨last, shape, below, at_n, closes, opened⟩ := h
  obtain ⟨first, at_m, opens⟩ :=
    opens_of_mem_opened (Nat.le_of_lt inside) (opened ▸ List.mem_cons_self)
  exact ⟨first, last, shape, at_m, at_n, opens, closes⟩

/-- It is the last of the brackets that are open there. -/
theorem le_of_mem {place : Nat} {shape : Bracket} (h : Joined ts m n)
    (mem : (place, shape) ∈ (bracketsTo ts n).opened) : place ≤ m := by
  obtain ⟨_, _, below, _, _, opened⟩ := h
  have tidy := tidy_bracketsTo ts n
  rw [BracketScan.Tidy, opened, List.map_cons, List.pairwise_cons, List.pairwise_cons] at tidy
  rw [opened] at mem
  rcases List.mem_cons.mp mem with same | mem
  · cases same
    exact Nat.le_refl _
  · exact Nat.le_of_lt (tidy.2.1 place (List.mem_map_of_mem mem))

/-- The closing bracket settles both. -/
theorem settled (h : Joined ts m n) :
    (bracketsTo ts (n + 1)).Settled m n ∧ (bracketsTo ts (n + 1)).Settled n m := by
  have size := size_bracketsTo (Nat.le_of_lt h.lt_length)
  obtain ⟨t, shape, below, at_n, closes, opened⟩ := h
  have tidy := tidy_bracketsTo ts n
  have first := tidy.settled opened closes
  have last := tidy.settled_closing opened closes
  rw [size] at first last
  rw [bracketsTo_succ at_n]
  exact ⟨first, last⟩

/-- Behind it the bracket is open no more. -/
theorem not_mem_opened {k : Nat} {shape : Bracket} (h : Joined ts m n) (behind : n < k)
    (le : k ≤ ts.length) : (m, shape) ∉ (bracketsTo ts k).opened := by
  intro mem
  have still := mem_opened_of_le (Nat.lt_succ_of_lt h.lt) behind le mem
  exact h.settled.1.2 (List.mem_map_of_mem still)

end Joined

/-! ## Partners -/

namespace BracketScan

/-- A partner that is known behind a token was known before it, or the token settles the pair. -/
theorem partner_step {b : BracketScan} {t : Token} (known : (b.step t).partners[m]? = some (some n)) :
    b.partners[m]? = some (some n) ∨ ∃ place shape below, t.closes? = some shape ∧
      b.opened = (place, shape) :: below ∧
      (m = place ∧ n = b.partners.size ∨ m = b.partners.size ∧ n = place) := by
  rcases b.step_cases t with e | ⟨_, _, e⟩ | ⟨place, shape, below, closes, opened, e⟩
  · rw [e, skip, Array.getElem?_push] at known
    split at known
    · cases known
    · exact .inl known
  · rw [e, enter, Array.getElem?_push] at known
    split at known
    · cases known
    · exact .inl known
  · rw [e, Array.getElem?_push, Array.size_setIfInBounds] at known
    split at known
    · next last =>
      cases known
      exact .inr ⟨n, shape, below, closes, opened, .inr ⟨last, rfl⟩⟩
    · rw [Array.getElem?_setIfInBounds] at known
      split at known
      · next same =>
        split at known
        · cases known
          exact .inr ⟨place, shape, below, closes, opened, .inl ⟨same.symm, rfl⟩⟩
        · cases known
      · exact .inl known

end BracketScan

/-- Partners in a prefix are joined. -/
theorem joined_of_bracketsTo {k : Nat} (le : k ≤ ts.length)
    (known : (bracketsTo ts k).partners[m]? = some (some n)) : Joined ts m n ∨ Joined ts n m := by
  induction k with
  | zero => cases known
  | succ k ih =>
    have at_k := List.getElem?_eq_getElem le
    rw [bracketsTo_succ at_k] at known
    rcases BracketScan.partner_step known with known | ⟨place, shape, below, closes, opened, ends⟩
    · exact ih (Nat.le_of_lt le) known
    · have joined : Joined ts place k := ⟨_, shape, below, at_k, closes, opened⟩
      rw [size_bracketsTo (Nat.le_of_lt le)] at ends
      rcases ends with ⟨rfl, rfl⟩ | ⟨rfl, rfl⟩
      · exact .inl joined
      · exact .inr joined

/-- Partners are the brackets that are joined, one way round or the other. -/
theorem partner_iff_joined :
    (matchBrackets ts)[m]? = some (some n) ↔ Joined ts m n ∨ Joined ts n m := by
  constructor
  · intro partner
    rw [matchBrackets_eq_foldl ts ts.length, List.drop_length, List.foldl_nil] at partner
    exact joined_of_bracketsTo (Nat.le_refl _) partner
  · rintro (joined | joined)
    · rw [matchBrackets_eq_foldl ts (n + 1)]
      exact (joined.settled.1.foldl _).1
    · rw [matchBrackets_eq_foldl ts (m + 1)]
      exact (joined.settled.2.foldl _).1

/-- Partners are partners of each other. -/
theorem partner_comm :
    (matchBrackets ts)[m]? = some (some n) ↔ (matchBrackets ts)[n]? = some (some m) := by
  rw [partner_iff_joined, partner_iff_joined, or_comm]

/-- Of two partners the first is joined to the last. -/
theorem joined_of_lt (partner : (matchBrackets ts)[m]? = some (some n)) (lt : m < n) :
    Joined ts m n := by
  rcases partner_iff_joined.mp partner with joined | joined
  · exact joined
  · exact absurd lt (Nat.lt_asymm joined.lt)

/-- A bracket that opens is joined to its partner. -/
theorem joined_of_opens {t : Token} {shape : Bracket}
    (partner : (matchBrackets ts)[m]? = some (some n)) (at_m : ts[m]? = some t)
    (opens : t.opens? = some shape) : Joined ts m n := by
  rcases partner_iff_joined.mp partner with joined | joined
  · exact joined
  · obtain ⟨_, _, _, _, at_m', _, closes⟩ := joined.sameShape
    rw [at_m] at at_m'
    cases at_m'
    rw [Token.closes?_of_opens? opens] at closes
    cases closes

/-- The partner of a bracket that closes is joined to it. -/
theorem joined_of_closes {t : Token} {shape : Bracket}
    (partner : (matchBrackets ts)[n]? = some (some m)) (at_n : ts[n]? = some t)
    (closes : t.closes? = some shape) : Joined ts m n := by
  rcases partner_iff_joined.mp partner with joined | joined
  · obtain ⟨_, _, _, at_n', _, opens, _⟩ := joined.sameShape
    rw [at_n] at at_n'
    cases at_n'
    rw [Token.closes?_of_opens? opens] at closes
    cases closes
  · exact joined

/-- What stands inside a pair has its partner inside. -/
theorem Joined.inside {i j k l : Nat} (outer : Joined ts i j)
    (inner : (matchBrackets ts)[k]? = some (some l)) (after : i < k) (before : k < j) :
    i < l ∧ l < j := by
  have outside := Nat.le_of_lt outer.lt_length
  obtain ⟨shape, opened⟩ := outer.mem_opened
  rcases partner_iff_joined.mp inner with joined | joined
  · refine ⟨Nat.lt_trans after joined.lt, Nat.lt_of_not_le fun beyond => ?_⟩
    -- the inner bracket would be open at `j`, and there `i` is the last one
    obtain ⟨shape', opened'⟩ := joined.mem_opened
    have still := mem_opened_of_le before beyond (Nat.le_of_lt joined.lt_length) opened'
    exact absurd (outer.le_of_mem still) (Nat.not_le.mpr after)
  · refine ⟨Nat.lt_of_le_of_ne ?_ fun same => ?_, Nat.lt_trans joined.lt before⟩
    · exact joined.le_of_mem (mem_opened_of_le after (Nat.le_of_lt before) outside opened)
    · subst same
      exact joined.not_mem_opened before outside opened

/-! ## A prefix by itself -/

theorem bracketsTo_take {k : Nat} (le : n ≤ k) : bracketsTo (ts.take k) n = bracketsTo ts n := by
  rw [bracketsTo, List.take_take, Nat.min_eq_left le, bracketsTo]

/-- In a prefix those are joined whose closing bracket lies in it. -/
theorem joined_take {k : Nat} : Joined (ts.take k) m n ↔ n < k ∧ Joined ts m n := by
  unfold Joined
  rw [List.getElem?_take]
  by_cases inside : n < k
  · rw [if_pos inside, bracketsTo_take (Nat.le_of_lt inside)]
    exact ⟨fun joined => ⟨inside, joined⟩, And.right⟩
  · rw [if_neg inside]
    constructor
    · rintro ⟨_, _, _, at_n, _⟩
      cases at_n
    · exact fun both => absurd both.1 inside

/-- The pairs of a prefix are those that lie in it. -/
theorem partner_take {k : Nat} : (matchBrackets (ts.take k))[m]? = some (some n) ↔
    (m < k ∧ n < k) ∧ (matchBrackets ts)[m]? = some (some n) := by
  rw [partner_iff_joined, partner_iff_joined, joined_take, joined_take]
  constructor
  · rintro (⟨inside, joined⟩ | ⟨inside, joined⟩)
    · exact ⟨⟨Nat.lt_trans joined.lt inside, inside⟩, .inl joined⟩
    · exact ⟨⟨inside, Nat.lt_trans joined.lt inside⟩, .inr joined⟩
  · rintro ⟨⟨first, last⟩, joined | joined⟩
    · exact .inl ⟨last, joined⟩
    · exact .inr ⟨first, joined⟩

end Scoping
