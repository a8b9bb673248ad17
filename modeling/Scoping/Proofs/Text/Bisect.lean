import Scoping.Text.Bisect

/-!
# What a binary search finds

Where the positions that satisfy a predicate come before all others, their number is found
(`bisect_eq`): that number stays between the ends of the interval, and a step leaves a shorter one.
They come first where the predicate is passed on downwards (`bisect_spec`).
-/

namespace Scoping

variable {p : Nat → Bool} {m n : Nat}

theorem bisectBetween_eq {fuel lo hi : Nat} (below : ∀ i < m, p i = true)
    (above : ∀ i, m ≤ i → i < n → p i = false) (left : lo ≤ m) (right : m ≤ hi) (inside : hi ≤ n)
    (enough : hi - lo ≤ fuel) : bisectBetween p fuel lo hi = m := by
  induction fuel generalizing lo hi with
  | zero =>
    show lo = m
    omega
  | succ fuel ih =>
    unfold bisectBetween
    by_cases wide : lo < hi
    · rw [if_pos wide]
      by_cases before : (lo + hi) / 2 < m
      · simp only [below _ before, ↓reduceIte]
        apply ih <;> omega
      · have outside : p ((lo + hi) / 2) = false := above _ (by omega) (by omega)
        simp only [outside, Bool.false_eq_true, ↓reduceIte]
        apply ih <;> omega
    · rw [if_neg wide]
      omega

/-- The search finds how many positions satisfy the predicate, where those are the first ones. -/
theorem bisect_eq (below : ∀ i < m, p i = true) (above : ∀ i, m ≤ i → i < n → p i = false)
    (inside : m ≤ n) : bisect p n = m :=
  bisectBetween_eq below above (Nat.zero_le m) inside (Nat.le_refl n) (Nat.le_refl n)

/-- What satisfies a predicate that is passed on downwards are the first positions. -/
theorem exists_initial (down : ∀ i j, i ≤ j → j < n → p j = true → p i = true) :
    ∃ m ≤ n, (∀ i < m, p i = true) ∧ ∀ i, m ≤ i → i < n → p i = false := by
  induction n with
  | zero => exact ⟨0, Nat.le_refl 0, fun i less => by omega, fun i _ less => by omega⟩
  | succ n ih =>
    cases last : p n with
    | true =>
      refine ⟨n + 1, Nat.le_refl _, ?_, fun i _ _ => by omega⟩
      intro i less
      exact down i n (by omega) (by omega) last
    | false =>
      obtain ⟨m, le, below, above⟩ := ih fun i j le less => down i j le (by omega)
      refine ⟨m, by omega, below, ?_⟩
      intro i from_m less
      rcases Nat.lt_succ_iff_lt_or_eq.mp less with before | rfl
      · exact above i from_m before
      · exact last

/-- For such a predicate the search finds where it stops to hold. -/
theorem bisect_spec (down : ∀ i j, i ≤ j → j < n → p j = true → p i = true) :
    bisect p n ≤ n ∧ ∀ i < n, p i = true ↔ i < bisect p n := by
  obtain ⟨m, le, below, above⟩ := exists_initial down
  rw [bisect_eq below above le]
  refine ⟨le, ?_⟩
  intro i less
  constructor
  · intro holds
    apply Nat.lt_of_not_le
    intro further
    rw [above i further less] at holds
    cases holds
  · exact below i

end Scoping
