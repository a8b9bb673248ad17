import Scoping.Proofs.Build.Join
import Scoping.Proofs.Build.Paired
import Scoping.Proofs.Build.Slash

/-!
# The matching of brackets

What the pass over the tokens answers is a matching of brackets for every list of tokens, also where
closing brackets are passed over and others are left open (`BracketMatching`): partners are partners of
each other, each pair opens and closes one shape, and no two pairs cross. A prefix is matched as it is
in the whole list.

A matching in this sense may leave any bracket alone. What has to be paired is told without the pass:
brackets of one shape that surround balanced tokens (`Surrounds`) are partners in every list, and in
balanced tokens each bracket stands in one such pair, which tells its partner
(`matchBrackets_matching`).
-/

namespace Scoping

variable {ts : List Token} {m n : Nat}

/-! ## Matchings -/

/-- The answers for the tokens are a matching of their brackets. -/
structure BracketMatching (ts : List Token) (partners : Array (Option Nat)) : Prop where
  size : partners.size = ts.length
  symm : ∀ m n : Nat, partners[m]? = some (some n) → partners[n]? = some (some m)
  distinct : ∀ m : Nat, partners[m]? ≠ some (some m)
  shapes : ∀ m n : Nat, m < n → partners[m]? = some (some n) → SameShape ts m n
  /-- What stands inside a pair has its partner inside, so no two pairs cross. -/
  nested : ∀ i j k l : Nat, partners[i]? = some (some j) → partners[k]? = some (some l) →
    i < k → k < j → i < l ∧ l < j

theorem bracketMatching_matchBrackets (ts : List Token) : BracketMatching ts (matchBrackets ts) where
  size := size_matchBrackets ts
  symm _ _ := partner_comm.mp
  distinct m partner := by
    rcases partner_iff_joined.mp partner with joined | joined <;>
      exact Nat.lt_irrefl m joined.lt
  shapes _ _ lt partner := (joined_of_lt partner lt).sameShape
  nested _ _ _ _ outer inner after before :=
    (joined_of_lt outer (Nat.lt_trans after before)).inside inner after before

/-! ## Brackets around balanced tokens -/

/-- The tokens at `m` and `n` open and close a bracket of one shape around balanced tokens. -/
structure Surrounds (ts : List Token) (m n : Nat) : Prop where
  lt : m < n
  shape : SameShape ts m n
  inner : Balanced ((ts.take n).drop (m + 1))

/-- The pass joins them, whatever stands before and behind. -/
theorem Surrounds.joined (h : Surrounds ts m n) : Joined ts m n := by
  obtain ⟨first, last, shape, at_m, at_n, opens, closes⟩ := h.shape
  refine ⟨last, shape, (bracketsTo ts m).opened, at_n, closes, ?_⟩
  have parts := (List.take_append_drop (m + 1) (ts.take n)).symm
  rw [List.take_take, Nat.min_eq_left (Nat.succ_le_of_lt h.lt)] at parts
  rw [bracketsTo, parts, List.foldl_append, h.inner.opened_foldl]
  exact opened_of_opens at_m opens

/-- In balanced tokens a closing bracket surrounds something with a bracket before it. -/
theorem Balanced.surrounds_of_closes {t : Token} {shape : Bracket} (balanced : Balanced ts)
    (at_n : ts[n]? = some t) (closes : t.closes? = some shape) : ∃ m, Surrounds ts m n := by
  obtain ⟨before, first, inner, taken, opens, inside⟩ := balanced.exists_opening at_n closes
  have at_first : (ts.take n)[before.length]? = some first := by rw [taken]; simp
  have lt : before.length < n := by
    have inside := (List.getElem?_eq_some_iff.mp at_first).1
    exact Nat.lt_of_lt_of_le inside (List.length_take_le n ts)
  rw [List.getElem?_take_of_lt lt] at at_first
  refine ⟨before.length, lt, ⟨first, t, shape, at_first, at_n, opens, closes⟩, ?_⟩
  rw [taken, List.drop_length_add_append]
  exact inside

/-- Each bracket of balanced tokens stands in one pair that surrounds balanced tokens. -/
theorem Balanced.exists_surrounds {t : Token} (balanced : Balanced ts) (at_n : ts[n]? = some t)
    (bracket : t.isBracket = true) : ∃ m, Surrounds ts n m ∨ Surrounds ts m n := by
  obtain ⟨m, _, partner, _⟩ := balanced.partner [] at_n bracket
  rw [List.append_nil] at partner
  rcases partner_iff_joined.mp partner with joined | joined
  · obtain ⟨_, last, shape, _, at_m, _, closes⟩ := joined.sameShape
    obtain ⟨k, surrounds⟩ := balanced.surrounds_of_closes at_m closes
    have same := partner_iff_joined.mpr (.inr surrounds.joined)
    rw [partner_comm.mp partner] at same
    cases same
    exact ⟨m, .inl surrounds⟩
  · obtain ⟨_, last, shape, _, at_n', _, closes⟩ := joined.sameShape
    obtain ⟨k, surrounds⟩ := balanced.surrounds_of_closes at_n' closes
    exact ⟨k, .inr surrounds⟩

/-! ## The whole -/

/-- The pass answers a matching of brackets. The pairs of a prefix matched by itself are those that lie
in it. Brackets of one shape around balanced tokens are partners, and in balanced tokens that tells the
partner of every bracket. -/
theorem matchBrackets_matching (ts : List Token) :
    BracketMatching ts (matchBrackets ts) ∧
      (∀ k m n : Nat, (matchBrackets (ts.take k))[m]? = some (some n) ↔
        (m < k ∧ n < k) ∧ (matchBrackets ts)[m]? = some (some n)) ∧
      (∀ m n : Nat, Surrounds ts m n → (matchBrackets ts)[m]? = some (some n)) ∧
      (Balanced ts → ∀ (n : Nat) (t : Token), ts[n]? = some t → t.isBracket = true →
        ∃ m, (Surrounds ts n m ∨ Surrounds ts m n) ∧ (matchBrackets ts)[n]? = some (some m)) := by
  refine ⟨bracketMatching_matchBrackets ts, fun _ _ _ => partner_take, ?enclosed, ?balanced⟩
  case enclosed => exact fun m n surrounds => partner_iff_joined.mpr (.inl surrounds.joined)
  case balanced =>
    intro balanced n t at_n bracket
    obtain ⟨m, surrounds⟩ := balanced.exists_surrounds at_n bracket
    exact ⟨m, surrounds, partner_iff_joined.mpr (surrounds.imp (·.joined) (·.joined))⟩

/-- Where brackets are crossed the inner two are a pair, also if nothing comes behind, and the outer one
that opens is alone. Where they are nested, the first one surrounds what lies between it and its
partner. -/
theorem matchBrackets_matching_crossed : ∃ crossed nested,
    tokenize "([)]" none = .ok crossed ∧ tokenize "([x]) => {}" none = .ok nested ∧
      ((matchBrackets crossed)[0]? = some none ∧ (matchBrackets crossed)[1]? = some (some 3) ∧
        (matchBrackets crossed)[3]? = some (some 1) ∧ SameShape crossed 1 3 ∧
        (matchBrackets (crossed.take 4))[1]? = some (some 3)) ∧
      Balanced nested ∧
      ∃ m, Surrounds nested 0 m ∧ (matchBrackets nested)[0]? = some (some m) := by
  have made : (tokenize "([)]" none).toOption.bind (fun crossed =>
      (tokenize "([x]) => {}" none).toOption.bind fun nested =>
        nested[0]?.map fun t => (matchBrackets crossed)[0]? == some none &&
          (matchBrackets crossed)[1]? == some (some 3) && allPaired nested && t.isBracket) =
      some true := by
    decide +kernel
  obtain ⟨crossed, lexed, made⟩ := Option.bind_eq_some_iff.mp made
  obtain ⟨nested, lexed', made⟩ := Option.bind_eq_some_iff.mp made
  obtain ⟨t, at_first, holds⟩ := Option.map_eq_some_iff.mp made
  simp only [Bool.and_eq_true, beq_iff_eq] at holds
  obtain ⟨⟨⟨alone, partner⟩, paired⟩, bracket⟩ := holds
  refine ⟨crossed, nested, ok_of_toOption lexed, ok_of_toOption lexed', ?crossed, ?nested⟩
  case crossed =>
    obtain ⟨matching, taken, _, _⟩ := matchBrackets_matching crossed
    exact ⟨alone, partner, matching.symm 1 3 partner, matching.shapes 1 3 (by decide) partner,
      (taken 4 1 3).mpr ⟨by decide, partner⟩⟩
  case nested =>
    obtain ⟨_, _, surrounded, standard⟩ := matchBrackets_matching nested
    have balanced := balanced_iff_allPaired.mpr paired
    obtain ⟨m, surrounds | surrounds, _⟩ := standard balanced 0 t at_first bracket
    · exact ⟨balanced, m, surrounds, surrounded 0 m surrounds⟩
    · exact absurd surrounds.lt (Nat.not_lt_zero m)

end Scoping
