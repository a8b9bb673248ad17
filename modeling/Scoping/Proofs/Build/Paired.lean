import Scoping.Proofs.Build.Balance
import Scoping.Proofs.Build.Join

/-!
# Where every bracket has a partner

Brackets are paired with a stack, and a closing one that finds no bracket of its shape on top is left
alone. So where none is left alone the stack tells what was read: behind each bracket that is still
open stand balanced tokens (`LeavesOpen`), and a bracket that is open at the end has no partner. That
is to say that the tokens are balanced exactly if every bracket has a partner
(`balanced_iff_allPaired`).
-/

namespace Scoping

/-- Every bracket among the tokens has a partner. -/
def allPaired (ts : List Token) : Bool :=
  (ts.zip (matchBrackets ts).toList).all fun (t, partner) => !t.isBracket || partner.isSome

theorem allPaired_iff {ts : List Token} : allPaired ts = true ↔
    ∀ (n : Nat) (t : Token), ts[n]? = some t → t.isBracket = true →
      ∃ m, (matchBrackets ts)[n]? = some (some m) := by
  unfold allPaired
  rw [List.all_eq_true]
  constructor
  · intro all n t at_n bracket
    have inside : n < (matchBrackets ts).size := by
      rw [size_matchBrackets]
      exact (List.getElem?_eq_some_iff.mp at_n).1
    have entry := Array.getElem?_eq_getElem inside
    have both : (ts.zip (matchBrackets ts).toList)[n]? = some (t, (matchBrackets ts)[n]) :=
      List.getElem?_zip_eq_some.mpr ⟨at_n, by rw [Array.getElem?_toList, entry]⟩
    have known := all _ (List.mem_of_getElem? both)
    simp only [bracket, Bool.not_true, Bool.false_or] at known
    obtain ⟨m, same⟩ := Option.isSome_iff_exists.mp known
    exact ⟨m, by rw [entry, same]⟩
  · rintro all ⟨t, partner⟩ mem
    obtain ⟨n, both⟩ := List.mem_iff_getElem?.mp mem
    obtain ⟨at_n, entry⟩ := List.getElem?_zip_eq_some.mp both
    rw [Array.getElem?_toList] at entry
    show (!t.isBracket || partner.isSome) = true
    cases bracket : t.isBracket with
    | false => rfl
    | true =>
      obtain ⟨m, same⟩ := all n t at_n bracket
      rw [entry] at same
      cases same
      rfl

/-! ## Brackets that are open -/

/-- What is open at the end has no partner. -/
theorem partner_none_of_opened {ts : List Token} {place : Nat}
    (mem : place ∈ (bracketsTo ts ts.length).opened.map Prod.fst) :
    (matchBrackets ts)[place]? = some none := by
  obtain ⟨⟨place, shape⟩, opened, rfl⟩ := List.mem_map.mp mem
  obtain ⟨t, at_place, opens⟩ := opens_of_mem_opened (Nat.le_refl _) opened
  have inside : place < (matchBrackets ts).size := by
    rw [size_matchBrackets]
    exact (List.getElem?_eq_some_iff.mp at_place).1
  have entry := Array.getElem?_eq_getElem inside
  cases known : (matchBrackets ts)[place] with
  | none => rw [entry, known]
  | some n =>
    rw [known] at entry
    have joined := joined_of_opens entry at_place opens
    exact absurd opened (joined.not_mem_opened joined.lt_length (Nat.le_refl _))

/-- A closing bracket with a partner closes the innermost open bracket, which has its shape. -/
theorem opened_of_partner {ts : List Token} {n m : Nat} {t : Token} {shape : Bracket}
    (at_n : ts[n]? = some t) (closes : t.closes? = some shape)
    (partner : (matchBrackets ts)[n]? = some (some m)) :
    ∃ place below, (bracketsTo ts n).opened = (place, shape) :: below := by
  obtain ⟨t', shape', below, at_n', closes', opened⟩ := joined_of_closes partner at_n closes
  rw [at_n] at at_n'
  cases at_n'
  rw [closes] at closes'
  cases closes'
  exact ⟨m, below, opened⟩

/-! ## What the open brackets tell -/

/-- The tokens leave the brackets at the given places open, innermost first, with balanced tokens
behind each. -/
inductive LeavesOpen : List Token → List (Nat × Bracket) → Prop
  | none {ts : List Token} : Balanced ts → LeavesOpen ts []
  | more {ts inner : List Token} {first : Token} {shape : Bracket} {opened : List (Nat × Bracket)} :
    LeavesOpen ts opened → first.opens? = some shape → Balanced inner →
    LeavesOpen (ts ++ first :: inner) ((ts.length, shape) :: opened)

namespace LeavesOpen

variable {ts us : List Token} {opened : List (Nat × Bracket)}

theorem append (h : LeavesOpen ts opened) (balanced : Balanced us) :
    LeavesOpen (ts ++ us) opened := by
  cases h with
  | none before => exact .none (.append before balanced)
  | more before opens inner =>
    rw [List.append_assoc, List.cons_append]
    exact .more before opens (.append inner balanced)

/-- A closing bracket makes balanced tokens of those behind its partner. -/
theorem close {t : Token} {place : Nat} {shape : Bracket}
    (h : LeavesOpen ts ((place, shape) :: opened)) (closes : t.closes? = some shape) :
    LeavesOpen (ts ++ [t]) opened := by
  cases h with
  | more before opens inner =>
    rw [List.append_assoc, List.cons_append]
    exact before.append (.enclose opens inner closes)

/-- So one more token leaves open what the pass says. -/
theorem step {n : Nat} {t : Token} (h : LeavesOpen (ts.take n) (bracketsTo ts n).opened)
    (at_n : ts[n]? = some t) (paired : allPaired ts = true) :
    LeavesOpen (ts.take (n + 1)) (bracketsTo ts (n + 1)).opened := by
  have taken : ts.take (n + 1) = ts.take n ++ [t] := by
    rw [List.take_add_one, at_n]
    rfl
  rw [taken]
  cases opens : t.opens? with
  | some shape =>
    have length : (ts.take n).length = n :=
      List.length_take_of_le (Nat.le_of_lt (List.getElem?_eq_some_iff.mp at_n).1)
    have more := h.more opens .nil
    rw [length] at more
    rw [opened_of_opens at_n opens]
    exact more
  | none =>
    cases closes : t.closes? with
    | none =>
      rw [opened_of_neither at_n opens closes]
      exact h.append (.token opens closes)
    | some shape =>
      have bracket : t.isBracket = true := by simp [Token.isBracket, closes]
      obtain ⟨m, partner⟩ := allPaired_iff.mp paired n t at_n bracket
      obtain ⟨place, below, opened⟩ := opened_of_partner at_n closes partner
      rw [opened_of_closes at_n closes opened]
      rw [opened] at h
      exact h.close closes

theorem bracketsTo (paired : allPaired ts = true) {n : Nat} (le : n ≤ ts.length) :
    LeavesOpen (ts.take n) (bracketsTo ts n).opened := by
  induction n with
  | zero => exact .none .nil
  | succ n ih => exact (ih (Nat.le_of_lt le)).step (List.getElem?_eq_getElem le) paired

end LeavesOpen

/-- Tokens are balanced where each of their brackets has a partner, and only there. -/
theorem balanced_iff_allPaired {ts : List Token} : Balanced ts ↔ allPaired ts = true := by
  constructor
  · intro balanced
    apply allPaired_iff.mpr
    intro n t at_n bracket
    obtain ⟨m, _, partner, _⟩ := balanced.partner [] at_n bracket
    rw [List.append_nil] at partner
    exact ⟨m, partner⟩
  · intro paired
    have whole := LeavesOpen.bracketsTo paired (Nat.le_refl _)
    have ends {place : Nat} (mem : place ∈ (bracketsTo ts ts.length).opened.map Prod.fst) :=
      partner_none_of_opened mem
    rw [List.take_length] at whole
    generalize (bracketsTo ts ts.length).opened = opened at whole ends
    cases whole with
    | none balanced => exact balanced
    | @more before inner first shape _ _ opens _ =>
      have at_first : (before ++ first :: inner)[before.length]? = some first := by simp
      have bracket : first.isBracket = true := by rw [Token.isBracket, opens]; rfl
      obtain ⟨m, partner⟩ := allPaired_iff.mp paired _ _ at_first bracket
      rw [ends List.mem_cons_self] at partner
      cases partner

end Scoping
