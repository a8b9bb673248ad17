import Scoping.Analysis.Basic
import Scoping.Proofs.Analysis.Lexical
import Scoping.Proofs.Build.Block

/-!
# A slash behind a block

No expression ends with a block, so a slash behind one should begin a regular expression. The builder
knows a block by the grammar, the lexer by the token before its brace, and the two do not always agree.
Where a scope of an analysis ends with a brace, a slash behind it divides exactly if that brace is
hidden from the lexer (`analyze_slash`): a label or a clause with its colon stands before it, the word
`catch`, or a statement that a line end closes.
-/

namespace Scoping

open Builder

/-- No block is hidden that the lexer knows. -/
theorem hiddenBlock_of_opensBlock {ts : List Token} {place : Nat}
    (known : Lookbehind.opensBlock ((tokenBefore ts place).map (·.kind)) = true) :
    hiddenBlock ts place = false := by
  unfold hiddenBlock
  cases before : tokenBefore ts place with
  | none => rfl
  | some t =>
    rw [before, Option.map_some] at known
    have seen (brace : Token) : t.hidesBlock brace = false := by
      rw [Token.hidesBlock, known, Bool.not_true, Bool.and_false]
    cases ts[place]? with
    | none => rfl
    | some brace => exact seen brace

namespace Builder

variable {ts : List Token} {final : Token} {limit : Nat}

theorem before?_ofTokens {place : Nat} (h : place ≤ (significant ts).length) :
    (Context.ofTokens ts final limit).before? place = tokenBefore (significant ts) place := by
  cases place with
  | zero => rfl
  | succ n =>
    rw [Context.before?, token_ofTokens h, tokenBefore, List.take_add_one,
      List.getElem?_eq_getElem h, Option.toList_some, List.getLast?_concat]

/-- A brace that is grounded is one that the lexer takes for a block's, or hidden. -/
theorem hiddenBlock_of_grounded {place : Nat} (h : place < (significant ts).length)
    (grounded : (Context.ofTokens ts final limit).Grounded place) :
    hiddenBlock (significant ts) place =
      !Lookbehind.opensBlock ((tokenBefore (significant ts) place).map (·.kind)) := by
  unfold Context.Grounded at grounded
  rw [before?_ofTokens (Nat.le_of_lt h), token_ofTokens h] at grounded
  rw [hiddenBlock, List.getElem?_eq_getElem h]
  cases before : tokenBefore (significant ts) place with
  | none => rfl
  | some t =>
    rw [before, Option.all_some] at grounded
    rw [Option.any_some, Option.any_some, Token.hidesBlock, grounded, Bool.true_and]
    rfl

/-- Where a division stands behind the brace at a sealed place, the partner of the brace is grounded. -/
theorem Context.Sealed.grounded {k : Nat} {close next : Token} (balanced : Balanced (significant ts))
    (sealed : (Context.ofTokens ts final limit).Sealed k)
    (at_k : (significant ts)[k]? = some close) (closes : close.isPunct .closeBrace = true)
    (at_next : (significant ts)[k + 1]? = some next) (divides : next.divides = true) :
    ∃ first < (significant ts).length, (matchBrackets (significant ts))[k]? = some (some first) ∧
      (Context.ofTokens ts final limit).Grounded first := by
  have token {n : Nat} {t : Token} (at_n : (significant ts)[n]? = some t) :
      (Context.ofTokens ts final limit).token n = t := by
    obtain ⟨inside, rfl⟩ := List.getElem?_eq_some_iff.mp at_n
    exact token_ofTokens inside
  obtain ⟨first, opens, partner, grounded⟩ :=
    sealed (token at_k ▸ closes) (token at_next ▸ divides)
  have partner : (matchBrackets (significant ts))[first]? = some (some k) :=
    Option.join_eq_some_iff.mp partner
  have inside : first < (significant ts).length := by
    have := (Array.getElem?_eq_some_iff.mp partner).1
    rwa [size_matchBrackets] at this
  have at_first := List.getElem?_eq_getElem inside
  rw [token at_first] at opens
  have bracket : (significant ts)[first].isBracket = true := by
    rw [Token.isBracket, opens?_of_isPunct opens]
    rfl
  exact ⟨first, inside, balanced.partner_symm at_first bracket partner, grounded⟩

/-- The scopes of a tree but the global one have ended, each at a sealed place. -/
theorem ofTokens_sealed {t : Tree} {source : String} {most : Option Nat}
    (lexed : tokenize source most = .ok ts) (h : Tree.ofTokens ts limit = .ok t) {x : Scope}
    (mem : x ∈ t.scopes) (notGlobal : x.kind ≠ .global) {k : Nat} {close : Token}
    (at_k : (significant ts)[k]? = some close) (before : k + 1 < (significant ts).length)
    (stop : x.range.stop = close.span.stop) :
    ∃ final, (Context.ofTokens ts final limit).Sealed k := by
  obtain ⟨final, s, last, atEnd, made, rfl⟩ := ofTokens_run h
  have formed := ofTokens_formed last atEnd limit
  have spaced := (ofTokens_spaced (tokenize_tiling lexed) last limit).1
  have w := run_ends formed (Nat.le_refl _)
  rw [made] at w
  obtain ⟨i, at_i⟩ := Array.mem_iff_getElem?.mp mem
  have inner : i ≠ globalScope := by
    rintro rfl
    obtain ⟨root, at_root, isGlobal, _⟩ := ((alike_tree s _).rooted w.1.shaped.rooted).root
    rw [at_i] at at_root
    cases at_root
    exact notGlobal isGlobal
  have old : i < s.scopes.size := by
    rw [(alike_tree s _).size_eq]
    exact (Array.getElem?_eq_some_iff.mp at_i).1
  obtain ⟨place, passed, ends, sealed⟩ :=
    (run_orderly made).ends i old (w.1.closed_iff.mpr inner)
  have passed : place + 1 < (significant ts).length :=
    Nat.lt_of_le_of_lt passed (w.1.inside formed formed.nonempty)
  -- Tokens stand one behind the other, so no two end at one place.
  obtain ⟨inside, rfl⟩ := List.getElem?_eq_some_iff.mp at_k
  have here : (Context.ofTokens ts final limit).token k = (significant ts)[k] := token_ofTokens inside
  rw [← rangeIn_of_getElem? at_i, rangeIn_tree_inner _ inner, ends, ← here] at stop
  rcases Nat.lt_trichotomy place k with less | rfl | more
  · have := spaced.stop_lt_stop less before
    omega
  · exact ⟨final, sealed⟩
  · have := spaced.stop_lt_stop more passed
    omega

end Builder

/-- A slash behind the closing brace of a block or a loop divides if the partner of the brace is hidden
from the lexer, and begins a regular expression otherwise. -/
theorem analyze_slash {source : String} {options : Options} {a : Analysis} {ts : List Token}
    (h : analyze source options = .ok a) (lexed : tokenize source options.maxTokens = .ok ts)
    {x : Scope} (mem : x ∈ a.tree.scopes) (kind : x.kind = .block ∨ x.kind = .loop) {k : Nat}
    {close next : Token} (at_k : (significant ts)[k]? = some close)
    (closes : close.isPunct .closeBrace = true) (ends : x.range.stop = close.span.stop)
    (at_next : (significant ts)[k + 1]? = some next) (slash : next.beginsWithSlash = true) :
    ∃ first, (matchBrackets (significant ts))[k]? = some (some first) ∧
      next.kind = if hiddenBlock (significant ts) first then .operator else .regex := by
  obtain ⟨ts', lexed', built⟩ := treeOf_ok (analyze_ok h).1
  rw [lexed] at lexed'
  cases lexed'
  have balanced := (ofTokens_balanced built).2.2 _ _ lexed
  have lexemes : Lexed .start (significant ts) := (tokenize_ok_iff.mp lexed).lexed.1
  obtain ⟨first, inside, partner, read⟩ :=
    lexemes.slash_behind_partner balanced at_k closes at_next slash
  refine ⟨first, partner, ?_⟩
  cases known : Lookbehind.opensBlock ((tokenBefore (significant ts) first).map (·.kind)) with
  | true =>
    -- The lexer knows the block, so it is not hidden.
    rw [known] at read
    rw [read, hiddenBlock_of_opensBlock known]
    rfl
  | false =>
    -- The slash divides, and the scope ended behind a brace with a partner that is grounded.
    rw [known] at read
    have divides : next.divides = true := by rw [Token.divides, read, slash]; rfl
    have notGlobal : x.kind ≠ .global := by
      rcases kind with kind | kind <;> simp [kind]
    obtain ⟨final, sealed⟩ := ofTokens_sealed lexed built mem notGlobal at_k
      (List.getElem?_eq_some_iff.mp at_next).1 ends
    obtain ⟨first', _, partner', grounded⟩ :=
      sealed.grounded balanced at_k closes at_next divides
    rw [partner] at partner'
    cases partner'
    rw [read, hiddenBlock_of_grounded inside grounded, known]
    rfl

/-- The body of a loop, with a regular expression behind it. -/
theorem analyze_slash_loop : ∃ a ts x close next,
    analyze "while (a) {} /b/" Options.standard = .ok a ∧
      tokenize "while (a) {} /b/" Options.standard.maxTokens = .ok ts ∧
      x ∈ a.tree.scopes ∧ x.kind = .loop ∧ (significant ts)[5]? = some close ∧
      close.isPunct .closeBrace = true ∧ x.range.stop = close.span.stop ∧
      (significant ts)[6]? = some next ∧ next.beginsWithSlash = true ∧ next.kind = .regex := by
  have made : (analyze "while (a) {} /b/" Options.standard).toOption.bind (fun a =>
      (tokenize "while (a) {} /b/" none).toOption.bind fun ts =>
        a.tree.scopes[1]?.bind fun x => (significant ts)[5]?.bind fun close =>
          (significant ts)[6]?.map fun next => x.kind == .loop && close.isPunct .closeBrace &&
            x.range.stop == close.span.stop && next.beginsWithSlash &&
            (matchBrackets (significant ts))[5]? == some (some 4) &&
            !hiddenBlock (significant ts) 4) = some true := by decide +kernel
  obtain ⟨a, ok, made⟩ := Option.bind_eq_some_iff.mp made
  obtain ⟨ts, lexed, made⟩ := Option.bind_eq_some_iff.mp made
  obtain ⟨x, at_x, made⟩ := Option.bind_eq_some_iff.mp made
  obtain ⟨close, at_close, made⟩ := Option.bind_eq_some_iff.mp made
  obtain ⟨next, at_next, holds⟩ := Option.map_eq_some_iff.mp made
  simp only [Bool.and_eq_true, beq_iff_eq, Bool.not_eq_true'] at holds
  obtain ⟨⟨⟨⟨⟨kind, closes⟩, stop⟩, slash⟩, partner⟩, seen⟩ := holds
  have h := ok_of_toOption ok
  have lexed : tokenize "while (a) {} /b/" Options.standard.maxTokens = .ok ts :=
    ok_of_toOption lexed
  have mem := Array.mem_iff_getElem?.mpr ⟨1, at_x⟩
  obtain ⟨first, partner', read⟩ :=
    analyze_slash h lexed mem (.inr kind) at_close closes stop at_next slash
  rw [partner] at partner'
  cases partner'
  rw [seen] at read
  exact ⟨a, ts, x, close, next, h, lexed, mem, kind, at_close, closes, stop, at_next, slash, read⟩

/-- Behind a labelled block a slash divides. -/
theorem analyze_slash_label : ∃ a ts x close next,
    analyze "a: {} /b/ 1" Options.standard = .ok a ∧
      tokenize "a: {} /b/ 1" Options.standard.maxTokens = .ok ts ∧
      x ∈ a.tree.scopes ∧ x.kind = .block ∧ (significant ts)[3]? = some close ∧
      close.isPunct .closeBrace = true ∧ x.range.stop = close.span.stop ∧
      (significant ts)[4]? = some next ∧ next.beginsWithSlash = true ∧ next.kind ≠ .regex := by
  have made : (analyze "a: {} /b/ 1" Options.standard).toOption.bind (fun a =>
      (tokenize "a: {} /b/ 1" none).toOption.bind fun ts =>
        a.tree.scopes[1]?.bind fun x => (significant ts)[3]?.bind fun close =>
          (significant ts)[4]?.map fun next => x.kind == .block && close.isPunct .closeBrace &&
            x.range.stop == close.span.stop && next.beginsWithSlash && next.kind == .operator) =
      some true := by decide +kernel
  obtain ⟨a, ok, made⟩ := Option.bind_eq_some_iff.mp made
  obtain ⟨ts, lexed, made⟩ := Option.bind_eq_some_iff.mp made
  obtain ⟨x, at_x, made⟩ := Option.bind_eq_some_iff.mp made
  obtain ⟨close, at_close, made⟩ := Option.bind_eq_some_iff.mp made
  obtain ⟨next, at_next, holds⟩ := Option.map_eq_some_iff.mp made
  simp only [Bool.and_eq_true, beq_iff_eq] at holds
  obtain ⟨⟨⟨⟨kind, closes⟩, stop⟩, slash⟩, divides⟩ := holds
  exact ⟨a, ts, x, close, next, ok_of_toOption ok, ok_of_toOption lexed,
    Array.mem_iff_getElem?.mpr ⟨1, at_x⟩, kind, at_close, closes, stop, at_next, slash,
    by simp [divides]⟩

end Scoping
