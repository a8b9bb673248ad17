import Scoping.Proofs.Build.Edge
import Scoping.Proofs.Build.InStep

/-!
# Contexts that agree

A run sees its context through the tokens in the list, their partners and the limit. Where another
context has the same (`Context.Agrees`), a run over it goes through the same states, and what each action
keeps (`Kept`) holds of them all (`Agrees.simulation`). So it does not matter which token is to be seen
behind the list, nor whether the end of input stands there once or many times (`padded_agrees`).
-/

namespace Scoping

open Builder

namespace Builder

variable {c c' : Context} {s : State}

/-! ## What is kept -/

/-- Each action of a run over the tokens keeps what `I` says of the state. -/
structure Kept (c : Context) (I : State → Prop) : Prop where
  behind : ∀ {s}, I s → I (c.behind s)
  refer : ∀ {s t}, I s → t ∈ c.tokens.toList → t.isIdentifier = true → I (s.refer t)
  declare : ∀ {s t} (kind : BindingKind), I s → t ∈ c.tokens.toList → t.isIdentifier = true →
    I (s.declare t kind)
  deepen : ∀ {s}, I s → s.depth < c.limit → I s.deepen
  rise : ∀ {s}, I s → I s.rise
  push : ∀ {s label} (kind : ScopeKind) (start : Nat) (opener : Opener), I s →
    Labels (fun t t' => t = t' ∧ t ∈ c.tokens.toList) label label →
    I (s.pushScope kind label start opener)
  reopen : ∀ {s} (opener : Opener), I s → I (s.reopen opener)
  pop : ∀ {s} (id : ScopeId) (stop : Nat), I s → I (s.popScope id stop)

/-- No more is entered than the limit allows. -/
theorem kept_allowed (c : Context) : Kept c (·.depth ≤ c.limit) where
  behind known := known
  refer known _ _ := known
  declare kind known _ _ := by rw [State.declare_depth]; exact known
  deepen _ allowed := allowed
  rise known := Nat.le_trans (Nat.sub_le _ _) known
  push _ _ _ known _ := known
  reopen _ known := by rw [State.reopen_depth]; exact known
  pop _ _ known := known

/-! ## Contexts that agree -/

/-- A run over `c` cannot tell `c'` from it, and loops may go as many rounds. -/
structure Context.Agrees (c c' : Context) : Prop where
  limit : c'.limit = c.limit
  token : ∀ n < c.tokens.size, c'.token n = c.token n
  partner : ∀ n, c'.partner? n = c.partner? n
  arrow : ∀ n, c'.startsArrow n = c.startsArrow n
  rounds : c.rounds ≤ c'.rounds

namespace Context.Agrees

theorem refl (c : Context) : c.Agrees c where
  limit := rfl
  token _ _ := rfl
  partner _ := rfl
  arrow _ := rfl
  rounds := Nat.le_refl _

variable (agrees : c.Agrees c')
include agrees

theorem behind (inside : s.pos < c.tokens.size) : c'.behind s = c.behind s := by
  rw [Context.behind, agrees.token _ inside, Context.behind]

theorem closesTop : Builder.closesTop c' s = Builder.closesTop c s := by
  unfold Builder.closesTop
  split
  · rw [agrees.partner]
  · rfl

/-- A run goes the same way over both, and keeps what each of its actions keeps. The cursor stands on a
token of the list. -/
def simulation {I : State → Prop} (formed : c.Formed) (kept : Kept c I) : Simulation c c' where
  rel s s' := s = s' ∧ s.pos < c.tokens.size ∧ I s
  same t t' := t = t' ∧ t ∈ c.tokens.toList
  fails := Eq
  lost _ := False
  ids := Eq
  shift := 0
  rounds := agrees.rounds
  arrows _ := agrees.arrow _
  alike same := .inl (same.1 ▸ .refl _)
  pos related := by rw [related.1]; rfl
  here := by
    rintro s _ ⟨rfl, inside, _⟩
    exact ⟨(agrees.token _ inside).symm, Array.mem_toList_iff.mpr (formed.token_mem _)⟩
  next := by
    rintro s _ ⟨rfl, _⟩ name
    have inside := (formed.token_at (Token.isEnd_of_isIdentifier name)).2
    exact ⟨(agrees.token _ inside).symm, Array.mem_toList_iff.mpr (formed.token_mem _)⟩
  afterNext := by
    rintro s _ ⟨rfl, _⟩ name
    have inside := (formed.token_at (Token.isEnd_of_isIdentifier name)).2
    exact ⟨(agrees.token _ inside).symm, Array.mem_toList_iff.mpr (formed.token_mem _)⟩
  operand related _ := by rw [related.1]
  closesTop related closes := by rw [← related.1, agrees.closesTop]; exact closes
  behind := by
    rintro s _ ⟨rfl, inside, known⟩ ordinary
    exact ⟨(agrees.behind inside).symm, formed.inside_behind (Token.isOrdinary.notEnd ordinary),
      kept.behind known⟩
  select := by
    rintro s _ ⟨rfl, inside, known⟩ point
    have inside' := formed.inside_behind_of_isFlat (Token.isFlat_of_isSelector point)
    unfold Context.behindSelector
    rw [agrees.behind inside, agrees.token _ inside', agrees.behind inside']
    split
    · next word =>
      exact ⟨rfl, formed.inside_behind_of_isFlat (Token.isFlat_of_isWord word),
        kept.behind (kept.behind known)⟩
    · exact ⟨rfl, inside', kept.behind known⟩
  refer := by
    rintro s _ t _ ⟨rfl, inside, known⟩ ⟨rfl, mem⟩ name
    exact ⟨rfl, inside, kept.refer known mem name⟩
  declare := by
    rintro s _ t _ kind ⟨rfl, inside, known⟩ ⟨rfl, mem⟩ name
    refine ⟨rfl, ?_, kept.declare kind known mem name⟩
    rw [State.declare_pos]
    exact inside
  enter := by
    rintro s _ ⟨rfl, inside, known⟩ allowed
    exact ⟨agrees.limit ▸ allowed, rfl, inside, kept.deepen known allowed⟩
  tooDeep := by
    rintro s _ ⟨rfl, inside, _⟩ deep
    rw [agrees.token _ inside, agrees.limit]
    exact .inr ⟨deep, rfl⟩
  leave := by
    rintro s _ ⟨rfl, inside, known⟩
    exact ⟨rfl, inside, kept.rise known⟩
  openScope := by
    rintro s _ label label' kind opener ⟨rfl, inside, known⟩ _ labels
    obtain rfl := labels.eq fun _ _ same => same.1
    rw [agrees.token _ inside, Opener.moved_zero]
    exact ⟨rfl, rfl, inside, kept.push kind _ opener known labels⟩
  reopen := by
    rintro s _ opener ⟨rfl, inside, known⟩
    rw [Opener.moved_zero]
    refine ⟨rfl, ?_, kept.reopen opener known⟩
    rw [State.reopen_pos]
    exact inside
  closeScope := by
    rintro s _ f _ ⟨rfl, inside, known⟩ top rfl
    exact ⟨f, top, rfl, rfl, inside, kept.pop _ _ known⟩
  unexpected := by
    rintro s _ wanted ⟨rfl, inside, _⟩
    unfold Context.unexpected
    rw [agrees.token _ inside, agrees.partner]
  refused := by
    rintro s _ reason ⟨rfl, inside, _⟩
    rw [agrees.token _ inside]

/-- Over both a run ends in one state, which has what is kept, or in one error. There may be more levels over
the second than are enough for the first. -/
theorem run_cases {I : State → Prop} (formed : c.Formed) (kept : Kept c I) (start : I .start)
    {level level' : Nat} (enough : room c .start < level / 2) (deeper : level ≤ level') :
    (∃ s, run level c = .ok s ∧ run level' c' = .ok s ∧ I s) ∨
      ∃ e, run level c = .error (.rejected e) ∧ run level' c' = .error (.rejected e) := by
  have stands := (agrees.simulation formed kept).run_cases_of_room
    (by rintro s _ ⟨rfl, inside, _⟩; rw [agrees.token _ inside])
    (by rintro s _ ⟨rfl, _⟩ closed; exact closed) ⟨rfl, formed.nonempty, start⟩ formed enough deeper
  rcases stands with ⟨s, _, ran, ran', rfl, _, known⟩ | ⟨e, ran, lost | ⟨_, ran', rfl⟩⟩
  · exact .inl ⟨s, ran, ran', known⟩
  · exact lost.elim
  · exact .inr ⟨e, ran, ran'⟩

/-- The run comes to the same over both. -/
theorem run_eq (formed : c.Formed) {level level' : Nat} (enough : room c .start < level / 2)
    (deeper : level ≤ level') : run level c = run level' c' := by
  rcases agrees.run_cases formed (kept_allowed c) (Nat.zero_le _) enough deeper with
    ⟨s, ran, ran', _⟩ | ⟨e, ran, ran'⟩
  · exact ran.trans ran'.symm
  · exact ran.trans ran'.symm

end Context.Agrees

/-! ## More ends of input -/

/-- The same tokens, the last of them so many times more. -/
def Context.padded (c : Context) (more : Nat) : Context where
  tokens := c.tokens ++ Array.replicate more c.final
  final := c.final
  partners := matchBrackets (c.tokens.toList ++ List.replicate more c.final)
  limit := c.limit

theorem padded_size (more : Nat) : (c.padded more).tokens.size = c.tokens.size + more := by
  simp [Context.padded]

/-- An end of input behind the tokens pairs with nothing. -/
theorem partners_replicate_end {t : Token} (atEnd : t.isEnd = true) (more n : Nat) (b : BracketScan) :
    (((List.replicate more t).foldl BracketScan.step b).partners[n]?).join =
      (b.partners[n]?).join := by
  induction more generalizing b with
  | zero => rfl
  | succ more ih =>
    have silent : b.step t = b.skip := by
      simp only [BracketScan.step, Token.kind_of_isEnd atEnd]
    rw [List.replicate_succ, List.foldl_cons, ih, silent, BracketScan.skip, Array.getElem?_push]
    split
    · next last =>
      rw [last, Array.getElem?_eq_none (Nat.le_refl _)]
      rfl
    · rfl

namespace Context.Formed

variable (formed : c.Formed) (more : Nat)
include formed

theorem padded : (c.padded more).Formed where
  last := by
    cases more with
    | zero => simpa [Context.padded] using formed.last
    | succ more => simp [Context.padded, Array.replicate_succ]
  final_isEnd := formed.final_isEnd
  partners := by simp [Context.padded]

theorem padded_agrees : c.Agrees (c.padded more) := by
  have partner (n : Nat) : (c.padded more).partner? n = c.partner? n := by
    unfold Context.partner?
    rw [formed.partners]
    show ((matchBrackets (c.tokens.toList ++ List.replicate more c.final))[n]?).join = _
    rw [matchBrackets, List.foldl_append]
    exact partners_replicate_end formed.final_isEnd more n _
  constructor
  case limit => rfl
  case token =>
    intro n inside
    simp [Context.token, Context.padded, Array.getD_eq_getD_getElem?, Array.getElem?_append, inside]
  case partner => exact partner
  case arrow =>
    intro n
    unfold Context.startsArrow
    rw [partner]
    cases c.partner? n with
    | none => rfl
    | some close =>
      -- What is added is no arrow.
      show ((c.tokens ++ Array.replicate more c.final)[close + 1]?).any (·.isPunct .arrow) =
        (c.tokens[close + 1]?).any (·.isPunct .arrow)
      rw [Array.getElem?_append]
      split
      · rfl
      · next outside =>
        rw [Array.getElem?_eq_none (Nat.not_lt.mp outside), Array.getElem?_replicate]
        split
        · exact Token.isPunct_of_isEnd formed.final_isEnd
        · rfl
  case rounds =>
    unfold Context.rounds
    rw [padded_size]
    omega

end Context.Formed

end Builder

end Scoping
