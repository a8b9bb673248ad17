import Scoping.Proofs.Build.Balance
import Scoping.Proofs.Build.Halves
import Scoping.Proofs.Token.Embed

/-!
# A program inside a block

A program is read up to the end of input, and the statements of a block up to the brace that closes it,
by loops of their own. Over the tokens of a program in braces the second loop does what the first does
over the program, a token and a level further in (`inside_inStep`): the end of input stands where the
brace does, and no statement begins at a brace. So the program in braces is read as a block
(`Program.run_braced`).
-/

namespace Scoping

open Builder

namespace Builder

/-- The tokens of a program, with one end of input behind them and their brackets in pairs. -/
structure Program where
  before : List Token
  final : Token
  /-- The levels it may nest. -/
  limit : Nat
  atEnd : final.isEnd = true
  notEnds : ∀ t ∈ before, t.isEnd = false
  balanced : Balanced (significant before)

namespace Program

variable (P : Program)

/-- Its tokens that mean something, but for the end of input. -/
abbrev tokens : List Token := significant P.before

/-- The length of its text. -/
abbrev size : Nat := P.final.span.stop

/-- What a run reads of the program. -/
abbrev plain : Context := .ofTokens (P.before ++ [P.final]) P.final P.limit

/-- What it reads of the program in braces, with one level more. -/
abbrev braced : Context := .ofTokens (bracedTokens P.before P.size) (endAt (P.size + 3)) (P.limit + 1)

end Program

/-! ## The tokens -/

theorem significant_moved (shift : Nat) (ts : List Token) :
    significant (ts.map (Token.moved shift)) = (significant ts).map (Token.moved shift) := by
  unfold significant
  rw [List.filter_map]
  rfl

theorem token_of_getElem? {c : Context} {n : Nat} {t : Token} (h : c.tokens[n]? = some t) :
    c.token n = t := by
  rw [Context.token, Array.getD_eq_getD_getElem?, h, Option.getD_some]

namespace Program

variable (P : Program) {n : Nat}

theorem notEnd {t : Token} (mem : t ∈ P.tokens) : t.isEnd = false :=
  P.notEnds t (List.mem_filter.mp mem).1

theorem getLast?_plain : (P.before ++ [P.final]).getLast? = some P.final := List.getLast?_concat ..

theorem getLast?_braced :
    (bracedTokens P.before P.size).getLast? = some (endAt (P.size + 3)) := by
  rw [bracedTokens, List.append_cons, ← List.cons_append]
  exact List.getLast?_concat ..

theorem plain_formed : P.plain.Formed := ofTokens_formed P.getLast?_plain P.atEnd P.limit

theorem braced_formed : P.braced.Formed := ofTokens_formed P.getLast?_braced rfl (P.limit + 1)

theorem significant_braced : significant (bracedTokens P.before P.size) = openingBrace ::
    (P.tokens.map (Token.moved 1) ++ [closingBrace (P.size + 2), endAt (P.size + 3)]) := by
  rw [bracedTokens, significant, List.filter_cons_of_pos (by rfl), List.filter_append]
  congr 2
  exact significant_moved 1 P.before

theorem tokens_plain (n : Nat) : P.plain.tokens[n]? = (P.tokens ++ [P.final])[n]? := by
  simp only [plain, Context.ofTokens, significant_append_end P.before P.atEnd,
    List.getElem?_toArray]

/-- The tokens of a text in braces are a token further. -/
theorem tokens_braced (n : Nat) : P.braced.tokens[n + 1]? =
    (P.tokens.map (Token.moved 1) ++ [closingBrace (P.size + 2), endAt (P.size + 3)])[n]? := by
  simp only [braced, Context.ofTokens, significant_braced, List.getElem?_toArray,
    List.getElem?_cons_succ]

theorem size_plain : P.plain.tokens.size = P.tokens.length + 1 := by
  simp [Context.ofTokens, significant_append_end P.before P.atEnd]

theorem size_braced : P.braced.tokens.size = P.tokens.length + 3 := by
  simp [Context.ofTokens, significant_braced]

theorem token_last : P.plain.token P.tokens.length = P.final :=
  token_of_getElem? (by rw [tokens_plain, List.getElem?_append_right (Nat.le_refl _)]; simp)

theorem token_opening : P.braced.token 0 = openingBrace :=
  token_of_getElem? (by simp [Context.ofTokens, significant_braced])

theorem token_behind : P.braced.token (P.tokens.length + 2) = endAt (P.size + 3) :=
  token_of_getElem? (by simp [tokens_braced])

/-- A token before the end has its counterpart a token further, and where the end is there the brace
closes. -/
theorem tokens_moved (inside : n < P.plain.tokens.size) :
    ∃ t t', P.plain.tokens[n]? = some t ∧ P.braced.tokens[n + 1]? = some t' ∧
      (n < P.tokens.length ∧ t ∈ P.tokens ∧ t' = t.moved 1 ∨
        n = P.tokens.length ∧ t = P.final ∧ t' = closingBrace (P.size + 2)) := by
  rw [tokens_plain, tokens_braced]
  rw [size_plain] at inside
  by_cases early : n < P.tokens.length
  · refine ⟨P.tokens[n], P.tokens[n].moved 1, ?_, ?_, .inl ⟨early, List.getElem_mem early, rfl⟩⟩
    · rw [List.getElem?_append_left early, List.getElem?_eq_getElem early]
    · rw [List.getElem?_append_left (by rw [List.length_map]; exact early), List.getElem?_map,
        List.getElem?_eq_getElem early]
      rfl
  · obtain rfl : n = P.tokens.length := by omega
    refine ⟨P.final, closingBrace (P.size + 2), ?_, ?_, .inr ⟨rfl, rfl, rfl⟩⟩
    · simp
    · simp

/-- A mark other than a closing brace stands a token further in braces, or nowhere. -/
theorem any_isPunct_moved {p : Punctuation} (other : p ≠ .closeBrace) (n : Nat) :
    (P.braced.tokens[n + 1]?).any (·.isPunct p) = (P.plain.tokens[n]?).any (·.isPunct p) := by
  by_cases inside : n < P.plain.tokens.size
  · obtain ⟨t, t', at_n, at_n', ⟨_, _, rfl⟩ | ⟨_, rfl, rfl⟩⟩ := P.tokens_moved inside
    · rw [at_n, at_n']
      rfl
    · rw [at_n, at_n', Option.any_some, Option.any_some, Token.isPunct_of_isEnd P.atEnd]
      cases p <;> first | rfl | exact absurd rfl other
  · rw [size_plain] at inside
    obtain ⟨m, rfl⟩ := Nat.exists_eq_add_of_le (Nat.not_lt.mp inside)
    have none : (P.tokens ++ [P.final])[P.tokens.length + 1 + m]? = none :=
      List.getElem?_eq_none (by simp)
    rw [tokens_braced, tokens_plain, none,
      List.getElem?_append_right (by rw [List.length_map]; omega), List.length_map, Nat.add_assoc,
      Nat.add_sub_cancel_left, Nat.add_comm 1 m]
    cases m <;> rfl

end Program

/-! ## The brackets -/

theorem balanced_moved (shift : Nat) {ts : List Token} (h : Balanced ts) :
    Balanced (ts.map (Token.moved shift)) := by
  induction h with
  | nil => exact .nil
  | token opens closes => exact .token opens closes
  | append _ _ ih ih' =>
    rw [List.map_append]
    exact .append ih ih'
  | enclose opens _ closes ih =>
    rw [List.map_cons, List.map_append]
    exact .enclose opens ih closes

theorem matchBrackets_moved (shift : Nat) (ts : List Token) :
    matchBrackets (ts.map (Token.moved shift)) = matchBrackets ts := by
  unfold matchBrackets
  rw [List.foldl_map]
  rfl

/-- The end of input is no bracket. -/
theorem matchBrackets_end (ts : List Token) {t : Token} (atEnd : t.isEnd = true) :
    (matchBrackets (ts ++ [t])).toList = (matchBrackets ts).toList ++ [none] := by
  have kind := Token.kind_of_isEnd atEnd
  have passed (b : BracketScan) : b.step t = b.skip :=
    BracketScan.step_of_neither (by simp [Token.opens?, kind]) (by simp [Token.closes?, kind])
  rw [matchBrackets, List.foldl_append, List.foldl_cons, List.foldl_nil, passed, BracketScan.skip,
    Array.toList_push]
  rfl

/-- Balanced tokens in braces are paired as they were, a token further, and so are the braces. -/
theorem matchBrackets_braces {ts : List Token} (balanced : Balanced ts) (size : Nat) :
    (matchBrackets (openingBrace :: (ts.map (Token.moved 1) ++ [closingBrace size]))).toList =
      some (ts.length + 1) :: ((matchBrackets ts).toList.map (Option.map (1 + ·)) ++ [some 0]) := by
  have inside := balanced_moved 1 balanced
  have opens : openingBrace.opens? = some .brace := rfl
  have closes : (closingBrace size).closes? = some .brace := rfl
  have all := inside.partners_enclose opens closes .start (inside.partners_foldl _)
  rw [matchBrackets_moved, List.length_map, BracketScan.size_step] at all
  have start (n : Nat) : BracketScan.start.partners.size + n = n := Nat.zero_add n
  rw [start, start] at all
  exact all

namespace Program

variable (P : Program) {place close : Nat}

theorem partner_plain (place : Nat) :
    P.plain.partner? place = ((matchBrackets P.tokens).toList[place]?).join := by
  simp only [Context.partner?, plain, Context.ofTokens, significant_append_end P.before P.atEnd]
  rw [← Array.getElem?_toList, matchBrackets_end _ P.atEnd, List.getElem?_append]
  split
  · rfl
  · next late =>
    rw [List.getElem?_eq_none (Nat.not_lt.mp late), List.getElem?_singleton]
    split <;> rfl

/-- In braces partners are a token further, and the closing brace is the partner of the opening one. -/
theorem partner_braced (place : Nat) : P.braced.partner? (place + 1) =
    if place = P.tokens.length then some 0
    else ((matchBrackets P.tokens).toList[place]?).join.map (· + 1) := by
  have braces := matchBrackets_braces P.balanced (P.size + 2)
  have length : (matchBrackets P.tokens).toList.length = P.tokens.length :=
    size_matchBrackets P.tokens
  have whole : openingBrace :: (P.tokens.map (Token.moved 1) ++
      [closingBrace (P.size + 2), endAt (P.size + 3)]) = (openingBrace ::
        (P.tokens.map (Token.moved 1) ++ [closingBrace (P.size + 2)])) ++ [endAt (P.size + 3)] := by
    simp
  simp only [Context.partner?, braced, Context.ofTokens, significant_braced, whole]
  rw [← Array.getElem?_toList, matchBrackets_end _ rfl, braces, List.cons_append,
    List.getElem?_cons_succ, List.append_assoc]
  generalize (matchBrackets P.tokens).toList = own at length
  rw [← length]
  rcases Nat.lt_trichotomy place own.length with early | rfl | late
  · rw [if_neg (Nat.ne_of_lt early), List.getElem?_append_left (by rw [List.length_map]; exact early),
      List.getElem?_map, List.getElem?_eq_getElem early]
    cases own[place] <;> simp [Nat.add_comm]
  · simp
  · rw [if_neg (Nat.ne_of_gt late), List.getElem?_eq_none (Nat.le_of_lt late),
      List.getElem?_append_right (by rw [List.length_map]; exact Nat.le_of_lt late), List.length_map]
    obtain ⟨n, rfl⟩ := Nat.exists_eq_add_of_lt late
    have further : own.length + n + 1 - own.length = n + 1 := by omega
    rw [further]
    cases n with
    | zero => rfl
    | succ n => simp

/-- What has a partner has it a token further in braces. -/
theorem partner_inside (paired : P.plain.partner? place = some close) :
    P.braced.partner? (place + 1) = some (close + 1) := by
  rw [partner_plain] at paired
  rw [partner_braced, if_neg, paired, Option.map_some]
  rintro rfl
  rw [List.getElem?_eq_none (by simp [size_matchBrackets])] at paired
  cases paired

/-- Where an arrow follows the partner of a parenthesis, it does so in braces. -/
theorem startsArrow_inside (paren : (P.plain.token place).isPunct .openParen = true) :
    P.braced.startsArrow (place + 1) = P.plain.startsArrow place := by
  have early : place ≠ P.tokens.length := by
    rintro rfl
    rw [token_last, Token.isPunct_of_isEnd P.atEnd] at paren
    cases paren
  unfold Context.startsArrow
  rw [partner_braced, if_neg early, ← partner_plain]
  cases P.plain.partner? place with
  | none => rfl
  | some close => exact P.any_isPunct_moved (p := .arrow) nofun (close + 1)

end Program

/-! ## The program told again -/

/-- The token and its counterpart in braces. -/
def SameInside (size : Nat) (t t' : Token) : Prop :=
  t.isEnd = false ∧ t' = t.moved 1 ∨ t.isEnd = true ∧ t' = closingBrace (size + 2)

/-- A block has begun at the start of the program, and nothing in it is read yet. -/
def blockBegun : State :=
  (State.start.deepen.pushScope .block "block" 0 (.brace 0)).consume openingBrace

namespace Program

variable (P : Program)

/-- The program in braces as its retelling. -/
def retelling : Retelling P.plain P.braced where
  rename := id
  same := SameInside P.size
  places m m' := m' = m + 1
  shift := 1
  lift := 1
  base := 2
  inside := True
  injective := Function.injective_id
  words _ _ := rfl
  told {t t'} same := by
    rcases same with ⟨_, rfl⟩ | ⟨ends, rfl⟩
    · exact .inl ⟨⟨rfl, rfl, by rw [id, ite_self]; rfl⟩, rfl, rfl⟩
    · exact .inr ⟨⟨ends, rfl⟩, trivial⟩
  formed := P.plain_formed
  token {n} inside := by
    obtain ⟨t, t', at_n, at_n', told⟩ := P.tokens_moved inside
    rw [token_of_getElem? at_n, token_of_getElem? at_n']
    rcases told with ⟨_, mem, rfl⟩ | ⟨_, rfl, rfl⟩
    · exact .inl ⟨P.notEnd mem, rfl⟩
    · exact .inr ⟨P.atEnd, rfl⟩
  rounds := by
    rw [Context.rounds, Context.rounds, size_plain, size_braced]
    omega
  limit := rfl
  even none := absurd trivial none
  partner paired := P.partner_inside paired
  arrows paren := P.startsArrow_inside paren
  closers none := absurd trivial none

/-- At the start the runs are beside each other, when the first has the global scope in halves. -/
theorem inside_start : P.retelling.Beside .halved blockBegun where
  inside := by
    rw [size_plain]
    exact Nat.succ_pos _
  pos := rfl
  operand := rfl
  prevEnd := rfl
  scopes := .cons ⟨⟨rfl, rfl, rfl, rfl, Array.map_empty.symm⟩, .fixed (by decide), nofun⟩
    (.cons ⟨⟨rfl, rfl, rfl, rfl, Array.map_empty.symm⟩, .fixed (by decide), nofun⟩ .nil)
  bindings := .nil
  references := .nil
  frames := .cons ⟨rfl, nofun, nofun⟩ (.cons ⟨rfl, nofun, nofun⟩ .nil)
  depth := Nat.le_refl _
  deep := Nat.zero_le _

end Program

/-! ## Two loops -/

section

variable {c c' : Context} {S : Simulation c c'} {g g' : Grammar} {s s' : State}

/-- No statement begins at a closing brace. -/
theorem statement_atClose (place : StatementPlace)
    (closes : (c.token s.pos).isPunct .closeBrace = true) :
    (statement g place).Ends c (fun _ => True) (fun _ _ => False) s := by
  have kind : (c.token s.pos).kind = .punctuation .closeBrace := eq_of_beq closes
  have noName : (c.token s.pos).isIdentifier = false := by
    rw [Token.isIdentifier, kind]
    rfl
  rw [statement, Build.ends_bind, Build.ends_read, Build.ends_bind]
  refine (labelsFor_none noName).mono fun _ t same => ?_
  subst same
  rw [unlabeled, Build.ends_bind, Build.ends_current, kind]
  trivial

theorem level_atClose (level : Nat) (closes : (c.token s.pos).isPunct .closeBrace = true) :
    ((Grammar.level level).statement .list).Ends c (fun _ => True) (fun _ _ => False) s := by
  cases level with
  | zero => trivial
  | succ level => exact statement_atClose .list closes

section
variable {rounds : Nat}

theorem programFor_end (ends : (c.token s.pos).isEnd = true) :
    ((programFor g (rounds + 1)).run c).run s = .ok ((), s) := by
  change ((if (c.token s.pos).isEnd then pure () else _ : Build Unit).run c).run s = _
  rw [ends]
  rfl

theorem programFor_next (notEnd : (c.token s.pos).isEnd = false) :
    ((programFor g (rounds + 1)).run c).run s =
      ((g.statement .list >>= fun _ => programFor g rounds).run c).run s := by
  change ((if (c.token s.pos).isEnd then pure () else _ : Build Unit).run c).run s = _
  rw [notEnd]
  rfl

theorem statementsFor_end (closes : (c.token s.pos).isPunct .closeBrace = true) :
    ((statementsFor g (rounds + 1)).run c).run s = .ok ((), s) := by
  change ((if (c.token s.pos).isPunct .closeBrace then pure () else _ : Build Unit).run c).run s = _
  rw [closes]
  rfl

theorem statementsFor_next (notClose : (c.token s.pos).isPunct .closeBrace = false)
    (notEnd : (c.token s.pos).isEnd = false) : ((statementsFor g (rounds + 1)).run c).run s =
      ((g.statement .list >>= fun _ => statementsFor g rounds).run c).run s := by
  simp only [statementsFor, Build.join]
  change ((if (c.token s.pos).isPunct .closeBrace then pure () else _ : Build Unit).run c).run s = _
  rw [notClose]
  change (((if (c.token s.pos).isEnd then refuse (.punct .closeBrace) else pure ()) >>= fun _ =>
    g.statement .list >>= fun _ => statementsFor g rounds : Build Unit).run c).run s = _
  rw [notEnd]
  rfl

end

/-- Up to its end a program is read as the statements of a block are, where the end of input stands for
the brace that closes it. -/
theorem inside_inStep (serves : S.Serves g g') (all : ∀ e, S.lost e)
    (edge : ∀ {t t'}, S.same t t' → t.isEnd = true → t'.isPunct .closeBrace = true)
    (stops : ∀ s : State, (c.token s.pos).isPunct .closeBrace = true →
      (g.statement .list).Ends c (fun _ => True) (fun _ _ => False) s)
    {rounds rounds' : Nat} (more : rounds ≤ rounds') :
    S.InStep Eq (programFor g rounds) (statementsFor g' rounds') s s' := by
  induction rounds generalizing rounds' s s' with
  | zero => exact .exhausted
  | succ rounds ih =>
    obtain ⟨rounds', rfl⟩ := Nat.exists_eq_succ_of_ne_zero (Nat.ne_zero_of_lt more)
    have further : S.InStep Eq (g.statement .list >>= fun _ => programFor g rounds)
        (g'.statement .list >>= fun _ => statementsFor g' rounds') s s' :=
      .seq (serves.statement .list s s') fun _ _ => ih (Nat.le_of_succ_le_succ more)
    intro related
    have same := S.here related
    cases ends : (c.token s.pos).isEnd with
    | true =>
      rw [programFor_end ends, statementsFor_end (edge same ends)]
      exact ⟨(), s', rfl, rfl, related⟩
    | false =>
      have alike := S.alike_of_notEnd same ends
      rw [programFor_next ends]
      cases closes : (c.token s.pos).isPunct .closeBrace with
      | true =>
        refine Simulation.InStep.refused all ?_ related
        exact Build.ends_bind.mpr ((stops s closes).mono fun _ _ => False.elim)
      | false =>
        rw [statementsFor_next (by rw [alike.isPunct, closes]) (by rw [alike.isEnd, ends])]
        exact further related

end

/-! ## The block -/

namespace Program

variable (P : Program) {s t : State}

/-- Behind the program in braces, when the block has come to the given state. -/
def closed (t : State) : State := ((P.braced.behind t).popScope 1 (P.size + 3)).rise

theorem blockBegun_ready {k : Nat} (enough : P.tokens.length + 2 < k) :
    Ready P.braced k blockBegun where
  formed := P.braced_formed
  inside := by
    rw [size_braced]
    exact Nat.succ_lt_succ (Nat.succ_pos _)
  frames f mem inner := by
    rcases List.mem_cons.mp mem with rfl | mem
    · refine ⟨0, Nat.zero_le _, ?_, _, rfl, rfl⟩
      rw [token_opening]
      rfl
    · exact absurd (List.mem_singleton.mp mem ▸ rfl) inner
  room_lt := by
    have pos : blockBegun.pos = 1 := rfl
    unfold room
    rw [size_braced, pos]
    omega

/-- Where the program ends the block is closed. -/
theorem token_closing (inside : s.pos < P.plain.tokens.size) (pos : t.pos = s.pos + 1)
    (ends : (P.plain.token s.pos).isEnd = true) :
    P.braced.token t.pos = closingBrace (P.size + 2) ∧ t.pos = P.tokens.length + 1 := by
  obtain ⟨u, u', at_s, at_t, ⟨_, mem, _⟩ | ⟨last, _, rfl⟩⟩ := P.tokens_moved inside
  · rw [token_of_getElem? at_s, P.notEnd mem] at ends
    cases ends
  · rw [pos, token_of_getElem? at_t, last]
    exact ⟨rfl, rfl⟩

/-- What is read with the global scope in halves is read as the statements of the block. -/
theorem statements_inside {level level' : Nat} (deeper : level ≤ level')
    (ran : ((programFor (Grammar.level level) P.plain.rounds).run P.plain).run .halved =
      .ok ((), s)) :
    ∃ t, ((statementsFor (Grammar.level level') P.braced.rounds).run P.braced).run blockBegun =
      .ok ((), t) ∧ P.retelling.Beside s t := by
  have serves := level_inStep (P.retelling.simulation fun outside => absurd trivial outside) deeper
  have edge {t t' : Token} (same : SameInside P.size t t') (ends : t.isEnd = true) :
      t'.isPunct .closeBrace = true := by
    rcases same with ⟨notEnd, _⟩ | ⟨_, rfl⟩
    · rw [ends] at notEnd
      cases notEnd
    · rfl
  have meets := inside_inStep serves (fun _ => trivial) edge (fun _ => level_atClose level)
    P.retelling.rounds P.inside_start
  rw [ran] at meets
  obtain ⟨_, t, ran', _, beside⟩ := meets
  exact ⟨t, ran', beside⟩

section
variable (w : Walk P.braced blockBegun t) (closing : P.braced.token t.pos = closingBrace (P.size + 2))
include w closing

/-- The brace that closes the block ends it. -/
theorem closeBrace_ends :
    (closeBraceScope 1).Ends P.braced (fun _ => False) (fun _ u => u = P.closed t) t := by
  have frames : t.frames = ⟨1, .brace 0, 0⟩ :: [rootFrame] := w.frames_eq
  have behind : P.braced.behind t = t.consume (closingBrace (P.size + 2)) :=
    congrArg t.consume closing
  have begun : blockBegun =
      P.braced.behind (State.start.deepen.pushScope .block "block" 0 (.brace 0)) :=
    congrArg _ P.token_opening.symm
  have opens : (P.braced.token 0).opens? = some .brace := by rw [token_opening]; rfl
  have closes : (P.braced.token t.pos).closes? = some .brace := by rw [closing]; rfl
  rw [begun] at w
  have top : closesTop P.braced t = true :=
    closesTop_iff.mpr ⟨_, _, 0, frames, rfl, w.partner_of_pair P.braced_formed opens closes⟩
  rw [Build.ends_closeBraceScope, if_pos (by rw [closing]; rfl), if_pos top, closing, closed, behind]
  exact (Build.ends_closeScope_top (s := t.consume (closingBrace (P.size + 2)))
    (f := ⟨1, .brace 0, 0⟩) frames).mpr rfl

/-- The block is a statement, when what is in it is read. -/
theorem block_ends {g : Grammar}
    (statements : ((statementsFor g P.braced.rounds).run P.braced).run blockBegun = .ok ((), t)) :
    (statement g .list).Ends P.braced (fun _ => False) (fun _ u => u = P.closed t) .start := by
  have here : P.braced.token State.start.pos = openingBrace := P.token_opening
  have allowed : ¬ P.braced.limit < State.start.depth + 1 :=
    Nat.not_lt.mpr (Nat.succ_le_succ (Nat.zero_le P.limit))
  have begun : (State.start.deepen.pushScope .block "block" openingBrace.span.start
      (.brace State.start.pos)).consume (P.braced.token 0) = blockBegun :=
    congrArg _ P.token_opening
  rw [statement, Build.ends_bind, Build.ends_read, Build.ends_bind]
  refine (labelsFor_none (by rw [here]; rfl)).mono fun _ u same => ?_
  subst same
  rw [unlabeled, Build.ends_bind, Build.ends_current, here]
  show (block g .block "block").Ends _ _ _ _
  simp only [block, Build.join]
  rw [Build.ends_bind, Build.ends_here, here, Build.ends_bind, Build.ends_ite, if_neg (by decide),
    Build.ends_pure, Build.ends_bind, Build.ends_current, here, Build.ends_bind, Build.ends_get,
    Build.ends_bind, Build.ends_openScope, if_neg allowed, Build.ends_bind, Build.ends_advance]
  change (Builder.statements g >>= fun _ => closeBraceScope 1).Ends _ _ _
    (State.consume _ (P.braced.token 0))
  rw [begun, Builder.statements, bind_assoc, Build.ends_bind, Build.ends_read, Build.ends_bind]
  refine (Build.ends_iff_run.mpr statements).mono fun _ u same => ?_
  subst same
  exact P.closeBrace_ends w closing

end

/-- A program that is read with the global scope in halves is read in braces, where the block is the
inner half. -/
theorem run_braced
    (ran : ((programFor (Grammar.level P.plain.levels) P.plain.rounds).run P.plain).run .halved =
      .ok ((), s))
    (ends : (P.plain.token s.pos).isEnd = true) :
    ∃ t, P.retelling.Beside s t ∧ Walk P.braced blockBegun t ∧
      run P.braced.levels P.braced = .ok (P.closed t) := by
  -- The block is read one level below the program, which has four to spare.
  have levels : P.plain.levels ≤ 2 * P.tokens.length + 7 := by
    rw [Context.levels, Context.rounds, size_plain]
    omega
  have levels' : P.braced.levels = 2 * P.tokens.length + 7 + 1 := by
    rw [Context.levels, Context.rounds, size_braced]
    omega
  have rounds' : P.braced.rounds = P.tokens.length + 2 + 1 + 1 := by
    rw [Context.rounds, size_braced]
  obtain ⟨t, statements, beside⟩ := P.statements_inside levels ran
  obtain ⟨closing, place⟩ := P.token_closing beside.inside beside.pos ends
  have w : Walk P.braced blockBegun t := by
    have enough : P.tokens.length + 2 < (2 * P.tokens.length + 7) / 2 := by omega
    have more : P.braced.tokens.size - blockBegun.pos < P.braced.rounds :=
      Nat.lt_succ_of_le (Nat.sub_le ..)
    have reads := statementsFor_reads (Grammar.level_serves P.braced (2 * P.tokens.length + 7)) more
      (P.blockBegun_ready enough)
    unfold Build.Ends at reads
    rw [statements] at reads
    exact reads.1
  have behind : P.braced.behind t = t.consume (closingBrace (P.size + 2)) :=
    congrArg t.consume closing
  have frames : t.frames = ⟨1, .brace 0, 0⟩ :: [rootFrame] := w.frames_eq
  refine ⟨t, beside, w, run_ok_iff.mpr ⟨Build.ends_iff_run.mp ?_, ?_⟩⟩
  · have first : P.braced.token State.start.pos = openingBrace := P.token_opening
    have atLast : (P.braced.token (P.closed t).pos).isEnd = true := by
      have pos : (P.closed t).pos = P.tokens.length + 2 := by
        rw [closed, behind]
        exact congrArg (· + 1) place
      rw [pos, token_behind]
      rfl
    rw [levels', rounds', programFor, Build.ends_bind, Build.ends_current, Build.ends_ite,
      if_neg (by rw [first]; decide)]
    refine (P.block_ends w closing statements).andThen fun _ u same => ?_
    rw [same, programFor, Build.ends_bind, Build.ends_current, Build.ends_ite, if_pos atLast]
    exact rfl
  · rw [State.openFrame?, closed, State.rise_frames, State.popScope_frames, behind]
    change Option.filter _ t.frames.tail.head? = none
    rw [frames]
    rfl

end Program

end Builder

end Scoping
