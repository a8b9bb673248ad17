import Scoping.Proofs.Build.Finish

/-!
# Balanced brackets

A list of tokens is balanced when its brackets are properly nested: each opening one is closed by one
of its shape, and what stands between the two is balanced. That says nothing of the pass that pairs
brackets; that the pass gives every bracket of a balanced list a partner inside the list, wherever the
list stands and whatever comes behind, is proved here (`Balanced.settled`).

What a walk of the builder passes over is balanced (`Walk.between`). A tree is only made by a walk up
to the first end of input, so all brackets before it are balanced, whatever stands behind.
-/

namespace Scoping

/-- The brackets of the list are properly nested, and each is closed by one of its shape. -/
inductive Balanced : List Token → Prop
  | nil : Balanced []
  | token {t : Token} : t.opens? = none → t.closes? = none → Balanced [t]
  | append {ts us : List Token} : Balanced ts → Balanced us → Balanced (ts ++ us)
  | enclose {first last : Token} {inner : List Token} {shape : Bracket} :
    first.opens? = some shape → Balanced inner → last.closes? = some shape →
    Balanced (first :: (inner ++ [last]))

/-- The token opens or closes a bracket. -/
def Token.isBracket (t : Token) : Bool := t.opens?.isSome || t.closes?.isSome

theorem Token.isBracket_of_neither {t : Token} (opens : t.opens? = none)
    (closes : t.closes? = none) : t.isBracket = false := by
  rw [Token.isBracket, opens, closes]
  rfl

/-! ## The pass over a balanced list -/

namespace BracketScan

/-- The tokens at two places are each other's partners, and neither stands open. -/
def Paired (b : BracketScan) (m n : Nat) : Prop := b.Settled m n ∧ b.Settled n m

theorem Paired.step {b : BracketScan} {m n : Nat} (h : b.Paired m n) (t : Token) :
    (b.step t).Paired m n :=
  ⟨h.1.step t, h.2.step t⟩

theorem Paired.foldl {b : BracketScan} {m n : Nat} (h : b.Paired m n) (ts : List Token) :
    (ts.foldl BracketScan.step b).Paired m n :=
  ⟨h.1.foldl ts, h.2.foldl ts⟩

theorem Paired.symm {b : BracketScan} {m n : Nat} (h : b.Paired m n) : b.Paired n m := ⟨h.2, h.1⟩

end BracketScan

namespace Balanced

variable {ts : List Token}

/-- A balanced list leaves open what stood open before. -/
theorem opened_foldl (h : Balanced ts) (b : BracketScan) :
    (ts.foldl BracketScan.step b).opened = b.opened := by
  induction h generalizing b with
  | nil => rfl
  | token opens closes => rw [List.foldl_cons, BracketScan.step_of_neither opens closes]; rfl
  | append _ _ ih ih' => rw [List.foldl_append, ih', ih]
  | @enclose first last inner shape opens _ closes ih =>
    rw [List.foldl_cons, List.foldl_append, List.foldl_cons, List.foldl_nil,
      BracketScan.step_of_closes closes, BracketScan.leave, ih, BracketScan.step_of_opens opens,
      BracketScan.enter]
    simp only [↓reduceIte]

/-- Behind a bracket that opens, a balanced list leaves that bracket open on top. -/
theorem opened_inside {first : Token} {shape : Bracket} (h : Balanced ts)
    (opens : first.opens? = some shape) (b : BracketScan) :
    (ts.foldl BracketScan.step (b.step first)).opened = (b.partners.size, shape) :: b.opened := by
  rw [h.opened_foldl, BracketScan.step_of_opens opens]
  rfl

/-- Every bracket of a balanced list has a partner in the list. -/
theorem settled (h : Balanced ts) {b : BracketScan} (tidy : b.Tidy) {n : Nat} {t : Token}
    (at_n : ts[n]? = some t) (bracket : t.isBracket = true) :
    ∃ m < ts.length, (ts.foldl BracketScan.step b).Paired (b.partners.size + n)
      (b.partners.size + m) := by
  induction h generalizing b n with
  | nil => cases at_n
  | token opens closes =>
    rw [List.getElem?_singleton] at at_n
    split at at_n
    · cases at_n
      rw [Token.isBracket_of_neither opens closes] at bracket
      cases bracket
    · cases at_n
  | @append ts us _ _ ih ih' =>
    rw [List.foldl_append, List.length_append]
    by_cases left : n < ts.length
    · rw [List.getElem?_append_left left] at at_n
      obtain ⟨m, inside, paired⟩ := ih tidy at_n
      exact ⟨m, Nat.lt_add_right _ inside, paired.foldl us⟩
    · rw [List.getElem?_append_right (Nat.not_lt.mp left)] at at_n
      obtain ⟨m, inside, paired⟩ := ih' (tidy.foldl ts) at_n
      refine ⟨ts.length + m, Nat.add_lt_add_left inside _, ?_⟩
      rw [BracketScan.size_foldl] at paired
      have place : b.partners.size + ts.length + (n - ts.length) = b.partners.size + n := by omega
      rw [place, Nat.add_assoc] at paired
      exact paired
  | @enclose first last inner shape opens balanced closes ih =>
    have tidy' := (tidy.step first).foldl inner
    have opened := balanced.opened_inside opens b
    have size := BracketScan.size_foldl b (first :: inner)
    rw [List.foldl_cons, List.length_cons] at size
    have ends : ((first :: (inner ++ [last])).foldl BracketScan.step b).Paired
        b.partners.size (b.partners.size + (inner.length + 1)) := by
      rw [List.foldl_cons, List.foldl_append, ← size]
      exact ⟨tidy'.settled opened closes, tidy'.settled_closing opened closes⟩
    rw [List.length_cons, List.length_append, List.length_singleton]
    cases n with
    | zero => exact ⟨inner.length + 1, Nat.lt_succ_self _, ends⟩
    | succ n =>
      rw [List.getElem?_cons_succ] at at_n
      by_cases within : n < inner.length
      · rw [List.getElem?_append_left within] at at_n
        obtain ⟨m, inside, paired⟩ := ih (tidy.step first) at_n
        refine ⟨m + 1, by omega, ?_⟩
        rw [List.foldl_cons, List.foldl_append]
        rw [BracketScan.size_step] at paired
        have places (k : Nat) : b.partners.size + 1 + k = b.partners.size + (k + 1) := by omega
        rw [places, places] at paired
        exact paired.step last
      · have inside := (List.getElem?_eq_some_iff.mp at_n).1
        rw [List.length_append, List.length_singleton] at inside
        obtain rfl : n = inner.length := by omega
        exact ⟨0, Nat.succ_pos _, ends.symm⟩

/-- The pass over a bracket, a balanced list and the bracket that closes. -/
theorem partners_enclose {first last : Token} {inner : List Token} {shape : Bracket}
    (opens : first.opens? = some shape) (balanced : Balanced inner)
    (closes : last.closes? = some shape) {own : List (Option Nat)} (b : BracketScan)
    (inside : (inner.foldl BracketScan.step (b.step first)).partners.toList =
      (b.step first).partners.toList ++ own) :
    ((first :: (inner ++ [last])).foldl BracketScan.step b).partners.toList =
      b.partners.toList ++ some (b.partners.size + (inner.length + 1)) ::
        (own ++ [some b.partners.size]) := by
  have size := BracketScan.size_foldl b (first :: inner)
  rw [List.foldl_cons, List.length_cons] at size
  rw [BracketScan.step_of_opens opens, BracketScan.enter] at inside
  rw [List.foldl_cons, List.foldl_append, List.foldl_cons, List.foldl_nil,
    BracketScan.step_of_closes closes, BracketScan.leave, balanced.opened_inside opens]
  simp only [↓reduceIte, size, Array.toList_push, Array.toList_setIfInBounds]
  rw [BracketScan.step_of_opens opens, BracketScan.enter, inside, Array.toList_push,
    List.append_assoc, List.set_append_right _ _ (by simp)]
  simp

/-- A balanced list pairs its brackets by itself, wherever it stands. -/
theorem partners_foldl (h : Balanced ts) (b : BracketScan) :
    (ts.foldl BracketScan.step b).partners.toList = b.partners.toList ++
      (matchBrackets ts).toList.map (Option.map (b.partners.size + ·)) := by
  have moved (m n : Nat) (l : List (Option Nat)) :
      l.map (Option.map (m + n + ·)) = (l.map (Option.map (n + ·))).map (Option.map (m + ·)) := by
    rw [List.map_map]
    refine List.map_congr_left fun o _ => ?_
    cases o <;> simp [Nat.add_assoc]
  have start (n : Nat) : BracketScan.start.partners.size + n = n := Nat.zero_add n
  induction h generalizing b with
  | nil => simp [matchBrackets, BracketScan.start]
  | @token t opens closes =>
    simp [matchBrackets, BracketScan.step_of_neither opens closes, BracketScan.skip, BracketScan.start]
  | @append ts us _ _ ih ih' =>
    have whole : (matchBrackets (ts ++ us)).toList = (matchBrackets ts).toList ++
        (matchBrackets us).toList.map (Option.map (ts.length + ·)) := by
      have both := ih' (ts.foldl BracketScan.step .start)
      rw [← List.foldl_append, BracketScan.size_foldl] at both
      rw [start] at both
      exact both
    rw [List.foldl_append, ih', ih, BracketScan.size_foldl, whole, List.map_append, moved,
      List.append_assoc]
  | @enclose first last inner shape opens balanced closes ih =>
    have whole : (matchBrackets (first :: (inner ++ [last]))).toList = some (inner.length + 1) ::
        ((matchBrackets inner).toList.map (Option.map (1 + ·)) ++ [some 0]) := by
      have all := balanced.partners_enclose opens closes .start (ih _)
      rw [BracketScan.size_step, start, start] at all
      exact all
    rw [balanced.partners_enclose opens closes b (ih _), whole, BracketScan.size_step, moved]
    simp

/-- In all the tokens a bracket of a balanced beginning has its partner in that beginning. -/
theorem partner (h : Balanced ts) (behind : List Token) {n : Nat} {t : Token}
    (at_n : ts[n]? = some t) (bracket : t.isBracket = true) :
    ∃ m < ts.length, (matchBrackets (ts ++ behind))[n]? = some (some m) ∧
      (matchBrackets (ts ++ behind))[m]? = some (some n) := by
  obtain ⟨m, inside, paired⟩ := h.settled BracketScan.tidy_start at_n bracket
  have whole : matchBrackets (ts ++ behind) =
      (behind.foldl BracketScan.step (ts.foldl BracketScan.step .start)).partners := by
    rw [← List.foldl_append]
    rfl
  have start (k : Nat) : BracketScan.start.partners.size + k = k := Nat.zero_add k
  rw [start, start] at paired
  rw [whole]
  exact ⟨m, inside, (paired.foldl behind).1.1, (paired.foldl behind).2.1⟩

end Balanced

/-! ## What a walk passes over -/

namespace Builder

variable {c : Context} {s t : State}

/-- Between two places stand the given tokens, balanced and none an end of input. -/
structure Context.Between (c : Context) (m n : Nat) (ts : List Token) : Prop where
  rest : c.tokens.toList.drop m = ts ++ c.tokens.toList.drop n
  balanced : Balanced ts
  notEnd : ∀ u ∈ ts, u.isEnd = false

namespace Context

theorem Between.nil (n : Nat) : c.Between n n [] := ⟨rfl, .nil, nofun⟩

theorem Between.append {l m n : Nat} {ts us : List Token} (h : c.Between l m ts)
    (k : c.Between m n us) : c.Between l n (ts ++ us) where
  rest := by rw [h.rest, k.rest, List.append_assoc]
  balanced := .append h.balanced k.balanced
  notEnd u mem := (List.mem_append.mp mem).elim (h.notEnd u) (k.notEnd u)

namespace Formed

variable (formed : c.Formed)
include formed

/-- A token that is not the end stands before the rest. -/
theorem drop_eq {n : Nat} (notEnd : (c.token n).isEnd = false) :
    c.tokens.toList.drop n = c.token n :: c.tokens.toList.drop (n + 1) := by
  obtain ⟨inside, at_n⟩ := Array.getElem?_eq_some_iff.mp (formed.token_at notEnd).1
  rw [List.drop_eq_getElem_cons (by simpa using inside), Array.getElem_toList, at_n]

theorem between_token {n : Nat} (flat : (c.token n).isFlat = true) :
    c.Between n (n + 1) [c.token n] := by
  obtain ⟨notEnd, opens, closes⟩ := Token.isFlat_iff.mp flat
  exact ⟨formed.drop_eq notEnd, .token opens closes, by simpa using notEnd⟩

theorem between_behind (flat : (c.token s.pos).isFlat = true) :
    c.Between s.pos (c.behind s).pos [c.token s.pos] :=
  behind_pos_of_isFlat flat ▸ formed.between_token flat

theorem between_enclose {m n : Nat} {shape : Bracket} {ts : List Token}
    (opens : (c.token m).opens? = some shape) (inner : c.Between (m + 1) n ts)
    (closes : (c.token n).closes? = some shape) :
    c.Between m (n + 1) (c.token m :: (ts ++ [c.token n])) := by
  have first := Token.isEnd_of_opens? opens
  have last := Token.isEnd_of_closes? closes
  refine ⟨?_, .enclose opens inner.balanced closes, fun u mem => ?_⟩
  · rw [formed.drop_eq first, inner.rest, formed.drop_eq last]
    simp
  · rcases List.mem_cons.mp mem with rfl | mem
    · exact first
    · rcases List.mem_append.mp mem with mem | mem
      · exact inner.notEnd u mem
      · exact List.mem_singleton.mp mem ▸ last

end Formed

end Context

/-- What a walk passes over is balanced. -/
theorem Walk.between (w : Walk c s t) (formed : c.Formed) : ∃ ts, c.Between s.pos t.pos ts := by
  induction w with
  | stay s => exact ⟨[], .nil s.pos⟩
  | trans _ _ first second =>
    obtain ⟨ts, first⟩ := first
    obtain ⟨us, second⟩ := second
    exact ⟨ts ++ us, first.append second⟩
  | pass h => exact ⟨_, formed.between_behind h.isFlat⟩
  | @select s h =>
    have flat := Token.isFlat_of_isSelector h
    rcases behindSelector_cases h with e | ⟨word, e⟩
    · exact ⟨_, e ▸ formed.between_behind flat⟩
    · rw [← behind_pos_of_isFlat flat] at word
      rw [e]
      exact ⟨_, (formed.between_behind flat).append
        (formed.between_behind (Token.isFlat_of_isWord word))⟩
  | use name =>
    rw [State.refer_pos]
    exact ⟨_, formed.between_behind (Token.isFlat_of_isIdentifier name)⟩
  | name name _ =>
    rw [State.declare_pos]
    exact ⟨_, formed.between_behind (Token.isFlat_of_isIdentifier name)⟩
  | pair opens _ closes inner =>
    obtain ⟨ts, inner⟩ := inner
    rw [behind_pos (Token.isEnd_of_opens? opens)] at inner
    rw [behind_pos (Token.isEnd_of_closes? closes)]
    exact ⟨_, formed.between_enclose opens inner closes⟩
  | deeper _ _ inner => exact inner
  | @scope s opened t u opener _ opening _ _ _ header body =>
    obtain ⟨ts, header⟩ := header
    obtain ⟨us, body⟩ := body
    rw [State.reopen_pos] at body
    cases opening with
    | plain _ => exact ⟨_, header.append body⟩
    | named name _ =>
      rw [State.declare_pos] at header
      have own := formed.between_behind (Token.isFlat_of_isIdentifier name)
      exact ⟨_, (own.append header).append body⟩

/-! ## From tokens and from a source -/

/-- A walk up to an end of input has passed over all tokens before the first one. -/
theorem Walk.balanced_takeWhile (w : Walk c .start s) (formed : c.Formed)
    (atEnd : (c.token s.pos).isEnd = true) :
    Balanced (c.tokens.toList.takeWhile (!·.isEnd)) ∧
      ∃ behind, c.tokens.toList = c.tokens.toList.takeWhile (!·.isEnd) ++ behind := by
  obtain ⟨ts, rest, balanced, notEnd⟩ := w.between formed
  have inside := w.inside formed formed.nonempty
  have next : c.tokens.toList.drop s.pos = c.token s.pos :: c.tokens.toList.drop (s.pos + 1) := by
    rw [List.drop_eq_getElem_cons (by simpa using inside), Context.token,
      Array.getD_eq_getD_getElem?, Array.getElem?_eq_getElem inside]
    rfl
  have whole : c.tokens.toList = ts ++ c.token s.pos :: c.tokens.toList.drop (s.pos + 1) :=
    rest.trans (congrArg (ts ++ ·) next)
  have read : c.tokens.toList.takeWhile (!·.isEnd) = ts := by
    rw [whole, List.takeWhile_append_of_pos fun u mem => by rw [notEnd u mem]; rfl]
    simp [atEnd]
  rw [read]
  exact ⟨balanced, _, whole⟩

/-- The tokens of a source before its end of input are all but the last. -/
theorem takeWhile_significant {ts : List Token} {cs : List Char} (tiling : Tiling 0 cs ts) :
    ∃ final, final.isEnd = true ∧
      significant ts = (significant ts).takeWhile (!·.isEnd) ++ [final] := by
  obtain ⟨before, final, rfl, atEnd, _, notEnds⟩ := tiling.exists_final
  have kept := significant_append_end before atEnd
  refine ⟨final, atEnd, ?_⟩
  rw [kept, List.takeWhile_append_of_pos fun u mem => ?_]
  · simp [atEnd]
  · rw [notEnds u (List.mem_filter.mp mem).1]
    rfl

/-- What makes a tree has its brackets balanced up to the first end of input, each paired with one
before that end. Of a source that is all of its tokens: where brackets are crossed or left over, there
is no tree. -/
theorem ofTokens_balanced {ts : List Token} {limit : Nat} {t : Tree}
    (h : Tree.ofTokens ts limit = .ok t) :
    Balanced ((significant ts).takeWhile (!·.isEnd)) ∧
      (∀ (n : Nat) (u : Token), ((significant ts).takeWhile (!·.isEnd))[n]? = some u →
        u.isBracket = true → ∃ m < ((significant ts).takeWhile (!·.isEnd)).length,
          (matchBrackets (significant ts))[n]? = some (some m) ∧
          (matchBrackets (significant ts))[m]? = some (some n)) ∧
      ∀ (source : String) (most : Option Nat), tokenize source most = .ok ts →
        Balanced (significant ts) := by
  obtain ⟨final, s, last, formed, w, atEnd, rfl⟩ := ofTokens_ok h
  have tokens : (Context.ofTokens ts final limit).tokens.toList = significant ts := rfl
  obtain ⟨balanced, behind, whole⟩ := w.balanced_takeWhile formed atEnd
  rw [tokens] at balanced whole
  refine ⟨balanced, ?pairs, ?source⟩
  case pairs =>
    intro n u at_n bracket
    have paired := balanced.partner behind at_n bracket
    rw [← whole] at paired
    exact paired
  case source =>
    intro source most lexed
    obtain ⟨final, atEnd, all⟩ := takeWhile_significant (tokenize_tiling lexed)
    have kind : final.kind = .endOfInput := by simpa [Token.isEnd] using atEnd
    rw [all]
    exact .append balanced (.token (by simp [Token.opens?, kind]) (by simp [Token.closes?, kind]))

/-- The three shapes inside each other: the parenthesis is paired with the last token. -/
theorem ofTokens_balanced_nested : ∃ ts t, tokenize "g({ a: [1] })" none = .ok ts ∧
    Tree.ofTokens ts 3 = .ok t ∧ Balanced (significant ts) ∧
      ∃ m, (matchBrackets (significant ts))[1]? = some (some m) ∧
        (matchBrackets (significant ts))[m]? = some (some 1) := by
  have made : (tokenize "g({ a: [1] })" none).toOption.bind (fun ts =>
      (Tree.ofTokens ts 3).toOption.bind fun _ =>
        (((significant ts).takeWhile (!·.isEnd))[1]?).map (·.isBracket)) = some true := by
    decide +kernel
  obtain ⟨ts, lexed, made⟩ := Option.bind_eq_some_iff.mp made
  obtain ⟨t, built, made⟩ := Option.bind_eq_some_iff.mp made
  obtain ⟨u, at_one, bracket⟩ := Option.map_eq_some_iff.mp made
  have lexed := ok_of_toOption lexed
  have built := ok_of_toOption built
  obtain ⟨_, pairs, source⟩ := ofTokens_balanced built
  obtain ⟨m, _, paired⟩ := pairs 1 u at_one bracket
  exact ⟨ts, t, lexed, built, source _ _ lexed, m, paired⟩

end Builder

end Scoping
