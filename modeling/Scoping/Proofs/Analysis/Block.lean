import Scoping.Proofs.Analysis.Lexical
import Scoping.Proofs.Build.Nest
import Scoping.Proofs.Build.Slash
import Scoping.Proofs.Build.Table

/-!
# Programs in braces

A source between braces is one block, and means in it what it meant (`analyze_inBraces`). Its tokens are
the same a byte further, since the lexer takes the brace for one of a block and so remembers of the
tokens before a slash what it would remember without it (`Lookbehind.Within`); and its tree is the tree
in a block.

A name that the global scope declares both by `var` and by `let` has one binding there, and would have
two. A binding keeps its latest kind alone, so which names these are is found by a run with a block open
inside the global scope (`declaredBothWays`).
-/

namespace Scoping

open Builder

/-! ## Slashes -/

namespace Lookbehind

/-- Where nothing stood before, the brace does. -/
def Behind (k k' : Option TokenKind) : Prop :=
  k' = k ∨ k = none ∧ k' = some (.punctuation .openBrace)

/-- What is remembered of a text, and of the text in a block, which is open below all that the text
opens. -/
structure Within (l l' : Lookbehind) : Prop where
  afterOperand : l'.afterOperand = l.afterOperand
  last : Behind l.last l'.last
  beforeLast : Behind l.beforeLast l'.beforeLast
  headers : l'.headers = l.headers
  blocks : l'.blocks = l.blocks ++ [true]

variable {l l' : Lookbehind} {ts : List Token}

theorem agreesOn_append (l l' : Lookbehind) (ts us : List Token) : l.agreesOn l' (ts ++ us) =
    (l.agreesOn l' ts && (ts.foldl push l).agreesOn (ts.foldl push l') us) := by
  induction ts generalizing l l' with
  | nil => rfl
  | cons t ts ih => rw [List.cons_append, agreesOn, agreesOn, ih, Bool.and_assoc]; rfl

theorem opensBlock_behind {k k' : Option TokenKind} (h : Behind k k') :
    opensBlock k' = opensBlock k := by
  rcases h with rfl | ⟨rfl, rfl⟩ <;> rfl

theorem opensHeader_behind {k k' m m' : Option TokenKind} (h : Behind k k') (g : Behind m m') :
    opensHeader k' m' = opensHeader k m := by
  rcases h with rfl | ⟨rfl, rfl⟩
  · rcases g with rfl | ⟨rfl, rfl⟩
    · rfl
    · unfold opensHeader
      split <;> rfl
  · rfl

theorem within_start : Within start (start.push openingBrace) :=
  ⟨rfl, .inr ⟨rfl, rfl⟩, .inl rfl, rfl, rfl⟩

namespace Within

variable (h : Within l l')
include h

/-- One more token is remembered alike, if it does not close the block. -/
theorem push {t : Token} (inside : t.isPunct .closeBrace = true → l.blocks ≠ []) :
    Within (l.push t) (l'.push t) := by
  have header := opensHeader_behind h.last h.beforeLast
  have block := opensBlock_behind h.last
  have last : Behind (some t.kind) (some t.kind) := .inl rfl
  unfold Token.isPunct at inside
  unfold Lookbehind.push
  split
  · exact ⟨rfl, last, h.last, by rw [header, h.headers], h.blocks⟩
  · exact ⟨by rw [h.headers], last, h.last, by rw [h.headers], h.blocks⟩
  · exact ⟨rfl, last, h.last, h.headers, by rw [block, h.blocks, List.cons_append]⟩
  · next kind =>
    obtain ⟨b, blocks, e⟩ := List.exists_cons_of_ne_nil (inside (by rw [kind]; rfl))
    have e' : l'.blocks = b :: (blocks ++ [true]) := by rw [h.blocks, e, List.cons_append]
    exact ⟨by rw [e, e']; rfl, last, h.last, h.headers, by rw [e, e']; rfl⟩
  · exact ⟨rfl, last, h.last, h.headers, h.blocks⟩

theorem agreesOn_singleton (t : Token) : l.agreesOn l' [t] = true := by
  simp [Lookbehind.agreesOn, h.afterOperand]

/-- Over balanced tokens the memories agree on every slash, and go on doing so. -/
theorem balanced (all : Balanced ts) :
    l.agreesOn l' ts = true ∧ Within (ts.foldl Lookbehind.push l) (ts.foldl Lookbehind.push l') := by
  induction all generalizing l l' with
  | nil => exact ⟨rfl, h⟩
  | @token t opens closes =>
    refine ⟨h.agreesOn_singleton t, h.push fun closing => ?_⟩
    rw [Token.closes?, eq_of_beq closing] at closes
    cases closes
  | append _ _ ih ih' =>
    obtain ⟨agrees, h⟩ := ih h
    obtain ⟨agrees', h⟩ := ih' h
    rw [agreesOn_append, agrees, agrees', List.foldl_append, List.foldl_append]
    exact ⟨rfl, h⟩
  | @enclose first last inner shape opens inside closes ih =>
    have opening : first.isPunct .closeBrace = true → l.blocks ≠ [] := by
      intro closing
      rw [Token.opens?, eq_of_beq closing] at opens
      cases opens
    obtain ⟨agrees, within⟩ := ih (h.push opening)
    have open' : last.isPunct .closeBrace = true →
        (inner.foldl Lookbehind.push (l.push first)).blocks ≠ [] := by
      intro closing
      rw [Token.closes?, eq_of_beq closing] at closes
      cases closes
      rw [blocks_foldl inside, blocks_of_openBrace (Token.isPunct_of_opens? opens)]
      exact List.cons_ne_nil _ _
    rw [← List.singleton_append, agreesOn_append, h.agreesOn_singleton, agreesOn_append]
    simp only [List.foldl_append, List.foldl_cons, List.foldl_nil]
    rw [agrees, within.agreesOn_singleton]
    exact ⟨rfl, within.push open'⟩

end Within

end Lookbehind

/-- The names that the global scope of a source declares both ways. -/
def declaredBothWays (source : String) (limit : Nat) : List String :=
  match tokenize source none with
  | .error _ => []
  | .ok ts => (ts.getLast?.map fun final => bothWays (.ofTokens ts final limit)).getD []

/-! ## Analyses -/

variable {source : String} {limit : Nat}

/-- The scope of a use is nested no deeper than may be. -/
theorem treeOf_shallow {options : Options} {t : Tree} (h : treeOf source options = .ok t) :
    ∀ r ∈ t.references, ∃ l, WayUp t.scopes (r.scope :: l) ∧ l.length ≤ options.maxNestingDepth := by
  obtain ⟨ts, c, s, _, _, limit, formed, spaced, w, rfl⟩ := treeOf_walk h
  intro r mem
  obtain ⟨n, _, _, sits⟩ := (w.named formed spaced).uses r mem
  obtain ⟨l, way, few⟩ := w.shaped.shallow r.scope sits.inside
  exact ⟨l, (alike_tree s _).wayUp way, limit ▸ few⟩

/-- The names declared both ways are those that the run over the source declares in the global scope by
declarations of both kinds. Of what it declares there each binding has the places of its name. -/
theorem mem_declaredBothWays_iff {t : Tree} (h : treeOf source ⟨none, limit⟩ = .ok t) :
    ∃ (s : State) (made : List (Token × BindingKind)), t.bindings = s.bindings ∧
      DeclaredGlobally s made ∧
      (∀ x ∈ t.bindings, x.scope = globalScope →
        x.declarations = placesOf made x.name fun _ => true) ∧
      ∀ name, name ∈ declaredBothWays source limit ↔
        (∃ d ∈ made, d.1.lexeme = name ∧ d.2.hoists = true) ∧
          ∃ d ∈ made, d.1.lexeme = name ∧ d.2.hoists = false := by
  obtain ⟨ts, final, s, lexed, last, formed, _, ran, rfl⟩ := treeOf_run h
  have lexed : tokenize source none = .ok ts := lexed
  obtain ⟨made, declares, whole, both⟩ := mem_bothWays_iff (run_ok_iff.mp ran).1
  refine ⟨s, made, rfl, declares, fun x mem root => ?_, fun name => ?_⟩
  · obtain ⟨b, at_b⟩ := Array.mem_iff_getElem?.mp mem
    have at_b : s.bindings[b]? = some x := at_b
    have found := (run_walk formed ran).1.table.1.found b x at_b
    rw [root] at found
    rw [← whole, declaredAt, found, Option.bind_some, at_b, Option.elim_some]
  · rw [← both name, declaredBothWays, lexed]
    simp [last]

/-- A source that makes a tree has the same tokens in braces. -/
theorem tokenize_inBraces_of_balanced {before : List Token} {final : Token}
    (lexed : tokenize source none = .ok (before ++ [final])) (atEnd : final.isEnd = true)
    (noScript : ¬ ['#', '!'] <+: source.toList) (balanced : Balanced (significant before)) :
    tokenize (inBraces source) none = .ok (bracedTokens before (byteSize source.toList)) := by
  have kind := Token.kind_of_isEnd atEnd
  have all : Balanced (significant (before ++ [final])) := by
    rw [significant_append_end before atEnd]
    exact .append balanced (.token (by simp [Token.opens?, kind]) (by simp [Token.closes?, kind]))
  exact tokenize_inBraces lexed atEnd noScript (Lookbehind.within_start.balanced all).1

/-- A source in braces, with one level more to nest, has the tree of the source in a block, and every use
of a name has the binding that it had, unless the global scope declares a name both ways. -/
theorem analyze_inBraces {a : Analysis} (noScript : ¬ ['#', '!'] <+: source.toList)
    (shallow : limit + 1 < walkLimit) (h : analyze source ⟨none, limit⟩ = .ok a)
    (apart : declaredBothWays source limit = []) :
    ∃ a', analyze (inBraces source) ⟨none, limit + 1⟩ = .ok a' ∧ a.tree.InBlock a'.tree ∧
      a'.bound.occurrences = a.bound.occurrences.map Occurrence.inBlock := by
  obtain ⟨built, bound⟩ := analyze_ok h
  obtain ⟨ts, lexed, made⟩ := treeOf_ok built
  obtain ⟨before, final, rfl, atEnd, span, notEnds⟩ := (tokenize_tiling lexed).exists_final
  have lexed : tokenize source none = .ok (before ++ [final]) := lexed
  have balanced := balanced_of_ofTokens made notEnds
  have lexed' := tokenize_inBraces_of_balanced lexed atEnd noScript balanced
  have size : byteSize source.toList = final.span.stop := by
    rw [span, Nat.zero_add]
    rfl
  have apart : bothWays (Context.ofTokens (before ++ [final]) final limit) = [] := by
    simpa [declaredBothWays, lexed] using apart
  rw [size] at lexed'
  obtain ⟨t', built', inBlock, rooted, rooted'⟩ :=
    Program.ofTokens_braced ⟨before, final, limit, atEnd, notEnds, balanced⟩ made apart
  refine ⟨⟨inBraces source, .ofSource (inBraces source), t', t'.bind⟩, ?analyzed, inBlock, ?uses⟩
  case analyzed =>
    unfold analyze treeOf
    rw [lexed']
    dsimp only
    rw [built']
  case uses =>
    rw [bound]
    refine inBlock.bind_occurrences rooted rooted' fun r mem => ?_
    obtain ⟨l, way, few⟩ := treeOf_shallow built r mem
    exact ⟨l, way, Nat.lt_of_le_of_lt (Nat.succ_le_succ few) shallow⟩

/-- In braces `x` stays in the global scope, `y` is at home in the block, and the use of each is bound as
it was. -/
theorem analyze_inBraces_homes : ∃ a a', analyze "var x; let y = x; y" ⟨none, 0⟩ = .ok a ∧
    analyze (inBraces "var x; let y = x; y") ⟨none, 1⟩ = .ok a' ∧ a.tree.InBlock a'.tree ∧
      a'.tree.bindings.map (·.scope) = #[0, 1] ∧
      a'.bound.occurrences.map (·.resolved) = #[some 0, some 1] := by
  have made : (analyze "var x; let y = x; y" ⟨none, 0⟩).toOption.map
      (fun a => ((a.tree.bindings.map Binding.inBlock).map (·.scope),
        (a.bound.occurrences.map Occurrence.inBlock).map (·.resolved))) =
          some (#[0, 1], #[some 0, some 1]) := by decide +kernel
  obtain ⟨a, ok, known⟩ := Option.map_eq_some_iff.mp made
  obtain ⟨homes, uses⟩ := Prod.mk.inj known
  have h := ok_of_toOption ok
  have noScript : ¬ ['#', '!'] <+: "var x; let y = x; y".toList := by decide
  have shallow : 0 + 1 < walkLimit := by decide
  have apart : declaredBothWays "var x; let y = x; y" 0 = [] := by decide +kernel
  obtain ⟨a', h', inBlock, occurrences⟩ := analyze_inBraces noScript shallow h apart
  refine ⟨a, a', h, h', inBlock, ?_, ?_⟩
  · rw [inBlock.bindings, homes]
  · rw [occurrences, uses]

/- A name that is declared both ways is declared twice in braces. -/
example : declaredBothWays "let x; var x; var y; var y" 0 = ["x"] ∧
    (analyze "let x; var x" ⟨none, 0⟩).toOption.map (·.tree.bindings.size) = some 1 ∧
      (analyze (inBraces "let x; var x") ⟨none, 1⟩).toOption.map (·.tree.bindings.size) = some 2 := by
  refine ⟨?_, ?_, ?_⟩ <;> decide +kernel

end Scoping
