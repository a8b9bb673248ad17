import Scoping.Command.Render
import Scoping.Proofs.Analysis.Report
import Scoping.Proofs.Build.Label

/-!
# The lines of a terminal report

Without colour a report is the path, and for each scope, in pre-order, its own line and one for each of
its bindings (`Listed`). A scope's line is indented by the scopes around it and begins with its label.
Every other part of an item is on one line: the words of the report, numbers, and names, in which
nothing stands that may stand between tokens. So the text has a line for each item and one more for
each line feed in a label (`Listed.count`).

A label with a line feed is the text of a quoted key of the source (`Listed.broken`): strings go on
behind an escaped line end, and templates over any. That such a label is cut or escaped is nowhere to
be found.
-/

namespace Scoping

open Builder

namespace Render

/-! ## Lines as text -/

theorem unlines_toList (lines : List String) :
    (unlines lines).toList = lines.flatMap fun line => line.toList ++ ['\n'] := by
  have onto (out : String) : (lines.foldl (fun out line => out ++ line ++ "\n") out).toList =
      out.toList ++ lines.flatMap fun line => line.toList ++ ['\n'] := by
    induction lines generalizing out with
    | nil => simp
    | cons line lines ih =>
      rw [List.foldl_cons, ih, List.flatMap_cons, String.toList_append, String.toList_append]
      simp only [List.append_assoc]
      rfl
  exact onto ""

/-- The line feeds of a text: one behind each line, and those in the lines. -/
theorem count_unlines (lines : List String) : (unlines lines).toList.count '\n' =
    lines.length + (lines.flatMap String.toList).count '\n' := by
  rw [unlines_toList]
  induction lines with
  | nil => rfl
  | cons line lines ih =>
    rw [List.flatMap_cons, List.count_append, List.count_append, ih, List.length_cons,
      List.flatMap_cons, List.count_append]
    have behind : ['\n'].count '\n' = 1 := rfl
    omega

/-- A text on one line. -/
def Flat (s : String) : Prop := s.toList.count '\n' = 0

instance (s : String) : Decidable (Flat s) := inferInstanceAs (Decidable (_ = 0))

theorem flat_iff {s : String} : Flat s ↔ '\n' ∉ s.toList := List.count_eq_zero

theorem Flat.of_visible {s : String} (visible : (s.toList.all fun x => !isGap x) = true) : Flat s := by
  rw [flat_iff]
  intro mem
  exact absurd (List.all_eq_true.mp visible _ mem) (by decide)

theorem count_append (s t : String) :
    (s ++ t).toList.count '\n' = s.toList.count '\n' + t.toList.count '\n' := by
  rw [String.toList_append, List.count_append]

theorem Flat.append {s t : String} (h : Flat s) (g : Flat t) : Flat (s ++ t) := by
  unfold Flat at *
  rw [count_append, h, g]

theorem flat_number (n : Nat) : Flat (toString n) := by
  rw [flat_iff]
  intro mem
  have digits : (toString n).toList = Nat.toDigits 10 n := String.toList_ofList
  rw [digits] at mem
  exact absurd (Nat.isDigit_of_mem_toDigits (by decide) (by decide) mem) (by decide)

theorem flat_indent (depth : Nat) : Flat (indent depth) := by
  rw [flat_iff, indent, String.toList_ofList]
  intro mem
  exact absurd (List.eq_of_mem_replicate mem) (by decide)

theorem flat_place (p : Position) : Flat (place p) :=
  ((flat_number _).append (by decide)).append (flat_number _)

theorem flat_uses (n : Nat) : Flat (uses n) := by
  unfold uses
  split
  · decide
  · exact (flat_number n).append (by decide)

/-! ## The lines of scopes and bindings -/

section
variable {a : Analysis}

/-- The line of a scope: its label behind the indentation, and what is on one line. -/
theorem scopeLine_eq (depth : Nat) (s : Scope) : ∃ rest, Flat rest ∧
    scopeLine a false depth s = indent depth ++ (s.label ++ rest) := by
  have kind : Flat ("(" ++ s.kind.text ++ ")") := by cases s.kind <;> decide
  have start := flat_place (a.range s.range).startPosition
  have stop := flat_place (a.range s.range).endPosition
  refine ⟨" " ++ (("(" ++ s.kind.text ++ ")") ++ (" " ++ (place (a.range s.range).startPosition ++
    ("-" ++ place (a.range s.range).endPosition)))), ?_, ?_⟩
  · exact .append (by decide) (kind.append (.append (by decide) (start.append
      (.append (by decide) stop))))
  · simp only [scopeLine, paint, Bool.false_eq_true, ↓reduceIte, String.append_assoc]

theorem count_scopeLine (depth : Nat) (s : Scope) :
    (scopeLine a false depth s).toList.count '\n' = s.label.toList.count '\n' := by
  obtain ⟨rest, flat, line⟩ := @scopeLine_eq a depth s
  have before := flat_indent depth
  unfold Flat at flat before
  rw [line, count_append, count_append, flat, before]
  omega

/-- The line of a binding: two blanks further in, its kind and its name, and what is on one line. -/
theorem bindingLine_eq (depth : Nat) (b : Binding) : ∃ rest, Flat rest ∧
    bindingLine a false depth b = indent depth ++ ("  " ++ (b.kind.label ++ (" " ++ (b.name ++ rest)))) := by
  obtain ⟨count, line⟩ : ∃ count, bindingLine a false depth b = indent depth ++ "  " ++
      b.kind.label ++ " " ++ b.name ++ " " ++ ("(" ++ uses count ++ ")") := ⟨_, rfl⟩
  refine ⟨" " ++ ("(" ++ (uses count ++ ")")), ?_, ?_⟩
  · exact .append (by decide) (.append (by decide) ((flat_uses count).append (by decide)))
  · rw [line]
    simp only [String.append_assoc]

theorem flat_bindingLine {b : Binding} (name : Flat b.name) (depth : Nat) :
    Flat (bindingLine a false depth b) := by
  obtain ⟨rest, flat, line⟩ := @bindingLine_eq a depth b
  have kind : Flat b.kind.label := by cases b.kind <;> decide
  rw [line]
  exact (flat_indent depth).append (.append (by decide) (kind.append (.append (by decide)
    (name.append flat))))

end

/-! ## The scopes in pre-order -/

/-- A scope of the tree, with the number of scopes around it. -/
def Stands (t : Tree) (x : Scope × Nat) : Prop :=
  t.scope? x.1.id = some x.1 ∧ ∃ around, WayUp t.scopes (x.1.id :: around) ∧ around.length = x.2

/-- The lines of a scope with so many scopes around it: its own, and those of its bindings. -/
def card (a : Analysis) (x : Scope × Nat) : List String :=
  scopeLine a false x.2 x.1 :: (a.bindingsOf x.1).map (bindingLine a false x.2)

section
variable {a : Analysis} (regular : a.Regular)
include regular

theorem Stands.child {x : Scope × Nat} (h : Stands a.tree x) {c : ScopeId} {y : Scope}
    (mem : c ∈ x.1.children.toList) (at_c : a.tree.scope? c = some y) :
    Stands a.tree (y, x.2 + 1) := by
  obtain ⟨at_x, around, way, length⟩ := h
  have id : y.id = c := regular.scopes.id c y at_c
  have listed := regular.scopes.listed c x.1.id y x.1 at_c at_x
  have parent : y.parent = some x.1.id := by
    by_cases parent : y.parent = some x.1.id
    · exact parent
    · rw [if_neg parent] at listed
      exact absurd mem (List.count_eq_zero.mp listed)
  refine ⟨?_, x.1.id :: around, ?_, ?_⟩
  · rw [id]
    exact at_c
  · refine .step ?_ way
    have at_y : a.tree.scopes[y.id]? = some y := by
      rw [id]
      exact at_c
    rw [parentIn, at_y, Option.bind_some, parent]
  · rw [List.length_cons, length]

/-- The lines from a scope downwards are those of the scopes that a walk downwards meets. -/
theorem scopeLines_eq {s : Scope} {depth : Nat} (here : Stands a.tree (s, depth)) (levels : Nat) :
    ∃ order : List (Scope × Nat), (∀ x ∈ order, Stands a.tree x) ∧
      order.map (·.1) = (a.tree.descendFrom (levels + 1) s.id).filterMap a.tree.scope? ∧
      scopeLines a false levels depth s = order.flatMap (card a) := by
  induction levels generalizing s depth with
  | zero =>
    have single : a.tree.descendFrom 1 s.id = [s.id] := by
      simp only [Tree.descendFrom, here.1]
      simp
    refine ⟨[(s, depth)], List.forall_mem_singleton.mpr here, ?_, ?_⟩
    · rw [single, List.filterMap_cons, here.1]
      rfl
    · rw [scopeLines, List.flatMap_singleton, List.append_nil]
      rfl
  | succ levels ih =>
    have below (cs : List ScopeId) (children : ∀ c ∈ cs, c ∈ s.children.toList) :
        ∃ order : List (Scope × Nat), (∀ x ∈ order, Stands a.tree x) ∧
          order.map (·.1) =
            (cs.flatMap (a.tree.descendFrom (levels + 1))).filterMap a.tree.scope? ∧
          (cs.filterMap a.tree.scope?).flatMap (scopeLines a false levels (depth + 1)) =
            order.flatMap (card a) := by
      induction cs with
      | nil => exact ⟨[], List.forall_mem_nil _, rfl, rfl⟩
      | cons c cs rest =>
        obtain ⟨child, others⟩ := List.forall_mem_cons.mp children
        obtain ⟨more, stand, scopes, lines⟩ := rest others
        rw [List.flatMap_cons, List.filterMap_append, ← scopes, List.filterMap_cons]
        cases at_c : a.tree.scope? c with
        | none =>
          have nothing : a.tree.descendFrom (levels + 1) c = [c] := by
            simp only [Tree.descendFrom, at_c]
          refine ⟨more, stand, ?_, lines⟩
          rw [nothing, List.filterMap_cons, at_c]
          rfl
        | some y =>
          have stands := here.child regular child at_c
          obtain ⟨inner, stand', scopes', lines'⟩ := ih stands
          have id : y.id = c := regular.scopes.id c y at_c
          refine ⟨inner ++ more, ?_, ?_, ?_⟩
          · intro x mem
            exact (List.mem_append.mp mem).elim (stand' x) (stand x)
          · rw [List.map_append, scopes', id]
          · rw [List.flatMap_cons, lines', lines, List.flatMap_append]
    obtain ⟨order, stand, scopes, lines⟩ := below s.children.toList fun _ mem => mem
    refine ⟨(s, depth) :: order, List.forall_mem_cons.mpr ⟨here, stand⟩, ?_, ?_⟩
    · have deeper : a.tree.descendFrom (levels + 2) s.id =
          s.id :: s.children.toList.flatMap (a.tree.descendFrom (levels + 1)) := by
        rw [Tree.descendFrom, here.1]
      rw [deeper, List.filterMap_cons, here.1, List.map_cons, scopes]
    · rw [scopeLines, lines, List.flatMap_cons]
      rfl

/-- There is a line for each scope and each binding. -/
theorem length_cards (order : List (Scope × Nat)) (scopes : order.map (·.1) = a.tree.scopes.toList) :
    (order.flatMap (card a)).length = a.tree.scopes.size + a.tree.bindings.size := by
  have each (order : List (Scope × Nat)) : (order.flatMap (card a)).length =
      order.length + ((order.map (·.1)).flatMap a.bindingsOf).length := by
    induction order with
    | nil => rfl
    | cons x order ih =>
      rw [List.flatMap_cons, List.length_append, ih, List.map_cons, List.flatMap_cons,
        List.length_append, card, List.length_cons, List.length_map, List.length_cons]
      omega
  have length : order.length = a.tree.scopes.size := by
    rw [← Array.length_toList, ← scopes, List.length_map]
  rw [each, length, scopes, regular.flatMap_bindingsOf.length_eq, Array.length_toList]

end

/-- The line feeds in the lines of scopes and bindings are those in the labels. -/
theorem count_cards {a : Analysis} (names : ∀ b ∈ a.tree.bindings, Flat b.name)
    (order : List (Scope × Nat)) : ((order.flatMap (card a)).flatMap String.toList).count '\n' =
      (order.flatMap fun x => x.1.label.toList).count '\n' := by
  induction order with
  | nil => rfl
  | cons x order ih =>
    have bindings : (((a.bindingsOf x.1).map (bindingLine a false x.2)).flatMap
        String.toList).count '\n' = 0 := by
      rw [List.count_eq_zero]
      intro mem
      obtain ⟨line, written, inside⟩ := List.mem_flatMap.mp mem
      obtain ⟨b, listed, rfl⟩ := List.mem_map.mp written
      obtain ⟨i, _, at_i⟩ := List.mem_filterMap.mp listed
      exact flat_iff.mp (flat_bindingLine (names b (Array.mem_of_getElem? at_i)) x.2) inside
    rw [List.flatMap_cons, List.flatMap_append, List.count_append, ih, card, List.flatMap_cons,
      List.count_append, count_scopeLine, bindings, List.flatMap_cons, List.count_append,
      Nat.add_zero]

end Render

/-! ## The terminal report of a source -/

/-- The text of a quoted key has no character that the key has not. -/
theorem mem_of_mem_keyText {x : Char} {lexeme : String} (mem : x ∈ (keyText lexeme).toList) :
    x ∈ lexeme.toList := by
  rw [keyText, String.toList_ofList, List.mem_reverse] at mem
  have mem := (List.dropWhile_suffix _).mem mem
  exact (List.dropWhile_suffix _).mem (List.mem_reverse.mp mem)

/-- Names of bindings are on one line; the label of a scope is, or it is the text of a quoted key that
is not. -/
theorem analyze_labels {source : String} {options : Options} {a : Analysis}
    (h : analyze source options = .ok a) :
    (∀ b ∈ a.tree.bindings, Render.Flat b.name) ∧
    ∀ s ∈ a.tree.scopes, ¬ Render.Flat s.label → ∃ ts t, tokenize source options.maxTokens = .ok ts ∧
      t ∈ ts ∧ t.kind = .string ∧ ¬ Render.Flat t.lexeme ∧ s.label = keyText t.lexeme := by
  obtain ⟨ts, lexed, built⟩ := treeOf_ok (analyze_ok h).1
  obtain ⟨labels, names⟩ := Builder.ofTokens_titled built
  have lexemes := (Lexer.Gives.lexed (tokenize_ok_iff.mp lexed)).1.exists_lexeme
  have flat {t : Token} (mem : t ∈ significant ts) (spells : spellsName t = true) :
      Render.Flat t.lexeme := by
    obtain ⟨_, lexeme⟩ := lexemes t mem (isEnd_of_spellsName spells)
    apply Render.Flat.of_visible
    apply lexeme.visible
    rcases Bool.or_eq_true _ _ ▸ spells with word | number
    · exact .inl (isWord_iff_kind.mp word)
    · exact .inr (eq_of_beq number)
  constructor
  · intro b mem
    obtain ⟨t, listed, isName, name⟩ := names b mem
    rw [name]
    exact flat listed (spellsName_of_isIdentifier isName)
  · intro s mem broken
    have title := labels s mem
    generalize s.label = label at title broken
    cases title with
    | fixed known =>
      have all : ∀ word ∈ scopeWords, Render.Flat word := by decide
      exact absurd (all label known) broken
    | name listed spells => exact absurd (flat listed spells) broken
    | @key t listed string =>
      refine ⟨ts, t, lexed, (List.mem_filter.mp listed).1, string, fun flat => broken ?_, rfl⟩
      rw [Render.flat_iff] at flat ⊢
      exact fun mem => flat (mem_of_mem_keyText mem)

namespace Render

/-- The terminal report of an analysis under a path, where `order` has the scopes with the number of
scopes around each. -/
structure Listed (a : Analysis) (path : String) (order : List (Scope × Nat)) : Prop where
  scopes : order.map (·.1) = a.tree.scopes.toList
  preorder : order.map (·.1.id) = a.tree.preorder
  around : ∀ x ∈ order, ∃ around, WayUp a.tree.scopes (x.1.id :: around) ∧ around.length = x.2
  /-- The bindings of a scope are those that it owns, as they were declared one after the other. -/
  bindings : ∀ x ∈ order, (a.bindingsOf x.1).Pairwise (fun b b' => b.id < b'.id) ∧
    ∀ b, b ∈ a.bindingsOf x.1 ↔ b ∈ a.tree.bindings ∧ b.scope = x.1.id
  text : tree a false path = unlines (path :: order.flatMap fun x =>
    scopeLine a false x.2 x.1 :: (a.bindingsOf x.1).map (bindingLine a false x.2))
  header : ∀ x ∈ order, ∃ rest, Flat rest ∧
    scopeLine a false x.2 x.1 = indent x.2 ++ (x.1.label ++ rest)
  entry : ∀ x ∈ order, ∀ b ∈ a.bindingsOf x.1, Flat (bindingLine a false x.2 b) ∧
    ∃ rest, bindingLine a false x.2 b =
      indent x.2 ++ ("  " ++ (b.kind.label ++ (" " ++ (b.name ++ rest))))
  count : (tree a false path).toList.count '\n' = 1 + a.tree.scopes.size + a.tree.bindings.size +
    (order.flatMap fun x => x.1.label.toList).count '\n'
  /-- There is one line for each item just where no label has a line feed. -/
  lines : (tree a false path).toList.count '\n' = 1 + a.tree.scopes.size + a.tree.bindings.size ↔
    ∀ s ∈ a.tree.scopes, Flat s.label

/-- Without colour the report of a source is the path and the lines of its scopes and bindings, one
line each but for the labels with line feeds; such a label is the text of a quoted key. -/
theorem analyze_tree {source path : String} {options : Options} {a : Analysis}
    (h : analyze source options = .ok a) (flat : Flat path) :
    (∃ order, Listed a path order) ∧
    ∀ s ∈ a.tree.scopes, ¬ Flat s.label → ∃ ts t, tokenize source options.maxTokens = .ok ts ∧
      t ∈ ts ∧ t.kind = .string ∧ ¬ Render.Flat t.lexeme ∧ s.label = keyText t.lexeme := by
  obtain ⟨names, broken⟩ := analyze_labels h
  have regular := analyze_regular h
  refine ⟨?_, broken⟩
  obtain ⟨at_root, parent⟩ := regular.root_here
  have here : Stands a.tree (a.root, 0) := by
    refine ⟨at_root, [], .root ?_ (Array.getElem?_eq_some_iff.mp at_root).1, rfl⟩
    rw [parentIn, show a.tree.scopes[a.root.id]? = some a.root from at_root, Option.bind_some, parent]
  obtain ⟨order, stand, scopes, lines⟩ := scopeLines_eq regular here a.tree.scopes.size
  rw [regular.descendFrom_root] at scopes
  have text : tree a false path = unlines (path :: order.flatMap (card a)) := by
    rw [tree, treeLines, lines]
    rfl
  have count : (tree a false path).toList.count '\n' = 1 + a.tree.scopes.size +
      a.tree.bindings.size + (order.flatMap fun x => x.1.label.toList).count '\n' := by
    have one : path.toList.count '\n' = 0 := flat
    rw [text, count_unlines, List.length_cons, length_cards regular order scopes, List.flatMap_cons,
      List.count_append, count_cards names, one]
    omega
  have known {x : Scope × Nat} (mem : x ∈ order) : x.1 ∈ a.tree.scopes := by
    rw [← Array.mem_toList_iff, ← scopes]
    exact List.mem_map_of_mem mem
  refine ⟨order, ?_⟩
  constructor
  case scopes => exact scopes
  case preorder =>
    have ids : order.map (·.1.id) = (order.map (·.1)).map (·.id) := by
      rw [List.map_map]
      rfl
    rw [ids, scopes, regular.scopes.preorder, regular.map_id_scopes]
  case around => exact fun x mem => (stand x mem).2
  case bindings =>
    intro x mem
    refine ⟨?_, fun b => regular.mem_bindingsOf_iff (known mem)⟩
    have ordered := regular.tabled.ordered x.1 (known mem)
    refine List.Pairwise.filterMap _ (fun i j less b at_i b' at_j => ?_) ordered
    rw [regular.tabled.id i b at_i, regular.tabled.id j b' at_j]
    exact less
  case text => exact text
  case header => exact fun x _ => scopeLine_eq x.2 x.1
  case entry =>
    intro x mem b listed
    have owned := ((regular.mem_bindingsOf_iff (known mem)).mp listed).1
    obtain ⟨rest, _, line⟩ := @bindingLine_eq a x.2 b
    exact ⟨flat_bindingLine (names b owned) x.2, rest, line⟩
  case count => exact count
  case lines =>
    rw [count, Nat.add_eq_left, List.count_eq_zero]
    constructor
    · intro none s mem
      rw [← Array.mem_toList_iff, ← scopes] at mem
      obtain ⟨x, listed, rfl⟩ := List.mem_map.mp mem
      exact flat_iff.mpr fun inside => none (List.mem_flatMap.mpr ⟨x, listed, inside⟩)
    · intro all mem
      obtain ⟨x, listed, inside⟩ := List.mem_flatMap.mp mem
      exact flat_iff.mp (all x.1 (known listed)) inside

/-- Two scopes with a binding each: five lines. -/
theorem analyze_tree_blocks : ∃ a order,
    analyze "let a = 1;\n\x7b let b = a; \x7d\n" Options.standard = .ok a ∧
    Listed a "app.js" order ∧ a.tree.scopes.size = 2 ∧ a.tree.bindings.size = 2 ∧
    tree a false "app.js" = "app.js\nGlobal (global) 1:1-3:1\n  let a (1 use)\n" ++
      "  block (block) 2:1-2:15\n    let b (0 uses)\n" ∧
    (tree a false "app.js").toList.count '\n' = 5 := by
  have made : (analyze "let a = 1;\n\x7b let b = a; \x7d\n" Options.standard).toOption.map
      (fun a => (a.tree.scopes.size, a.tree.bindings.size, tree a false "app.js",
        a.tree.scopes.all fun s => !s.label.toList.contains '\n')) =
      some (2, 2, "app.js\nGlobal (global) 1:1-3:1\n  let a (1 use)\n" ++
        "  block (block) 2:1-2:15\n    let b (0 uses)\n", true) := by decide +kernel
  obtain ⟨a, ok, found⟩ := Option.map_eq_some_iff.mp made
  simp only [Prod.mk.injEq] at found
  obtain ⟨scopes, bindings, text, labels⟩ := found
  have h := ok_of_toOption ok
  obtain ⟨⟨order, listed⟩, _⟩ := analyze_tree h (by decide : Flat "app.js")
  refine ⟨a, order, h, listed, scopes, bindings, text, ?_⟩
  rw [listed.lines.mpr, scopes, bindings]
  intro s mem
  have label := Array.all_eq_true_iff_forall_mem.mp labels s mem
  rw [flat_iff]
  simpa using label

/-- A method whose key goes on behind an escaped line end: the line of its scope takes two. -/
theorem analyze_tree_broken : ∃ a,
    analyze "(\x7b'a\\\nb'()\x7b\x7d\x7d)" Options.standard = .ok a ∧
    a.tree.scopes.size = 2 ∧ a.tree.bindings.size = 0 ∧ Flat "a.js" ∧
    tree a false "a.js" = "a.js\nGlobal (global) 1:1-2:9\n  a\\\nb (function) 2:3-2:7\n" ∧
    (tree a false "a.js").toList.count '\n' ≠ 1 + a.tree.scopes.size + a.tree.bindings.size := by
  have made : (analyze "(\x7b'a\\\nb'()\x7b\x7d\x7d)" Options.standard).toOption.map
      (fun a => (a.tree.scopes.size, a.tree.bindings.size, tree a false "a.js")) =
      some (2, 0, "a.js\nGlobal (global) 1:1-2:9\n  a\\\nb (function) 2:3-2:7\n") := by
    decide +kernel
  obtain ⟨a, ok, found⟩ := Option.map_eq_some_iff.mp made
  simp only [Prod.mk.injEq] at found
  obtain ⟨scopes, bindings, text⟩ := found
  refine ⟨a, ok_of_toOption ok, scopes, bindings, by decide, text, ?_⟩
  rw [text, scopes, bindings]
  decide

end Render

end Scoping
