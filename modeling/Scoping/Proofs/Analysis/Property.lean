import Scoping.Analysis.Basic
import Scoping.Proofs.Build.Property
import Scoping.Proofs.Token.Respell

/-!
# Names of properties

The name of a property means nothing to scoping: a source with another word in its place, a keyword or
not, has the same tree and the same uses of names, or is refused for the same error at the same place
(`analyze_propertyName`).

A word is not only the name of a property, though. The lexer and the builder look at it without asking
what stands before it: to tell whether a slash behind it divides, whether it begins the header or the
block of a statement, and whether a line end behind it closes a statement. The two words must be
`Exchangeable` there. Two that are no keywords always are (`analyze_propertyName_of_identifier`); a
keyword and another word may not be (`analyze_propertyName_header`).
-/

namespace Scoping

open Builder

/-- Between these tokens one word does as well as the other: no slash behind changes its meaning, and the
token behind does not show whether an expression can end with the word. -/
structure Exchangeable (earlier later : List Token) (t u : Token) : Prop where
  slashes : ((earlier.foldl Lookbehind.push .start).push t).agreesOn
    ((earlier.foldl Lookbehind.push .start).push u) later = true
  operand : later.head?.any Token.asksOperand = true → u.endsExpression = t.endsExpression

instance (earlier later : List Token) (t u : Token) : Decidable (Exchangeable earlier later t u) :=
  decidable_of_iff (((earlier.foldl Lookbehind.push .start).push t).agreesOn
      ((earlier.foldl Lookbehind.push .start).push u) later = true ∧
      (later.head?.any Token.asksOperand = true → u.endsExpression = t.endsExpression))
    ⟨fun ⟨slashes, operand⟩ => ⟨slashes, operand⟩, fun ⟨slashes, operand⟩ => ⟨slashes, operand⟩⟩

theorem Lookbehind.agreesOn_refl (l : Lookbehind) (ts : List Token) : l.agreesOn l ts = true := by
  induction ts generalizing l with
  | nil => rfl
  | cons t ts ih => simp [agreesOn, ih]

/-- Two identifiers are exchangeable, and so is a keyword with itself, wherever they stand. -/
theorem Exchangeable.of_kind {earlier later : List Token} {t u : Token} (word : t.isWord = true)
    (kind : u.kind = t.kind) : Exchangeable earlier later t u := by
  have ends : u.endsExpression = t.endsExpression := by
    unfold Token.isWord at word
    unfold Token.endsExpression
    rw [kind]
    split at word <;> simp_all
  have same (l : Lookbehind) : l.push u = l.push t := by
    unfold Lookbehind.push
    simp only [kind, ends]
  refine ⟨?_, fun _ => ends⟩
  rw [same]
  exact Lookbehind.agreesOn_refl _ _

/-- Sources with one tree have the same uses of names. -/
theorem analyze_eq_of_treeOf {source source' : String} {options : Options}
    (same : treeOf source' options = treeOf source options) :
    (analyze source' options).map (fun a => (a.tree, a.bound)) =
      (analyze source options).map (fun a => (a.tree, a.bound)) := by
  unfold analyze
  rw [same]
  cases treeOf source options <;> rfl

section
variable {source source' name : String} {options : Options} {ts earlier later : List Token}
  {selector word : Token} {before behind : List Char}
  (lexed : tokenize source options.maxTokens = .ok ts)
  (tokens : significant ts = earlier ++ selector :: word :: later)
  (selects : selector.isSelector = true) (place : word.span.start = byteSize before)
  (text : source.toList = before ++ (word.lexeme.toList ++ behind))
  (text' : source'.toList = before ++ (name.toList ++ behind))
  (named : isName name.toList = true) (size : name.length = word.lexeme.length)
include lexed tokens selects place text text' named size

/-- With another word in place of the name of a property a source has the same tree, or the same error. -/
theorem treeOf_respell (isWord : word.isWord = true)
    (exchangeable : Exchangeable (earlier ++ [selector]) later word (word.respell name)) :
    treeOf source' options = treeOf source options := by
  have mark : ∃ p, selector.kind = .punctuation p := by
    simp only [Token.isSelector, Token.isPunct, Bool.or_eq_true, beq_iff_eq] at selects
    exact selects.elim (fun dot => ⟨_, dot⟩) fun dot => ⟨_, dot⟩
  obtain ⟨front, back, rfl, kept, kept', lexed'⟩ := tokenize_respell lexed tokens mark isWord place
    text text' named size exchangeable.slashes
  have trees : Tree.ofTokens (front ++ word.respell name :: back) options.maxNestingDepth =
      Tree.ofTokens (front ++ word :: back) options.maxNestingDepth :=
    ofTokens_property kept selects isWord (word.isWord_respell name) rfl
      fun asks => exchangeable.operand (kept' ▸ asks)
  unfold treeOf
  rw [lexed, lexed']
  dsimp only
  rw [trees]

/-- Two names that are no keywords do as well as each other, whatever stands around them. -/
theorem analyze_propertyName_of_identifier (identifier : word.kind = .identifier)
    (identifier' : (word.respell name).kind = .identifier) :
    (analyze source' options).map (fun a => (a.tree, a.bound)) =
      (analyze source options).map (fun a => (a.tree, a.bound)) := by
  have isWord : word.isWord = true := by rw [Token.isWord, identifier]
  exact analyze_eq_of_treeOf (treeOf_respell lexed tokens selects place text text' named size isWord
    (.of_kind isWord (identifier'.trans identifier.symm)))

end

/-- Another word in place of the name of a property leaves the tree and the uses of names as they are,
or the error. -/
theorem analyze_propertyName {source source' name : String} {options : Options}
    {ts earlier later : List Token} {selector word : Token} {before behind : List Char}
    (lexed : tokenize source options.maxTokens = .ok ts)
    (tokens : significant ts = earlier ++ selector :: word :: later)
    (selects : selector.isSelector = true) (isWord : word.isWord = true)
    (place : word.span.start = byteSize before)
    (text : source.toList = before ++ (word.lexeme.toList ++ behind))
    (text' : source'.toList = before ++ (name.toList ++ behind))
    (named : isName name.toList = true) (size : name.length = word.lexeme.length)
    (exchangeable : Exchangeable (earlier ++ [selector]) later word (word.respell name)) :
    (analyze source' options).map (fun a => (a.tree, a.bound)) =
      (analyze source options).map (fun a => (a.tree, a.bound)) :=
  analyze_eq_of_treeOf
    (treeOf_respell lexed tokens selects place text text' named size isWord exchangeable)

/-- A keyword in place of a name, with a regular expression further on. -/
theorem analyze_propertyName_keyword : ∃ a a',
    analyze "x => x.key = /y/" Options.standard = .ok a ∧
      analyze "x => x.for = /y/" Options.standard = .ok a' ∧ a.tree.scopes.size = 2 ∧
      a'.tree = a.tree ∧ a'.bound = a.bound := by
  have made : (analyze "x => x.key = /y/" Options.standard).toOption.map
      (fun a => a.tree.scopes.size) = some 2 := by decide +kernel
  obtain ⟨a, ok, size⟩ := Option.map_eq_some_iff.mp made
  have cut : (tokenize "x => x.key = /y/" none).toOption.bind (fun ts =>
      (significant ts)[3]?.bind fun dot => (significant ts)[4]?.map fun key =>
        dot.isSelector && key.isWord && key.span.start == 7 && key.lexeme == "key" &&
          decide (Exchangeable ((significant ts).take 3 ++ [dot]) ((significant ts).drop 5) key
            (key.respell "for"))) = some true := by decide +kernel
  obtain ⟨ts, lexed, cut⟩ := Option.bind_eq_some_iff.mp cut
  obtain ⟨dot, at_dot, cut⟩ := Option.bind_eq_some_iff.mp cut
  obtain ⟨key, at_key, holds⟩ := Option.map_eq_some_iff.mp cut
  simp only [Bool.and_eq_true, beq_iff_eq, decide_eq_true_eq] at holds
  obtain ⟨⟨⟨⟨selects, isWord⟩, place⟩, spelled⟩, exchangeable⟩ := holds
  have lexed : tokenize "x => x.key = /y/" Options.standard.maxTokens = .ok ts :=
    ok_of_toOption lexed
  have tokens : significant ts =
      (significant ts).take 3 ++ dot :: key :: (significant ts).drop 5 := by
    obtain ⟨inside, rfl⟩ := List.getElem?_eq_some_iff.mp at_dot
    obtain ⟨inside', rfl⟩ := List.getElem?_eq_some_iff.mp at_key
    rw [← List.drop_eq_getElem_cons inside', ← List.drop_eq_getElem_cons inside,
      List.take_append_drop]
  have text : "x => x.key = /y/".toList =
      "x => x.".toList ++ (key.lexeme.toList ++ " = /y/".toList) := by
    rw [spelled]
    decide +kernel
  have text' : "x => x.for = /y/".toList =
      "x => x.".toList ++ ("for".toList ++ " = /y/".toList) := by decide +kernel
  have same := analyze_propertyName lexed tokens selects isWord (place.trans (by decide +kernel))
    text text' (by decide) (by rw [spelled]; decide) exchangeable
  rw [ok_of_toOption ok] at same
  cases made' : analyze "x => x.for = /y/" Options.standard with
  | error e =>
    rw [made'] at same
    cases same
  | ok a' =>
    rw [made'] at same
    obtain ⟨tree, bound⟩ := Prod.mk.inj (Except.ok.inj same)
    exact ⟨a, a', ok_of_toOption ok, rfl, size, tree, bound⟩

/-- A keyword that begins the header of a statement is taken for one behind a selector too, so a slash
behind its parentheses does not divide. -/
theorem analyze_propertyName_header :
    ((tokenize "a.fi(b) /c" none).toOption.map fun ts => match significant ts with
      | _ :: dot :: name :: _ => dot.isSelector && name.isWord && name.lexeme == "fi"
      | _ => false) = some true ∧ isName "if".toList = true ∧
      (∃ a, analyze "a.fi(b) /c" Options.standard = .ok a) ∧
      (analyze "a.if(b) /c" Options.standard).toOption = none := by
  have made : (analyze "a.fi(b) /c" Options.standard).toOption.isSome = true := by decide +kernel
  obtain ⟨a, ok⟩ := Option.isSome_iff_exists.mp made
  exact ⟨by decide +kernel, by decide, ⟨a, ok_of_toOption ok⟩, by decide +kernel⟩

/- No expression ends with such a keyword, not even where it names a property: so a line end closes no
statement behind it, and the function that follows is part of the expression. -/
example :
    (analyze "a.fi\nfunction f()\x7b\x7d" Options.standard).toOption.map (·.tree.bindings) =
        some #[⟨0, "f", .function, ⟨14, 15⟩, #[], 0⟩] ∧
      (analyze "a.if\nfunction f()\x7b\x7d" Options.standard).toOption.map (·.tree.bindings) =
        some #[⟨0, "f", .function, ⟨14, 15⟩, #[], 1⟩] := by
  constructor <;> decide +kernel

end Scoping
