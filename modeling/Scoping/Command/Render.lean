import Scoping.Analysis.Report

/-!
# Reports for the terminal

The scope tree as lines of text: the path, then for each scope a line with its label, its kind and
where it begins and ends, and a line for each of its bindings, indented by depth. Lines and columns
are counted from one here.

With colour, a piece of text is put between the codes of its style and a reset. A reset inside the
text is followed by the codes again, so that the rest of the text keeps its style.
-/

namespace Scoping

namespace Render

/-- How a piece of text is set off. -/
inductive Style where
  | path | globalLabel | functionLabel | innerLabel | name | faint | warning | error
  deriving DecidableEq, Repr, Inhabited

/-- The terminal's codes for a style. -/
def Style.codes : Style → String
  | path | globalLabel => "1"
  | functionLabel => "1;36"
  | innerLabel => "34"
  | name => "32"
  | faint => "2"
  | warning => "33"
  | error => "1;31"

/-- Repeats `codes` behind every reset in a text. -/
def keepStyle (codes : List Char) : List Char → List Char
  | '\x1b' :: '[' :: '0' :: 'm' :: rest =>
    ['\x1b', '[', '0', 'm'] ++ codes ++ keepStyle codes rest
  | c :: rest => c :: keepStyle codes rest
  | [] => []

/-- A text in a style, if colour is wanted. -/
def paint (color : Bool) (style : Style) (text : String) : String :=
  if color then
    let codes := "\x1b[" ++ style.codes ++ "m"
    codes ++ String.ofList (keepStyle codes.toList text.toList) ++ "\x1b[0m"
  else text

/-- The style of a scope's label. -/
def labelStyle : ScopeKind → Style
  | .global => .globalLabel
  | .function => .functionLabel
  | .block | .loop => .innerLabel

/-- A position, counted from one. -/
def place (p : Position) : String := toString (p.line + 1) ++ ":" ++ toString (p.character + 1)

/-- The indentation at some depth. -/
def indent (depth : Nat) : String := String.ofList (List.replicate (2 * depth) ' ')

/-- How often a name is used, in words. -/
def uses (n : Nat) : String := if n = 1 then "1 use" else toString n ++ " uses"

/-- The line of a scope. -/
def scopeLine (a : Analysis) (color : Bool) (depth : Nat) (s : Scope) : String :=
  let r := a.range s.range
  indent depth ++ paint color (labelStyle s.kind) s.label ++ " "
    ++ paint color .faint ("(" ++ s.kind.text ++ ")") ++ " "
    ++ place r.startPosition ++ "-" ++ place r.endPosition

/-- The line of a binding. -/
def bindingLine (a : Analysis) (color : Bool) (depth : Nat) (b : Binding) : String :=
  let count := match a.occurrencesOf b.id with
    | .ok os => os.length
    | .error _ => 0
  indent depth ++ "  " ++ b.kind.label ++ " " ++ paint color .name b.name ++ " "
    ++ paint color .faint ("(" ++ uses count ++ ")")

/-- The lines of a scope and of at most `levels` levels below it. -/
def scopeLines (a : Analysis) (color : Bool) : (levels depth : Nat) → Scope → List String
  | levels, depth, s =>
    scopeLine a color depth s :: (a.bindingsOf s).map (bindingLine a color depth) ++
      match levels with
      | 0 => []
      | levels + 1 =>
        (s.children.toList.filterMap a.tree.scope?).flatMap (scopeLines a color levels (depth + 1))

/-- The lines of a source's scope tree, under its path. -/
def treeLines (a : Analysis) (color : Bool) (path : String) : List String :=
  paint color .path path :: scopeLines a color a.tree.scopes.size 0 a.root

/-- Lines as a text: each is ended by a newline. -/
def unlines (lines : List String) : String := lines.foldl (fun out line => out ++ line ++ "\n") ""

/-- The scope tree of a source. -/
def tree (a : Analysis) (color : Bool) (path : String) : String := unlines (treeLines a color path)

/-- The line of an occurrence that nothing declares. -/
def unresolvedLine (a : Analysis) (color : Bool) (path : String) (o : Occurrence) : String :=
  paint color .path path ++ ":" ++ place (a.lines.position o.span.start) ++ " - "
    ++ paint color .warning "warning" ++ ": `" ++ o.name
    ++ "` is not declared in any enclosing scope"

/-- A line for each occurrence that nothing declares. -/
def unresolved (a : Analysis) (color : Bool) (path : String) : String :=
  unlines (a.unresolved.map (unresolvedLine a color path))

/-- The line of a failure. -/
def failureLine (color : Bool) (location message : String) : String :=
  location ++ " - " ++ paint color .error "error" ++ ": " ++ message

/-- A source that cannot be analysed. -/
def error (color : Bool) (path source : String) (e : AnalysisError) : String :=
  let position := (LineMap.ofSource source).position e.position
  unlines [failureLine color (paint color .path path ++ ":" ++ place position) e.message]

/-- A file that fails for a reason without a place in it. -/
def fileError (color : Bool) (path message : String) : String :=
  unlines [failureLine color (paint color .path path) message]

end Render

end Scoping
