import Scoping.Build.Run
import Scoping.Resolve.Bound
import Scoping.Text.Line
import Scoping.Token.Lexer

/-!
# Analyses

An analysis is a source with its lines, its scope tree and its bound references. It is made in
three steps, tokens, tree and binding; the first error of the first two wins, and no part of an
analysis is given beside an error.
-/

namespace Scoping

/-- The bounds of an analysis. -/
structure Options where
  /-- How many tokens a source may have. -/
  maxTokens : Option Nat
  /-- How deep scopes and bracketed groups may nest. -/
  maxNestingDepth : Nat
  deriving DecidableEq, Repr, Inhabited

/-- Any number of tokens, and nesting as deep as a machine's stack surely bears. -/
def Options.standard : Options := ⟨none, 512⟩

/-- Why a source cannot be analysed. -/
inductive AnalysisError where
  | lex (e : LexError)
  | parse (e : ParseError)
  deriving DecidableEq, Repr, Inhabited

namespace AnalysisError

/-- The offset of the error. -/
def position : AnalysisError → Nat
  | lex e => e.position
  | parse e => e.position

/-- The error in words. -/
def message : AnalysisError → String
  | lex e => e.message
  | parse e => e.message

end AnalysisError

/-- A source with what is known of its names. -/
structure Analysis where
  source : String
  lines : LineMap
  tree : Tree
  bound : Bound
  deriving DecidableEq, Repr, Inhabited

/-- The scope tree of a source. -/
def treeOf (source : String) (options : Options) : Except AnalysisError Tree :=
  match tokenize source options.maxTokens with
  | .error e => .error (.lex e)
  | .ok ts =>
    match Tree.ofTokens ts options.maxNestingDepth with
    | .error e => .error (.parse e)
    | .ok tree => .ok tree

/-- Analyses a source within bounds. -/
def analyze (source : String) (options : Options) : Except AnalysisError Analysis :=
  match treeOf source options with
  | .error e => .error e
  | .ok tree => .ok ⟨source, LineMap.ofSource source, tree, tree.bind⟩

/-- Analyses each source by itself; the answers are in the order of the sources. -/
def analyzeAll (sources : List String) (options : Options) :
    List (Except AnalysisError Analysis) :=
  sources.map (analyze · options)

end Scoping
