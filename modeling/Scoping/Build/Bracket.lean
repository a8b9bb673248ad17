import Scoping.Token.Basic

/-!
# Matching brackets

Each bracket token is paired with its partner in one pass over the tokens, with a stack of the
brackets that stand open. A closing bracket pairs with the innermost open one if that has its shape;
if not, it is left without a partner and the stack stays as it is. What is open at the end has no
partner either.

Pairs are numbered by the places of their tokens in the list, and no pair depends on what comes
behind it.
-/

namespace Scoping

/-- The pass over a prefix of the tokens: for each its partner, if it has one in the prefix, and the
open brackets with their places, innermost first. -/
structure BracketScan where
  partners : Array (Option Nat)
  opened : List (Nat × Bracket)
  deriving DecidableEq, Repr, Inhabited

namespace BracketScan

def start : BracketScan := ⟨#[], []⟩

/-- A token with no partner in the prefix. -/
def skip (b : BracketScan) : BracketScan := { b with partners := b.partners.push none }

/-- An opening bracket. -/
def enter (b : BracketScan) (shape : Bracket) : BracketScan :=
  ⟨b.partners.push none, (b.partners.size, shape) :: b.opened⟩

/-- A closing bracket. -/
def leave (b : BracketScan) (shape : Bracket) : BracketScan :=
  match b.opened with
  | (place, top) :: below =>
    if top = shape then
      let here := b.partners.size
      ⟨(b.partners.setIfInBounds place (some here)).push (some place), below⟩
    else b.skip
  | [] => b.skip

/-- The pass moves on by one token. -/
def step (b : BracketScan) (t : Token) : BracketScan :=
  match t.kind with
  | .punctuation p =>
    match p.opens?, p.closes? with
    | some shape, _ => b.enter shape
    | none, some shape => b.leave shape
    | none, none => b.skip
  | _ => b.skip

end BracketScan

/-- The partner of each token, by place. -/
def matchBrackets (ts : List Token) : Array (Option Nat) :=
  (ts.foldl BracketScan.step .start).partners

end Scoping
