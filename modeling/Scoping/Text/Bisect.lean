/-!
# Binary search

`bisect p n` counts the positions below `n` that satisfy `p`, for a `p` that holds of an initial
segment. Each step halves the interval, so `n` steps are more than enough; the count is the fuel.
-/

namespace Scoping

/-- The search over the positions from `lo` up to `hi`, all below `lo` being known to satisfy `p`
and none from `hi` on. -/
def bisectBetween (p : Nat → Bool) : (fuel lo hi : Nat) → Nat
  | 0, lo, _ => lo
  | fuel + 1, lo, hi =>
    if lo < hi then
      let mid := (lo + hi) / 2
      if p mid then bisectBetween p fuel (mid + 1) hi else bisectBetween p fuel lo mid
    else lo

/-- How many positions below `n` satisfy `p`, when those that do come first. -/
def bisect (p : Nat → Bool) (n : Nat) : Nat := bisectBetween p n 0 n

end Scoping
