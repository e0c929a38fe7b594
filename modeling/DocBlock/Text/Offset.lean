import DocBlock.Text.Basic

/-! Moving an offset over a run of symbols, forwards or backwards, up to a bound that the caller
chooses freely. `none` says that the run goes past the end of the text before the bound is met. -/

namespace DocBlock.Text

/-- Length of the leading run of class `p`, looking at no more than `limit` symbols. -/
def runLength? (p : Sym → Bool) : Nat → Text → Option Nat
  | 0, _ => some 0
  | _ + 1, [] => none
  | limit + 1, s :: rest => if p s then (runLength? p limit rest).map (· + 1) else some 0

/-- Moves `start` forwards over the class `p`, no further than `stop`. -/
def skip? (p : Sym → Bool) (t : Text) (start stop : Nat) : Option Nat :=
  (runLength? p (stop - start) (t.drop start)).map (start + ·)

/-- Moves `stop` backwards over the class `p`, no further than `start`. -/
def trim? (p : Sym → Bool) (t : Text) (stop start : Nat) : Option Nat :=
  if stop ≤ start then some stop
  else if t.length < stop then none
  else some (start + (trimRight p ((t.take stop).drop start)).length)

end DocBlock.Text
