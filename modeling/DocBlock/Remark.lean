import DocBlock.Text.Case

/-! What a function body tells about the function: remarks in its comments that start with a marker
word, and the values of its return statements. -/

namespace DocBlock

open Text (ofString)

inductive RemarkKind where
  | todo | note
  deriving DecidableEq, Repr

structure Remark where
  kind : RemarkKind
  text : Text
  deriving DecidableEq, Repr

namespace Remark

/-- The marker words in the order in which they are tried. -/
def markers : List (RemarkKind × Text) :=
  [(.todo, ofString "todo"), (.todo, ofString "fixme"), (.todo, ofString "fix-me"),
    (.note, ofString "note"), (.note, ofString "nb")]

/-- The text of a comment behind a marker word that ends at `stop`, where `start` is the place of
the word: fillers after the word and the closing frame are left off. -/
def body (t : Text) (start stop : Nat) : Text :=
  let first := stop + ((t.drop stop).takeWhile Sym.isFiller).length
  let last := start + (Text.trimRight Sym.isFrame (t.drop start)).length
  (t.take last).drop first

/-- The remark of a comment that is given with its opening frame. Case does not matter for the
marker word. -/
def ofComment? (t : Text) : Option Remark :=
  let start := (t.takeWhile Sym.isFiller).length
  let lowered := t.lower.drop start
  (markers.find? fun m => m.2.isPrefixOf lowered).map fun m =>
    { kind := m.1, text := body t start (start + m.2.length) }

end Remark

/-- The inside of an expression that is one pair of parentheses around text without another opening
one; any other expression as it is. -/
def unwrap (e : Text) : Text :=
  if e.head? = some (.char '(') && e.count (.char '(') = 1 && e.getLast? = some (.char ')') then
    Text.strip (e.drop 1).dropLast
  else e

/-- The value that a return statement, given without its terminator, returns. -/
def returnValue? (t : Text) : Option Text := do
  let rest ← Text.afterWord? (ofString "return") t
  let value := unwrap rest.strip
  if value.isEmpty then none else some value

end DocBlock
