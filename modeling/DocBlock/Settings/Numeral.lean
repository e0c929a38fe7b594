import DocBlock.Text.Basic

/-! Integers written in a text. The plain form is an optional minus and digits without a needless zero
in front. A text that is not in plain form is tidied once and then has to be. -/

namespace DocBlock.Numeral

/-- Blanks that may surround a number: the separators U+001C to U+001F are not among them. -/
def isPadding (c : Char) : Bool := inRanges blankRanges c && !(28 ≤ c.toNat && c.toNat < 32)

def trimPadding (cs : List Char) : List Char :=
  ((cs.dropWhile isPadding).reverse.dropWhile isPadding).reverse

def isPositiveDigit (c : Char) : Bool := c.isDigit && c ≠ '0'

def splitMinus : List Char → Bool × List Char
  | '-' :: cs => (true, cs)
  | cs => (false, cs)

def digitsValue (ds : List Char) : Nat := ds.foldl (fun n c => n * 10 + (c.toNat - '0'.toNat)) 0

/-- The number in plain form. -/
def plain? (cs : List Char) : Option Int :=
  let (negative, ds) := splitMinus cs
  let isPlain := ds = ['0'] || (ds.head?.any isPositiveDigit && ds.all Char.isDigit)
  if isPlain then some (if negative then -(digitsValue ds : Int) else digitsValue ds) else none

/-- The most symbols that a plain number may have, its minus included. -/
def maxLength : Nat := 4300

/-- What stands in front is already a plain number that is too long. -/
def isTooLong (cs : List Char) : Bool :=
  let (negative, ds) := splitMinus cs
  let digits := (ds.takeWhile Char.isDigit).length
  ds.head?.any isPositiveDigit && maxLength < digits + (if negative then 1 else 0)

/-- What follows a zero and any zeros and underscores behind it. A minus may still come there. One
symbol is kept if nothing else is left or a point follows. -/
def afterZero? (last : Char) : List Char → Option (List Char)
  | [] => some [last]
  | c :: cs =>
    if c = '0' || c = '_' then afterZero? c cs
    else if isPositiveDigit c || c = '-' then some (c :: cs)
    else if c = '.' then some (last :: c :: cs)
    else none

/-- The number without needless zeros, which it may also have behind its minus. -/
def dropZeros? : List Char → Option (List Char)
  | [] => none
  | c :: cs =>
    if c = '0' then afterZero? c cs
    else if isPositiveDigit c then some (c :: cs)
    else if c = '-' then (dropZeros? cs).map ('-' :: ·)
    else none

def dropPlus? : List Char → Option (List Char)
  | '+' :: '-' :: _ => none
  | '+' :: cs => some cs
  | cs => some cs

/-- A point with nothing but zeros behind it, at least one, is left off. -/
def dropFraction (cs : List Char) : List Char :=
  let whole := cs.takeWhile (· ≠ '.')
  let fraction := cs.drop (whole.length + 1)
  if !fraction.isEmpty && fraction.all (· = '0') then whole else cs

/-- Single underscores inside the number are left off. -/
def dropUnderscores (cs : List Char) : List Char :=
  if (cutAt (· = '_') cs).all (!·.isEmpty) then cs.filter (· ≠ '_') else cs

def tidy? (cs : List Char) : Option (List Char) := do
  let cs ← dropPlus? (trimPadding cs)
  let cs ← dropZeros? cs
  return dropUnderscores (dropFraction cs)

inductive Refusal where
  | notInteger | tooLong
  deriving DecidableEq, Repr

/-- A text that turns out too long only after tidying is no integer. -/
def read (s : String) : Except Refusal Int :=
  let cs := s.toList
  if isTooLong cs then .error .tooLong
  else
    match plain? cs, tidy? cs with
    | some n, _ => .ok n
    | none, none => .error .notInteger
    | none, some ds =>
      if isTooLong ds then .error .notInteger else (plain? ds).elim (.error .notInteger) .ok

end DocBlock.Numeral
