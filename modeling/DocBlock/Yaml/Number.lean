import DocBlock.Settings.Real
import DocBlock.Text.Case
import DocBlock.Text.Digit
import DocBlock.Yaml.Fault

/-! Numbers in YAML 1.1: integers in five notations and reals, with underscores anywhere and base sixty
behind colons. -/

namespace DocBlock.Yaml

/-- The text with all digits and blanks beyond ASCII made ASCII ones; what else lies beyond becomes a
mark that no number has. -/
def plainSyms (t : Text) : List Char :=
  t.map fun
    | .char c =>
      if c.toNat < 127 then c
      else if inRanges blankRanges c then ' '
      else (decimalDigit? c).elim '?' fun d => Char.ofNat (48 + d)
    | _ => '?'

def isNumberBlank (c : Char) : Bool := c = ' ' || (9 ≤ c.toNat && c.toNat ≤ 13)

def splitSign : List Char → Bool × List Char
  | '-' :: cs => (true, cs)
  | '+' :: cs => (false, cs)
  | cs => (false, cs)

def digit? (base : Nat) (c : Char) : Option Nat :=
  let value :=
    if c.isDigit then c.toNat - '0'.toNat
    else if 'a' ≤ c ∧ c ≤ 'f' then c.toNat - 'a'.toNat + 10
    else if 'A' ≤ c ∧ c ≤ 'F' then c.toNat - 'A'.toNat + 10
    else base
  if value < base then some value else none

def digitsValue (base : Nat) (ds : List Char) : Nat :=
  ds.foldl (fun n c => n * base + (digit? base c).getD 0) 0

/-- A number may repeat the mark of its base. -/
def dropBaseMark (base : Nat) (cs : List Char) : List Char :=
  let mark := if base = 2 then "bB" else if base = 8 then "oO" else if base = 16 then "xX" else ""
  match cs with
  | '0' :: c :: rest => if mark.toList.contains c then rest else cs
  | cs => cs

/-- Decimal digits are read up to this number. -/
def maxDigits : Nat := 4300

/-- An integer with a sign and blanks around it. -/
def readInteger (base : Nat) (t : Text) : Except Fault Int :=
  let (negative, cs) := splitSign ((plainSyms t).dropWhile isNumberBlank)
  let cs := dropBaseMark base cs
  let ds := cs.takeWhile fun c => (digit? base c).isSome
  if base = 10 && maxDigits < ds.length then .error (.tooManyDigits ds.length)
  else if ds.isEmpty || !(cs.drop ds.length).all isNumberBlank then .error (.badInteger base t)
  else .ok (if negative then -(digitsValue base ds : Int) else digitsValue base ds)

def withoutUnderscores (t : Text) : Text := t.filter (· ≠ .char '_')

/-- The sign, true for minus, and the rest of a number that is not empty. -/
def splitTextSign (t : Text) : Except Fault (Bool × Text) :=
  match t with
  | [] => .error .emptyNumber
  | s :: rest => .ok (s = .char '-', if s = .char '-' || s = .char '+' then rest else t)

def colonParts (t : Text) : List Text := cutAt (· = .char ':') t

/-- An integer without sign, in the notation that its first symbols tell. -/
def unsignedInteger (t : Text) : Except Fault Int :=
  match t with
  | [] => .error .emptyNumber
  | [.char '0'] => .ok 0
  | .char '0' :: .char 'b' :: ds => readInteger 2 ds
  | .char '0' :: .char 'x' :: ds => readInteger 16 ds
  | .char '0' :: _ => readInteger 8 t
  | _ =>
    if t.contains (.char ':') then do
      let parts ← (colonParts t).mapM (readInteger 10)
      return parts.foldl (fun n d => n * 60 + d) 0
    else readInteger 10 t

def integerValue (t : Text) : Except Fault Int := do
  let (negative, t) ← splitTextSign (withoutUnderscores t)
  let n ← unsignedInteger t
  return if negative then -n else n

def trimNumberBlanks (cs : List Char) : List Char :=
  ((cs.dropWhile isNumberBlank).reverse.dropWhile isNumberBlank).reverse

/-- The exponent behind its mark; none is zero. -/
def exponent? : List Char → Option Int
  | [] => some 0
  | c :: cs =>
    let (negative, ds) := splitSign cs
    if (c = 'e' || c = 'E') && !ds.isEmpty && ds.all Char.isDigit then
      some (if negative then -(digitsValue 10 ds : Int) else digitsValue 10 ds)
    else none

/-- Digits with a point among them or not, and an exponent. -/
def decimal? (cs : List Char) : Option Real :=
  let whole := cs.takeWhile Char.isDigit
  let rest := cs.drop whole.length
  let hasPoint := rest.head? = some '.'
  let fraction := if hasPoint then (rest.drop 1).takeWhile Char.isDigit else []
  let rest := if hasPoint then rest.drop (fraction.length + 1) else rest
  if whole.isEmpty && fraction.isEmpty then none
  else (exponent? rest).map fun e =>
    .ofDecimal (digitsValue 10 (whole ++ fraction)) (e - fraction.length)

/-- A real number with a sign and blanks around it. -/
def readReal (t : Text) : Except Fault Real :=
  let (negative, cs) := splitSign (trimNumberBlanks (plainSyms t))
  let word := String.ofList (cs.map Char.toLower)
  if ["inf", "infinity", "nan"].contains word then .ok .notFinite
  else
    match decimal? cs with
    | some r => .ok (if negative then -r else r)
    | none => .error (.badReal t)

/-- The sum of the parts, of which the first counts `weight` times and each next sixty times as often as
the one before. -/
def weighted (sum : Real) (weight : Nat) : List Real → Except Fault Real
  | [] => .ok sum
  | part :: rest =>
    match Real.ofInt weight with
    | .notFinite => .error .realOverflow
    | w => weighted (sum + part * w) (weight * 60) rest

def sexagesimal (parts : List Real) : Except Fault Real := weighted (.finite 0 0) 1 parts.reverse

def unsignedReal (t : Text) : Except Fault Real :=
  if t = Text.ofString ".inf" || t = Text.ofString ".nan" then .ok .notFinite
  else if t.contains (.char ':') then (colonParts t).mapM readReal >>= sexagesimal
  else readReal t

def realValue (t : Text) : Except Fault Real := do
  let (negative, t) ← splitTextSign (withoutUnderscores t).lower
  let r ← unsignedReal t
  return if negative then -r else r

end DocBlock.Yaml
