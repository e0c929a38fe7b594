import DocBlock.Yaml.Number
import DocBlock.Yaml.Tag
import DocBlock.Yaml.Timestamp

/-! The kind of a scalar that carries no tag, told from its text: null, a truth value, an integer in one
of five notations, a real number, a date, a mark for merging or for a default value, or else text. -/

namespace DocBlock.Yaml

def nullWords : List String := ["~", "null", "Null", "NULL"]

def trueWords : List String := ["yes", "Yes", "YES", "true", "True", "TRUE", "on", "On", "ON"]

def falseWords : List String := ["no", "No", "NO", "false", "False", "FALSE", "off", "Off", "OFF"]

def isSpacedDigit (c : Char) : Bool := c.isDigit || c = '_'

/-- A digit, and digits with underscores among them. -/
def isSpacedNumber (cs : List Char) : Bool := cs.head?.any Char.isDigit && cs.all isSpacedDigit

/-- One or two digits for a number below sixty. -/
def isSixtieth : List Char → Bool
  | [c] => c.isDigit
  | [c, d] => (digit? 6 c).isSome && d.isDigit
  | _ => false

/-- Digits, or underscores among them, of which there has to be at least one. -/
def isDigits (base : Nat) (cs : List Char) : Bool :=
  !cs.isEmpty && cs.all fun c => (digit? base c).isSome || c = '_'

def isInteger (cs : List Char) : Bool :=
  match (splitSign cs).2 with
  | ['0'] => true
  | '0' :: 'b' :: ds => isDigits 2 ds
  | '0' :: 'x' :: ds => isDigits 16 ds
  | '0' :: ds => isDigits 8 ds
  | cs =>
    match cutAt (· = ':') cs with
    | [] => false
    | first :: sixtieths => isSpacedNumber first && sixtieths.all isSixtieth

/-- An exponent has a sign. -/
def isExponent : List Char → Bool
  | mark :: sign :: ds =>
    (mark = 'e' || mark = 'E') && (sign = '-' || sign = '+') && !ds.isEmpty && ds.all Char.isDigit
  | _ => false

/-- What may stand behind the point of a number. -/
def isFraction (exponent : Bool) (cs : List Char) : Bool :=
  let rest := cs.dropWhile isSpacedDigit
  rest.isEmpty || (exponent && isExponent rest)

/-- Numbers with a point. One that starts with the point has no sign, and one in base sixty no
exponent. -/
def isDecimal (cs : List Char) : Bool :=
  let unsigned := (splitSign cs).2
  let whole := unsigned.takeWhile (· ≠ '.')
  match unsigned.drop whole.length, cutAt (· = ':') whole with
  | [], _ | _, [] => false
  | _ :: fraction, first :: sixtieths =>
    if whole.isEmpty then
      unsigned = cs && fraction.head?.any Char.isDigit && isFraction true fraction
    else
      isSpacedNumber first && sixtieths.all isSixtieth && isFraction sixtieths.isEmpty fraction

/-- A number with a point, or a word for infinity or for no number. -/
def isReal (cs : List Char) : Bool :=
  [".inf", ".Inf", ".INF"].contains (String.ofList (splitSign cs).2) ||
    [".nan", ".NaN", ".NAN"].contains (String.ofList cs) || isDecimal cs

/-- A date alone needs two digits for month and day. -/
def isTimestamp (cs : List Char) : Bool :=
  (Timestamp.ofChars? cs).any fun t => t.isWide || t.time.isSome

/-- The text up to the line break that may end it. -/
def beforeBreak (cs : List Char) : List Char :=
  if 1 < cs.length && cs.getLast? = some '\n' then cs.dropLast else cs

def Tag.ofChars (cs : List Char) : Tag :=
  let word := String.ofList cs
  if cs.isEmpty || nullWords.contains word then .null
  else if trueWords.contains word || falseWords.contains word then .bool
  else if isReal cs then .real
  else if isInteger cs then .int
  else if word = "<<" then .merge
  else if isTimestamp cs then .timestamp
  else if word = "=" then .value
  else if ["!", "&", "*"].contains word then .unknown
  else .str

/-- The kind of an untagged scalar. -/
def Tag.ofPlain (t : Text) : Tag :=
  match t.mapM Sym.char? with
  | some cs => .ofChars (beforeBreak cs)
  | none => .str

end DocBlock.Yaml
