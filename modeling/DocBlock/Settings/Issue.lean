/-! What can be wrong with a value in the settings, and where. -/

namespace DocBlock

inductive Problem where
  | notInteger
  | integerText
  | integerFraction
  | integerRange
  | notFinite
  | tooSmall
  | notSwitch
  | switchText
  | notText
  | notUnicode
  | notAllowed
  | notMapping
  | version
  | emptySuffix
  deriving DecidableEq, Repr, Inhabited

/-- A problem with the field reached by `field`, from the outermost section inwards. -/
structure Issue where
  field : List String
  problem : Problem
  deriving DecidableEq, Repr, Inhabited

namespace Problem

def message : Problem → String
  | notInteger => "Input should be a valid integer"
  | integerText => "Input should be a valid integer, unable to parse string as an integer"
  | integerFraction => "Input should be a valid integer, got a number with a fractional part"
  | integerRange => "Unable to parse input string as an integer, exceeded maximum size"
  | notFinite => "Input should be a finite number"
  | tooSmall => "Input is too small"
  | notSwitch => "Input should be a valid boolean"
  | switchText => "Input should be a valid boolean, unable to interpret input"
  | notText => "Input should be a valid string"
  | notUnicode => "Input should be a valid string, unable to parse raw data as a unicode string"
  | notAllowed => "Input should be 'reverse' or 'source'"
  | notMapping => "Input should be a valid mapping"
  | version => "Value error, Only version 1 config is supported"
  | emptySuffix => "Value error, File suffixes must not be empty"

end Problem

namespace Issue

def location (i : Issue) : String := ".".intercalate i.field

def message (i : Issue) : String := i.location ++ ": " ++ i.problem.message

/-- The same issue seen from outside a section. -/
def within (part : String) (i : Issue) : Issue := { i with field := part :: i.field }

end Issue

end DocBlock
