import DocBlock.Text.Quoted

/-! Why a YAML stream gives no value. A refusal is a defect of the stream or of a value in it; the other
faults are values whose meaning breaks down while it is worked out. -/

namespace DocBlock.Yaml

/-- What is wrong with a date or a time. -/
inductive DateProblem where
  | year (n : Nat)
  | month | day | hour | minute | second
  /-- The distance from universal time, in minutes, is a day or more. -/
  | offset (minutes : Int)
  deriving DecidableEq, Repr, Inhabited

namespace DateProblem

def offsetText (minutes : Int) : String :=
  let days := minutes.fdiv 1440
  let seconds := minutes.fmod 1440 * 60
  if seconds = 0 then s!"datetime.timedelta(days={days})"
  else s!"datetime.timedelta(days={days}, seconds={seconds})"

def message : DateProblem → String
  | year n => s!"year {n} is out of range"
  | month => "month must be in 1..12"
  | day => "day is out of range for month"
  | hour => "hour must be in 0..23"
  | minute => "minute must be in 0..59"
  | second => "second must be in 0..59"
  | offset minutes =>
    let given := offsetText minutes
    "offset must be a timedelta strictly between -timedelta(hours=24) and timedelta(hours=24), not " ++
      given ++ "."

end DateProblem

inductive Fault where
  /-- The stream is not well-formed, or a tag does not fit its node. -/
  | malformed
  | badInteger (base : Nat) (text : Text)
  | tooManyDigits (count : Nat)
  | badReal (text : Text)
  | badDate (problem : DateProblem)
  | codePoint
  | codePointSize
  | emptyNumber
  | unknownSwitch (text : Text)
  | noDate
  | dateNode
  | realOverflow
  | endless
  deriving DecidableEq, Repr, Inhabited

namespace Fault

def isRefusal : Fault → Bool
  | malformed | badInteger _ _ | tooManyDigits _ | badReal _ | badDate _ | codePoint => true
  | _ => false

/-- Quoted texts in messages about integers end after 200 characters. -/
def shortened (s : String) : String := String.ofList (s.toList.take 200)

def message : Fault → String
  | malformed => "Invalid YAML"
  | badInteger base text =>
    let shown := shortened (Quoted.ofText text)
    s!"invalid literal for int() with base {base}: {shown}"
  | tooManyDigits count =>
    s!"Exceeds the limit (4300 digits) for integer string conversion: value has {count} digits; " ++
      "use sys.set_int_max_str_digits() to increase the limit"
  | badReal text => "could not convert string to float: " ++ Quoted.ofText text
  | badDate problem => problem.message
  | codePoint => "chr() arg not in range(0x110000)"
  | codePointSize => "Python int too large to convert to C int"
  | emptyNumber => "string index out of range"
  | unknownSwitch text => Quoted.ofText text
  | noDate => "'NoneType' object has no attribute 'groupdict'"
  | dateNode => "expected string or bytes-like object, got 'list'"
  | realOverflow => "int too large to convert to float"
  | endless => "maximum recursion depth exceeded"

end Fault

end DocBlock.Yaml
