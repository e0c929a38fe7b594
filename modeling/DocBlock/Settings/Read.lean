import DocBlock.Settings.Datum
import DocBlock.Settings.Issue
import DocBlock.Settings.Numeral

/-! Lenient readers for single values: each accepts the spellings that clearly mean a value of the
wanted kind, and says what is wrong with any other. -/

namespace DocBlock

abbrev Reader (α : Type) := Datum → Except Problem α

namespace Reader

/-- The first integer above the range of 64-bit words. -/
def wordBound : Int := 0x8000000000000000

/-- Whole reals are taken as integers only within the range of 64-bit words. -/
def ofReal (r : Real) : Except Problem Int :=
  match r, r.toInt? with
  | .notFinite, _ => .error .notFinite
  | .finite _ _, none => .error .integerFraction
  | .finite _ _, some n => if -wordBound < n ∧ n < wordBound then .ok n else .error .integerRange

/-- The string that a text spells. Text with half of a surrogate pair spells none. -/
def spelled (t : Text) : Except Problem String :=
  match t.toString? with
  | some s => .ok s
  | none => .error .notUnicode

/-- The string that bytes spell in UTF-8. -/
def spelledBytes? (b : Bytes) : Option String := (Encoding.utf8.decode b).toString?

def numeral (s : String) : Except Problem Int :=
  match Numeral.read s with
  | .ok n => .ok n
  | .error .notInteger => .error .integerText
  | .error .tooLong => .error .integerRange

def integer : Reader Int
  | .int n => .ok n
  | .bool b => .ok (if b then 1 else 0)
  | .real r => ofReal r
  | .text t => spelled t >>= numeral
  | .bytes b => (spelledBytes? b).elim (.error .integerText) numeral
  | _ => .error .notInteger

/-- An integer not below `least`. -/
def atLeast (least : Int) : Reader { n : Int // least ≤ n } := fun d => do
  let n ← integer d
  if h : least ≤ n then .ok ⟨n, h⟩ else .error .tooSmall

def ofBit (n : Int) : Except Problem Bool :=
  if n = 0 then .ok false else if n = 1 then .ok true else .error .switchText

def switchWord (s : String) : Except Problem Bool :=
  let w := s.map Char.toLower
  if ["0", "off", "f", "false", "n", "no"].contains w then .ok false
  else if ["1", "on", "t", "true", "y", "yes"].contains w then .ok true
  else .error .switchText

def switch : Reader Bool
  | .bool b => .ok b
  | .int n => if -wordBound ≤ n ∧ n < wordBound then ofBit n else .error .notSwitch
  | .real r =>
    match ofReal r with
    | .ok n => ofBit n
    | .error _ => .error .notSwitch
  | .text t => spelled t >>= switchWord
  | .bytes b => (spelledBytes? b).elim (.error .switchText) switchWord
  | _ => .error .notSwitch

/-- Text is taken as it is, also where it spells no string. -/
def text : Reader Text
  | .text t => .ok t
  | .bytes b => (spelledBytes? b).elim (.error .notUnicode) fun s => .ok (.ofString s)
  | _ => .error .notText

def optional {α : Type} (read : Reader α) : Reader (Option α)
  | .null => .ok none
  | d => (read d).map some

end Reader

end DocBlock
