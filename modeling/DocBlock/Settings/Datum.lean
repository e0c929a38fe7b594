import DocBlock.Settings.Real
import DocBlock.Text.Encoding

/-! Values as a settings file gives them, before anything is known about what they should be. -/

namespace DocBlock

inductive Datum where
  | null
  | bool (b : Bool)
  | int (n : Int)
  | real (r : Real)
  | text (t : Text)
  | bytes (b : Bytes)
  /-- A date, or a date with a time. -/
  | date
  /-- Lists and sets are no settings, so it does not matter what is in them. -/
  | list | set
  | map (entries : List (Datum × Datum))
  deriving Repr, Inhabited

namespace Datum

def text? : Datum → Option Text
  | text t => some t
  | _ => none

def isTextEqual (s : String) : Datum → Bool
  | text t => t = Text.ofString s
  | _ => false

/-- The value under a key; of several equal keys the last counts. -/
def find? (entries : List (Datum × Datum)) (key : String) : Option Datum :=
  (entries.reverse.find? fun e => e.1.isTextEqual key).map (·.2)

end Datum

end DocBlock
