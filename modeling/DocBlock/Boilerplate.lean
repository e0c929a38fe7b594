import DocBlock.Fault

/-! Boilerplate is copied into file headers, chunk by chunk and ended by a newline, unless the header
comment already holds it. -/

namespace DocBlock

namespace Boilerplate

/-- What an attempt to read the boilerplate gives. -/
abbrev Reading := Except Fault Text

/-- Consecutive pieces of `size` symbols, the last one possibly shorter. -/
def chunks (size : Nat) (t : Text) : List Text :=
  if _h : t = [] ∨ size = 0 then []
  else t.take size :: chunks size (t.drop size)
termination_by t.length
decreasing_by
  have : 0 < t.length := List.length_pos_iff.mpr fun e => _h (.inl e)
  have : size ≠ 0 := fun e => _h (.inr e)
  simp only [List.length_drop]
  omega

def chunkSize : Nat := 32768

/-- The pieces that are written, in order: the chunks, and a newline if the last of them does not end
a line. -/
def pieces (size : Nat) (t : Text) : List Text :=
  let cs := chunks size t
  let last := (cs.getLast?.bind (·.getLast?)).getD (.char '\n')
  if last.isNewline then cs else cs ++ [Text.ofString "\n"]

/-- What is looked for in a header comment. -/
def needle (t : Text) : Text := t.strip

def isContained (t header : Text) : Bool :=
  !(needle t).isEmpty && (needle t).occursIn header

end Boilerplate

/-- Boilerplate remembers the text that it was first compared with. -/
structure Boilerplate where
  seen : Option Text := none
  deriving DecidableEq, Repr, Inhabited

namespace Boilerplate

/-- Copying reads the file each time. -/
def copy (r : Reading) : Except Fault (List Text) := r.map (pieces chunkSize)

/-- Comparing reads the file once. -/
def compare (b : Boilerplate) (r : Reading) (header : Text) : Except Fault (Bool × Boilerplate) :=
  match b.seen with
  | some t => .ok (isContained t header, b)
  | none => r.map fun t => (isContained t header, { seen := some t })

end Boilerplate

end DocBlock
