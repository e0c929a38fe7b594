import DocBlock.Extent
import DocBlock.Remark
import DocBlock.Scanner

/-! The text read since the last flush, with the stretches marked in it and the remarks found in it. -/

namespace DocBlock

structure Pending where
  syms : Array Sym := #[]
  function : Extent := {}
  parameters : Extent := {}
  body : Extent := {}
  description : Extent := {}
  commentStart : Option Nat := none
  statementStart : Option Nat := none
  fileComment : Bool := false
  todos : List Text := []
  notes : List Text := []
  returns : List Text := []
  deriving DecidableEq, Repr, Inhabited

namespace Pending

def size (p : Pending) : Nat := p.syms.size

def text (p : Pending) : Text := p.syms.toList

def push (p : Pending) (s : Sym) : Pending := { p with syms := p.syms.push s }

def isFull (p : Pending) (capacity : Int) : Bool := capacity ≤ p.size

/-- The text from `start` up to `stop`, both moved into the text; nothing if they cross. -/
def slice (p : Pending) (start stop : Int) : Text :=
  let last := min stop p.size
  let first := min (max start 0) last
  (p.syms.extract first.toNat last.toNat).toList

def sliceFrom (p : Pending) (start : Int) : Text := p.slice start p.size

def extentText (p : Pending) (e : Extent) : Text := p.slice e.start e.stop

/-- Takes the comment in progress as complete and files its remark. -/
def endComment (p : Pending) : Pending :=
  match p.commentStart with
  | none => p
  | some start =>
    let q := { p with commentStart := none }
    match Remark.ofComment? (p.slice start p.size) with
    | none => q
    | some ⟨.todo, t⟩ => { q with todos := p.todos ++ [t] }
    | some ⟨.note, t⟩ => { q with notes := p.notes ++ [t] }

/-- Takes the statement in progress as complete and files the value that it returns. -/
def endStatement (p : Pending) : Pending :=
  match p.statementStart with
  | none => p
  | some start =>
    let q := { p with statementStart := none }
    match returnValue? (p.slice start p.size) with
    | none => q
    | some v => { q with returns := p.returns ++ [v] }

/-- Records a marker at the place that the next symbol takes. Markers that write something are no
matter of the pending text. -/
def mark (p : Pending) : Marker → Pending
  | .flush | .flushAfter | .fileHeader => p
  | .fileComment => { p with fileComment := true }
  | .descriptionStart => { p with description := p.description.openAt p.size }
  | .descriptionEnd => { p with description := p.description.closeAt p.size }
  | .descriptionEndAfter => { p with description := p.description.closeAt (p.size + 1) }
  | .descriptionDiscard => { p with description := {} }
  | .commentStart => { p with commentStart := some p.size }
  | .commentEnd => p.endComment
  | .statementStart => { p with statementStart := some p.size }
  | .statementEnd => p.endStatement
  | .functionStart => { p with function := p.function.openAt p.size }
  | .parametersStart =>
    { p with function := p.function.closeAt p.size, parameters := p.parameters.openAt p.size }
  | .parametersEnd => { p with parameters := p.parameters.closeAt (p.size + 1) }
  | .bodyStart => { p with body := p.body.openAt p.size }
  | .bodyEnd => { p with body := p.body.closeAt (p.size + 1) }

/-- A declarator, a parameter list and a body were each closed exactly once. -/
def isFunction (p : Pending) : Bool :=
  p.function.isClosedOnce && p.parameters.isClosedOnce && p.body.isClosedOnce

@[simp] theorem size_push (p : Pending) (s : Sym) : (p.push s).size = p.size + 1 := by
  simp [size, push]

@[simp] theorem text_push (p : Pending) (s : Sym) : (p.push s).text = p.text ++ [s] := by
  simp [text, push]

end Pending

end DocBlock
