import DocBlock.Path

/-! Log notes that a run leaves behind. -/

namespace DocBlock

inductive Note where
  | strayBrace
  | full (size : Nat)
  | headerComment
  | function (name : String)
  | alreadyGone (temp : Path)
  | kept (temp backup : Path)
  | annotated (path backup : Path)
  deriving DecidableEq, Repr, Inhabited

namespace Note

/-- A note that is shown also without debugging. -/
def isWarning : Note → Bool
  | kept _ _ => true
  | _ => false

def level (n : Note) : String := if n.isWarning then "WARNING" else "DEBUG"

/-- The name under which the note is logged. -/
def logger : Note → String
  | strayBrace => "insertdox.lexer"
  | full _ | headerComment | function _ => "insertdox.annotate"
  | alreadyGone _ | kept _ _ | annotated _ _ => "insertdox.files"

def text : Note → String
  | strayBrace => "Unbalanced '\x7d' at top level"
  | full size => s!"Accumulation buffer full at {size} characters, flushing"
  | headerComment => "Flushing file header comment"
  | function name => s!"Annotating function {name}"
  | alreadyGone temp => s!"Temporary file {temp} already gone"
  | kept temp backup => s!"Keeping {temp}, the original is at {backup}"
  | annotated path backup => s!"Annotated {path} (backup {backup})"

end Note

end DocBlock
