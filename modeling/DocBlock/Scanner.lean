import DocBlock.Text.Basic

/-! The scanner reads C-like text one symbol at a time with one symbol of lookahead. Each step gives
the next state and the markers that belong to the symbol; a marker speaks of the place that the
symbol is about to take. -/

namespace DocBlock

inductive Mode where
  | normal | escape | blockComment | lineComment | directive | charLiteral | stringLiteral
  deriving DecidableEq, Repr, Inhabited

def Mode.isComment : Mode → Bool
  | .blockComment | .lineComment => true
  | _ => false

/-- `flush` acts before the symbol is stored, `flushAfter` once it is. The two `…EndAfter` and
`…End` markers differ in the same way. -/
inductive Marker where
  | flush | flushAfter
  | fileComment | fileHeader
  | descriptionStart | descriptionEnd | descriptionEndAfter | descriptionDiscard
  | commentStart | commentEnd
  | statementStart | statementEnd
  | functionStart | parametersStart | parametersEnd | bodyStart | bodyEnd
  deriving DecidableEq, Repr, Inhabited

structure Scanner where
  mode : Mode := .normal
  /-- The mode that an escape or a comment hands back to. -/
  resume : Mode := .normal
  braces : Int := 0
  parens : Int := 0
  /-- No declaration or statement is in progress. -/
  between : Bool := true
  lineStart : Bool := true
  fileStart : Bool := true
  /-- The comment in progress is the one that the file starts with. -/
  headerComment : Bool := false
  /-- The second symbol of a comment opener is still to come. -/
  opening : Bool := false
  /-- The last symbol of a block comment was a star. -/
  star : Bool := false
  deriving DecidableEq, Repr, Inhabited

namespace Scanner

variable (s : Scanner) (c : Sym) (next : Option Sym)

/-- A carriage return and a line feed, in either order, count as one. -/
def isLinePair : Bool :=
  (c = '\r' && next = some (.char '\n')) || (c = '\n' && next = some (.char '\r'))

def opensComment : Bool := next = some (.char '*') || next = some (.char '/')

def stepEscape : Scanner :=
  if isLinePair c next then s else { s with mode := s.resume }

def enterComment : Scanner × List Marker :=
  ({ s with
      mode := if next = some (.char '*') then .blockComment else .lineComment
      resume := s.mode
      opening := true
      star := false },
    if s.braces = 0 then [.flush, .descriptionStart] else [.commentStart])

def stepBlockComment : Scanner × List Marker :=
  if s.opening then ({ s with opening := false }, [])
  else if s.star && c = '/' then
    ({ s with mode := s.resume, star := false },
      if s.braces = 0 then
        .descriptionEndAfter :: (if s.headerComment then [.flushAfter] else [])
      else [.commentEnd])
  else ({ s with star := c = '*' }, [])

/-- The newline that ends a line comment also ends the directive that the comment trails. -/
def stepLineComment : Scanner × List Marker :=
  if s.opening then ({ s with opening := false }, [])
  else if c.isNewline then
    ({ s with mode := .normal, lineStart := true },
      if s.braces = 0 then
        .descriptionEnd ::
          (if s.resume = .directive then [.flushAfter]
          else if s.headerComment then [.flush] else [])
      else [.commentEnd])
  else (s, [])

def stepDirective : Scanner × List Marker :=
  if c = '\\' then ({ s with mode := .escape, resume := .directive }, [])
  else if c.isNewline then
    ({ s with mode := .normal, lineStart := true }, if s.braces = 0 then [.flushAfter] else [])
  else if c = '/' && opensComment next then s.enterComment next
  else (s, [])

def stepLiteral (quote : Char) : Scanner :=
  if c = '\\' then { s with mode := .escape, resume := s.mode }
  else if c = quote then { s with mode := .normal }
  else s

def closeBrace : Scanner × List Marker :=
  ({ s with braces := max (s.braces - 1) 0, between := true },
    if s.braces = 0 then [.flushAfter]
    else if s.braces = 1 then [.bodyEnd, .flushAfter]
    else [.statementEnd])

def stepNormal : Scanner × List Marker :=
  if c = '\\' then ({ s with mode := .escape, resume := .normal }, [])
  else if c = '/' then if opensComment next then s.enterComment next else (s, [])
  else if c = '#' then
    if s.lineStart then
      ({ s with mode := .directive }, if s.braces = 0 then [.descriptionDiscard] else [])
    else (s, [])
  else if c = '\'' then ({ s with mode := .charLiteral }, [])
  else if c = '"' then ({ s with mode := .stringLiteral }, [])
  else if c = '(' then
    ({ s with parens := s.parens + 1 },
      if s.braces = 0 ∧ s.parens = 0 then [.parametersStart] else [])
  else if c = ')' then
    if 0 < s.parens then
      ({ s with parens := s.parens - 1 },
        if s.braces = 0 ∧ s.parens = 1 then [.parametersEnd] else [])
    else (s, [])
  else if c = '{' then
    ({ s with braces := s.braces + 1, between := true },
      if s.braces = 0 then [.bodyStart] else [.statementEnd])
  else if c = '}' then s.closeBrace
  else if c = ';' then
    ({ s with between := true }, if s.braces = 0 then [.flushAfter] else [.statementEnd])
  else if c.isNewline then ({ s with lineStart := true }, [])
  else if s.between && !c.isBlank then
    ({ s with between := false }, if s.braces = 0 then [.functionStart] else [.statementStart])
  else (s, [])

/-- The step that the mode alone determines. -/
def stepMode : Scanner × List Marker :=
  match s.mode with
  | .normal => s.stepNormal c next
  | .escape => (s.stepEscape c next, [])
  | .blockComment => s.stepBlockComment c
  | .lineComment => s.stepLineComment c
  | .directive => s.stepDirective c next
  | .charLiteral => (s.stepLiteral c '\'', [])
  | .stringLiteral => (s.stepLiteral c '"', [])

/-- The first symbol of the file that is not blank decides how the file is headed. -/
def headMarkers (after : Mode) : List Marker :=
  if s.fileStart && !c.isBlank then
    [if after.isComment then .fileComment else .fileHeader]
  else []

/-- What every mode has in common: the first symbol of the file and of a line are behind us once a
symbol is not blank, and a flush starts a new declaration outside any header comment. -/
def step : Scanner × List Marker :=
  let (t, modeMarkers) := s.stepMode c next
  let markers := modeMarkers ++ s.headMarkers c t.mode
  let flushes := markers.contains .flush || markers.contains .flushAfter
  ({ t with
      fileStart := s.fileStart && c.isBlank
      lineStart := t.lineStart && c.isBlank
      headerComment :=
        markers.contains .fileComment || (t.headerComment && !flushes)
      between := t.between || flushes },
    markers)

/-- A closing brace that no opening one precedes. -/
def isStrayBrace : Bool := s.mode = .normal && c = '}' && s.braces = 0

/-- One symbol on the way through a text, with the states around it. -/
structure Moment where
  before : Scanner
  sym : Sym
  markers : List Marker
  after : Scanner
  deriving DecidableEq, Repr, Inhabited

/-- The state after a whole text. -/
def run (s : Scanner) : Text → Scanner
  | [] => s
  | c :: rest => run (s.step c rest.head?).1 rest

/-- All moments of a text, in order. -/
def moments (s : Scanner) : Text → List Moment
  | [] => []
  | c :: rest =>
    let (after, markers) := s.step c rest.head?
    { before := s, sym := c, markers, after } :: moments after rest

end Scanner

end DocBlock
