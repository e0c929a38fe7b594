import DocBlock.Text.Quoted

/-! Slash-separated paths. Repeated slashes, single dots and a trailing slash carry no meaning and are
dropped on reading; a double dot is kept. Exactly two leading slashes are a root of their own. The
parts are texts, which need not spell strings. -/

namespace DocBlock

inductive Anchor where
  | relative | root | doubleRoot
  deriving DecidableEq, Repr, Inhabited

structure Path where
  anchor : Anchor := .relative
  parts : List Text := []
  deriving DecidableEq, Repr, Inhabited

namespace Path

/-- The stretches between slashes that are neither empty nor a single dot. -/
def components (t : Text) : List Text :=
  (cutAt (· = .char '/') t).filter fun part => part ≠ [] && part ≠ [.char '.']

def ofText (t : Text) : Path where
  anchor :=
    match (t.takeWhile (· = .char '/')).length with
    | 0 => .relative
    | 2 => .doubleRoot
    | _ => .root
  parts := components t

def ofString (s : String) : Path := ofText (.ofString s)

def toText (p : Path) : Text :=
  let tail := List.intercalate [.char '/'] p.parts
  match p.anchor with
  | .relative => if p.parts.isEmpty then [.char '.'] else tail
  | .root => .char '/' :: tail
  | .doubleRoot => .char '/' :: .char '/' :: tail

instance : ToString Path := ⟨fun p => p.toText.display⟩

def isAbsolute (p : Path) : Bool := p.anchor ≠ .relative

/-- The last part; empty for a root and for the current directory. -/
def name (p : Path) : Text := p.parts.getLast?.getD []

/-- A name that is one component and does not end in a slash can stand for the last part. -/
def isName (n : Text) : Bool :=
  n.head? ≠ some (.char '/') && n.getLast? ≠ some (.char '/') && (components n).length = 1

/-- The path with its last part replaced. -/
def withName (p : Path) (n : Text) : Path := { p with parts := p.parts.dropLast ++ [n] }

/-- The path with more parts behind it. -/
def append (p : Path) (parts : List Text) : Path := { p with parts := p.parts ++ parts }

end Path

end DocBlock
