import DocBlock.Boilerplate
import DocBlock.Collector
import DocBlock.Note
import DocBlock.Tag

/-! Writing one event. A page is the list of edits that turn the pending text into output, the notes
that go with them, and the fault that stopped them, if any. -/

namespace DocBlock

open Text (ofString)

/-- One stretch of output or of text left out: source text kept as it is, source text dropped, or new
text. -/
inductive Edit where
  | keep (t : Text)
  | cut (t : Text)
  | insert (t : Text)
  deriving DecidableEq, Repr, Inhabited

namespace Edit

def written : Edit → Text
  | keep t | insert t => t
  | cut _ => []

def source : Edit → Text
  | keep t | cut t => t
  | insert _ => []

end Edit

structure Page where
  notes : List Note := []
  edits : List Edit := []
  fault : Option Fault := none
  deriving DecidableEq, Repr, Inhabited

namespace Page

def written (p : Page) : Text := p.edits.flatMap Edit.written

/-- The pages one after the other, up to the first fault. -/
def append (p q : Page) : Page :=
  if p.fault.isSome then p
  else { notes := p.notes ++ q.notes, edits := p.edits ++ q.edits, fault := q.fault }

instance : Append Page := ⟨append⟩

def insert (t : Text) : Page := { edits := [.insert t] }

def boilerplate : Option Boilerplate.Reading → Page
  | none => {}
  | some r =>
    match Boilerplate.copy r with
    | .ok ts => { edits := ts.map .insert }
    | .error f => { fault := some f }

/-- The boilerplate, unless the header comment holds it already. -/
def missingBoilerplate (plate : Option Boilerplate.Reading) (header : Text) : Page :=
  match plate with
  | none => {}
  | some r =>
    match ({} : Boilerplate).compare r header with
    | .ok (true, _) => {}
    | .ok (false, _) => boilerplate plate
    | .error f => { fault := some f }

/-- A header for a file that starts without a comment. -/
def fileHeader (o : Options) (plate : Option Boilerplate.Reading) : Page :=
  insert (ofString "/**\n\t@file " ++ o.shownName ++
    ofString "\n\n\tPut a description of the file here.\n") ++
  boilerplate plate ++
  insert (ofString "\n\t@todo Edit file comment (automatically generated by insertdox)\n*/\n\n")

/-- The comment that a file starts with, in the form of a block. -/
def fileComment (plate : Option Boilerplate.Reading) (p : Pending) : Page :=
  let header := p.text.commentBody
  { notes := [.headerComment], edits := [.cut p.text] } ++
  insert (ofString "/**\n\t" ++ header ++ ofString "\n") ++
  missingBoilerplate plate header ++
  insert (ofString "*/")

end Page

/-- The block of one function. -/
structure FunctionBlock where
  tags : Tags
  /-- The description that was there before, if there was a comment. -/
  existing : Option Text
  /-- The declarator is the first thing in the pending text. -/
  atStart : Bool
  deriving DecidableEq, Repr, Inhabited

namespace FunctionBlock

def placeholder : Text :=
  ofString "Brief description needed.\n\n\tFollowed by a more complete description."

def ofPending (o : Options) (p : Pending) (d : Declarator) : FunctionBlock :=
  let tags := Tags.ofFunction o p d
  { tags
    existing :=
      if p.description.isClosed then
        some (withoutGenerated (p.extentText p.description).commentBody (tags.all.map Tag.line))
      else none
    atStart := p.function.start = 0 }

/-- The description shown, which is never empty. -/
def description (b : FunctionBlock) : Text := (b.existing.filter (!·.isEmpty)).getD placeholder

/-- The block from its opening to its closing delimiter. -/
def comment (b : FunctionBlock) : Text :=
  ofString "/**\n" ++
  (if b.tags.isStatic then ofString "\t@internal\n\n" else []) ++
  ofString "\t" ++ b.description ++ ofString "\n" ++
  b.tags.render ++
  ofString "\n*/"

/-- The block with the line breaks that set it off where there was no comment before. -/
def render (b : FunctionBlock) : Text :=
  if b.existing.isSome then b.comment
  else ofString "\n" ++ b.comment ++ (if b.atStart then ofString "\n" else [])

end FunctionBlock

namespace Pending

/-- Where the block of a function goes. Without a comment to replace, the symbol before the
declarator moves below the block. -/
def blockStart (p : Pending) : Int :=
  if p.description.isClosed then p.description.start else max (p.function.start - 1) 0

/-- Where the text below the block of a function starts. -/
def blockStop (p : Pending) : Int :=
  if p.description.isClosed then p.description.stop else max (p.function.start - 1) 0

def declarator (o : Options) (p : Pending) : Declarator :=
  Declarator.read o.typeCapacity (p.extentText p.function)

/-- A function behind its block; in prototype mode its head only. -/
def functionPage (o : Options) (p : Pending) : Page :=
  let d := p.declarator o
  { notes := [.function d.name.display]
    edits :=
      [.keep (p.slice 0 p.blockStart),
        .insert (FunctionBlock.ofPending o p d).render,
        .cut (p.slice p.blockStart p.blockStop)] ++
      if o.prototypesOnly then
        [.keep (p.slice p.blockStop p.parameters.stop),
          .insert (ofString ";\n\n"),
          .cut (p.sliceFrom (max p.blockStop p.parameters.stop))]
      else [.keep (p.sliceFrom p.blockStop)] }

/-- What is neither header nor function passes through, or is left out in prototype mode. -/
def plainPage (o : Options) (p : Pending) : Page :=
  { edits := [if o.prototypesOnly then .cut p.text else .keep p.text] }

def page (o : Options) (plate : Option Boilerplate.Reading) (p : Pending) : Page :=
  if p.fileComment then .fileComment plate p
  else if p.isFunction then p.functionPage o
  else p.plainPage o

end Pending

def Event.page (o : Options) (plate : Option Boilerplate.Reading) : Event → Page
  | .header => .fileHeader o plate
  | .flush p => p.page o plate
  | .full size => { notes := [.full size] }
  | .strayBrace => { notes := [.strayBrace] }

end DocBlock
