import DocBlock.Declarator
import DocBlock.Options
import DocBlock.Pending

/-! The documentation tags of a function, drawn from its declarator, its parameters and what was found
in its body. -/

namespace DocBlock

open Text (ofString)

inductive Tag where
  | param (direction name phrase : Text)
  | variadic
  | result (phrase : Text)
  | value (text : Text)
  | note (text : Text)
  | todo (text : Text)
  | reminder
  | internal
  deriving DecidableEq, Repr, Inhabited

namespace Tag

def line : Tag → Text
  | param direction name phrase =>
    ofString "@param[" ++ direction ++ ofString "] \t" ++ name ++ ofString " \t" ++ phrase
  | variadic => ofString "@param[in] \t... \tvariable arguments"
  | result phrase => ofString "@return " ++ phrase
  | value text => ofString "@retval " ++ text
  | note text => ofString "@note " ++ text
  | todo text => ofString "@todo " ++ text
  | reminder => ofString "@todo edit me (automatically generated by insertdox)"
  | internal => ofString "@internal"

/-- The tag of one parameter; none for `void` and for a parameter without name and type. -/
def ofParameter? (capacity : Int) (t : Text) : Option Tag :=
  let d := Declarator.read capacity t
  if d.name = ofString "void" || (d.name.isEmpty && d.phrase.isEmpty) then none
  else if d.name.isEmpty && d.phrase = ofString "..." then some variadic
  else some (param d.direction d.name d.phrase)

def ofParameters (capacity : Int) (list : Text) : List Tag :=
  (Declarator.parameterTexts list).filterMap (ofParameter? capacity)

/-- Each line on a new line of its own, indented. -/
def indented (tags : List Tag) : Text :=
  tags.flatMap fun t => '\n' :: '\t' :: t.line

end Tag

/-- The tags of a function in their three groups. -/
structure Tags where
  params : List Tag
  results : List Tag
  remarks : List Tag
  isStatic : Bool
  deriving DecidableEq, Repr, Inhabited

namespace Tags

def ofFunction (o : Options) (p : Pending) (d : Declarator) : Tags where
  params := Tag.ofParameters o.typeCapacity (p.extentText p.parameters)
  results :=
    if d.phrase = ofString "void" then []
    else .result d.phrase :: (o.arrange p.returns).map .value
  remarks :=
    (if o.emitNotes then (o.arrange p.notes).map .note else []) ++
      (o.arrange p.todos).map .todo ++ [.reminder]
  isStatic := d.isStatic

/-- Every tag that the block of the function will hold. -/
def all (g : Tags) : List Tag :=
  g.params ++ g.results ++ g.remarks ++ (if g.isStatic then [.internal] else [])

/-- A group that is there at all ends with a blank line before the next. -/
def group (tags : List Tag) : Text :=
  if tags.isEmpty then [] else Tag.indented tags ++ ofString "\n"

def render (g : Tags) : Text := group g.params ++ group g.results ++ Tag.indented g.remarks

end Tags

/-- The description without the lines that are about to be generated again. -/
def withoutGenerated (description : Text) (generated : List Text) : Text :=
  let wanted := generated.map Text.strip
  (Text.joinLines (description.lines.filter fun l => !wanted.contains l.strip)).strip

end DocBlock
