import DocBlock.Yaml.Node
import DocBlock.Yaml.Scalar
import DocBlock.Yaml.Token

/-! The nodes of a YAML stream, which holds at most one document. -/

namespace DocBlock.Yaml

/-- The tokens that are left, and what was read so far. -/
structure Draft where
  tokens : List Token
  graph : Graph := {}
  anchors : List (String × Nat) := []
  /-- What each tag handle stands for. -/
  handles : List (String × String) := []
  deriving Inhabited

abbrev Drafting := StateT Draft (Except Fault)

namespace Drafting

def fail {α : Type} : Drafting α := throw .malformed

/-- The next token, none at the end. Where no token could be read, that is the fault. -/
def peek : Drafting (Option Token) := do
  match (← get).tokens with
  | .stop f :: _ => throw f
  | ts => return ts.head?

def skip : Drafting Unit := modify fun d => { d with tokens := d.tokens.tail }

/-- Passes the token if it comes next. -/
def skipIf (t : Token) : Drafting Bool := do
  let found := (← peek) = some t
  if found then skip
  return found

/-- The next token is one of these. -/
def isNext (ts : List Token) : Drafting Bool := do return (← peek).any ts.contains

def add (n : Node) : Drafting Nat :=
  modifyGet fun d => ((d.graph.add n).2, { d with graph := (d.graph.add n).1 })

def put (i : Nat) (n : Node) : Drafting Unit := modify fun d => { d with graph := d.graph.set i n }

/-- Null, where a value is left out. -/
def empty : Drafting Nat := add (.scalar .null [])

/-- What is written in front of a node. -/
structure Properties where
  anchor : Option String := none
  tag : Option (Option String × String) := none
  deriving DecidableEq, Repr, Inhabited

/-- The next token, if it is a property that is still missing. -/
def property (p : Properties) : Drafting Properties := do
  match ← peek, p with
  | some (.anchor name), { anchor := none, tag } => skip; return { anchor := some name, tag }
  | some (.tag handle suffix), { anchor, tag := none } =>
    skip
    return { anchor, tag := some (handle, suffix) }
  | _, _ => return p

/-- An anchor and a tag, each at most once and in either order. -/
def properties : Drafting Properties := do
  let first ← property {}
  if first = {} then return first else property first

/-- The full name of a tag. -/
def tagName (tag : Option String × String) : Drafting String := do
  match tag with
  | (none, suffix) => return suffix
  | (some handle, suffix) =>
    match (← get).handles.lookup handle with
    | some front => return front ++ suffix
    | none => fail

/-- The tag of a node, from its full name if it has one; a mark alone counts as none. -/
def chosenTag (name : Option String) (otherwise : Tag) : Tag :=
  match name.filter (· ≠ "!") with
  | some n => .ofName n
  | none => otherwise

def scalarTag (name : Option String) (text : Text) (isPlain : Bool) : Tag :=
  chosenTag name (if isPlain || name = some "!" then .ofPlain text else .str)

/-- No anchor is set twice. -/
def checkAnchor (anchor : Option String) : Drafting Unit := do
  let known := (← get).anchors
  if anchor.any fun a => (known.lookup a).isSome then fail

/-- A node, which from now on can be referred to. -/
def place (anchor : Option String) (n : Node) : Drafting Nat := do
  let i ← add n
  modify fun d => { d with anchors := (anchor.map (·, i)).toList ++ d.anchors }
  return i

/-- Where a node stands: whether blocks may start there, and whether items without a block of their
own may. -/
inductive Context where
  | flow | block | blockOrItems
  deriving DecidableEq, Repr, Inhabited

def Context.isBlock : Context → Bool
  | flow => false
  | block | blockOrItems => true

/-- The form of a node, told by its first token. -/
inductive Form where
  | scalar (text : Text) (isPlain : Bool)
  | items | blockItems | blockEntries | flowItems | flowEntries
  | absent
  deriving DecidableEq, Repr, Inhabited

def form (c : Context) : Drafting Form := do
  match ← peek with
  | some .item => return if c = .blockOrItems then .items else .absent
  | some (.scalar text isPlain) => return .scalar text isPlain
  | some .openSequence => return .flowItems
  | some .openMapping => return .flowEntries
  | some .blockSequence => return if c.isBlock then .blockItems else .absent
  | some .blockMapping => return if c.isBlock then .blockEntries else .absent
  | _ => return .absent

def itemStops : List Token := [.item, .blockEnd]

def bareItemStops : List Token := [.item, .key, .value, .blockEnd]

def blockStops : List Token := [.key, .value, .blockEnd]

/-- The end of a flow collection, or a comma unless this is its beginning. -/
def isOver (first : Bool) (close : Token) : Drafting Bool := do
  if ← skipIf close then return true
  if !first then
    if !(← skipIf .comma) then fail
  skipIf close

/-- A sequence node around its items. It can be referred to before it is complete. -/
def sequenceNode (anchor name : Option String) (items : Drafting (List Nat)) : Drafting Nat := do
  let tag := chosenTag name .seq
  let i ← place anchor (.sequence tag [])
  put i (.sequence tag (← items))
  return i

/-- A mapping node around its entries. It can be referred to before it is complete. -/
def mappingNode (anchor name : Option String) (entries : Drafting (List (Nat × Nat))) :
    Drafting Nat := do
  let tag := chosenTag name .map
  let i ← place anchor (.mapping tag [])
  put i (.mapping tag (← entries))
  return i

def lookUp (name : String) : Drafting Nat := do
  match (← get).anchors.lookup name with
  | some i => return i
  | none => fail

mutual

/-- One node, or the node that is referred to. -/
def node (limit : Nat) (c : Context) : Drafting Nat :=
  match limit with
  | 0 => fail
  | limit + 1 => do
    match ← peek with
    | some (.reference name) => skip; lookUp name
    | _ =>
      let p ← properties
      let name ← p.tag.mapM tagName
      content limit p.anchor name (← form c)

/-- The node behind its properties. -/
def content (limit : Nat) (anchor name : Option String) (f : Form) : Drafting Nat :=
  match limit with
  | 0 => fail
  | limit + 1 =>
    match f with
    | .scalar text isPlain => do
      skip
      checkAnchor anchor
      place anchor (.scalar (scalarTag name text isPlain) text)
    | .absent => do
      if anchor = none && name = none then fail
      checkAnchor anchor
      place anchor (.scalar (chosenTag name .null) [])
    | .items => do
      checkAnchor anchor
      sequenceNode anchor name (bareItems limit)
    | .blockItems => do
      checkAnchor anchor
      skip
      sequenceNode anchor name (blockItems limit)
    | .flowItems => do
      checkAnchor anchor
      skip
      sequenceNode anchor name (flowItems limit true)
    | .blockEntries => do
      checkAnchor anchor
      skip
      mappingNode anchor name (blockEntries limit)
    | .flowEntries => do
      checkAnchor anchor
      skip
      mappingNode anchor name (flowEntries limit true)

/-- A node, or null where it is left out. -/
def optionalNode (limit : Nat) (c : Context) (stops : List Token) : Drafting Nat :=
  match limit with
  | 0 => fail
  | limit + 1 => do if ← isNext stops then empty else node limit c

def blockItems (limit : Nat) : Drafting (List Nat) :=
  match limit with
  | 0 => fail
  | limit + 1 => do
    if ← skipIf .item then
      let i ← optionalNode limit .block itemStops
      return i :: (← blockItems limit)
    else if ← skipIf .blockEnd then return []
    else fail

def bareItems (limit : Nat) : Drafting (List Nat) :=
  match limit with
  | 0 => fail
  | limit + 1 => do
    if ← skipIf .item then
      let i ← optionalNode limit .block bareItemStops
      return i :: (← bareItems limit)
    else return []

def blockEntries (limit : Nat) : Drafting (List (Nat × Nat)) :=
  match limit with
  | 0 => fail
  | limit + 1 => do
    if ← skipIf .key then
      let k ← optionalNode limit .blockOrItems blockStops
      let v ← entryValue limit .blockOrItems blockStops
      return (k, v) :: (← blockEntries limit)
    else if ← skipIf .blockEnd then return []
    else fail

/-- The value behind a key, null where there is no mark for it. -/
def entryValue (limit : Nat) (c : Context) (stops : List Token) : Drafting Nat :=
  match limit with
  | 0 => fail
  | limit + 1 => do if ← skipIf .value then optionalNode limit c stops else empty

/-- A key and a value between commas. -/
def flowEntry (limit : Nat) (stops : List Token) : Drafting (Nat × Nat) :=
  match limit with
  | 0 => fail
  | limit + 1 => do
    let k ← optionalNode limit .flow (.value :: stops)
    let v ← entryValue limit .flow stops
    return (k, v)

/-- The items of a flow sequence; a key and its value make a mapping of one entry. -/
def flowItems (limit : Nat) (first : Bool) : Drafting (List Nat) :=
  match limit with
  | 0 => fail
  | limit + 1 => do
    if ← isOver first .closeSequence then return []
    else if ← skipIf .key then
      let entry ← flowEntry limit [.comma, .closeSequence]
      let i ← add (.mapping .map [entry])
      return i :: (← flowItems limit false)
    else
      let i ← node limit .flow
      return i :: (← flowItems limit false)

/-- The entries of a flow mapping; what is no key with a value has null for it. -/
def flowEntries (limit : Nat) (first : Bool) : Drafting (List (Nat × Nat)) :=
  match limit with
  | 0 => fail
  | limit + 1 => do
    if ← isOver first .closeMapping then return []
    else if ← skipIf .key then
      let entry ← flowEntry limit [.comma, .closeMapping]
      return entry :: (← flowEntries limit false)
    else
      let k ← node limit .flow
      let v ← empty
      return (k, v) :: (← flowEntries limit false)

end

def defaultHandles : List (String × String) := [("!", "!"), ("!!", Tag.standard)]

/-- The directives in front of a document: version 1 at most once, and every tag handle at most once.
Gives the handles they define. -/
def directives (version : Bool) (handles : List (String × String)) :
    Nat → Drafting (List (String × String))
  | 0 => fail
  | limit + 1 => do
    match ← peek with
    | some (.version major) =>
      if version || major ≠ 1 then fail
      skip
      directives true handles limit
    | some (.handle name uri) =>
      if (handles.lookup name).isSome then fail
      skip
      directives version ((name, uri) :: handles) limit
    | some .otherDirective =>
      skip
      directives version handles limit
    | _ => return handles

def isDirective : Token → Bool
  | .version _ | .handle _ _ | .otherDirective => true
  | _ => false

/-- Directives and the mark that starts a document. -/
def documentStart (limit : Nat) : Drafting Unit := do
  let handles ← directives false [] limit
  modify fun d => { d with handles := handles ++ defaultHandles }
  if !(← skipIf .documentStart) then fail

/-- The content of a document that was started explicitly. -/
def documentContent (limit : Nat) : Drafting Nat := do
  match ← peek with
  | none | some .documentStart | some .documentEnd => empty
  | some t => if isDirective t then empty else node limit .block

def skipEnds : Nat → Drafting Unit
  | 0 => fail
  | limit + 1 => do if ← skipIf .documentEnd then skipEnds limit

/-- Nothing may follow the first document. -/
def streamEnd (limit : Nat) : Drafting Unit := do
  skipEnds limit
  if (← peek).isSome then
    documentStart limit
    fail

/-- The only document of a stream, none if the stream is empty. -/
def document? (limit : Nat) : Drafting (Option Nat) := do
  match ← peek with
  | none => return none
  | some t =>
    let explicit := isDirective t || t = .documentStart
    if explicit then documentStart limit
    let i ← if explicit then documentContent limit else node limit .block
    streamEnd limit
    return some i

end Drafting

/-- The nodes of a stream and the number of the node at the top. -/
def Graph.ofTokens (ts : List Token) : Except Fault (Graph × Option Nat) := do
  let draft : Draft := { tokens := ts, handles := Drafting.defaultHandles }
  let (top, d) ← (Drafting.document? (4 * ts.length + 4)).run draft
  return (d.graph, top)

end DocBlock.Yaml
