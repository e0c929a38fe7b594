import DocBlock.Text.Encoding
import DocBlock.Yaml.Fault

/-! The tokens of a YAML stream. Indentation and keys without a mark of their own become tokens too:
the start of a block is inserted in front of its first key once the colon behind that key is seen. -/

namespace DocBlock.Yaml

inductive Token where
  | version (major : Nat)
  | handle (name uri : String)
  | otherDirective
  | documentStart | documentEnd
  | blockSequence | blockMapping | blockEnd
  | openSequence | closeSequence
  | openMapping | closeMapping
  | item | comma | key | value
  | reference (name : String)
  | anchor (name : String)
  | tag (handle : Option String) (suffix : String)
  | scalar (text : Text) (isPlain : Bool)
  /-- No further token can be read. -/
  | stop (f : Fault)
  deriving DecidableEq, Repr, Inhabited

def isBreak (c : Char) : Bool :=
  c = '\n' || c = '\r' || c = '\x85' || c = '\u2028' || c = '\u2029'

def isSpacing (c : Char) : Bool := c = ' ' || c = '\t'

def isGap (c : Char) : Bool := isSpacing c || isBreak c

/-- The text is over, or a gap follows. -/
def atGap (cs : List Char) : Bool := cs.head?.all isGap

/-- The text is over, or a space or a line break follows. -/
def atSpace (cs : List Char) : Bool := cs.head?.all fun c => c = ' ' || isBreak c

/-- The text is over, or a line break follows. -/
def atLineEnd (cs : List Char) : Bool := cs.head?.all isBreak

/-- Three dashes or three points that stand alone. -/
def atSeparator : List Char → Bool
  | '-' :: '-' :: '-' :: cs => atGap cs
  | '.' :: '.' :: '.' :: cs => atGap cs
  | _ => false

/-- A line break as it counts in a scalar. -/
def breakChar (c : Char) : Char := if c = '\u2028' || c = '\u2029' then c else '\n'

/-- A single break becomes a space; of several, all but the first stay. -/
def foldBreaks (first : Char) (rest : List Char) : List Char :=
  if breakChar first ≠ '\n' then breakChar first :: rest
  else if rest.isEmpty then [' '] else rest

def isNameChar (c : Char) : Bool := c.isAlphanum || c = '-' || c = '_'

/-- A possible key that still lacks its colon. -/
structure OpenKey where
  token : Nat
  required : Bool
  index : Nat
  line : Nat
  column : Nat
  deriving Repr, Inhabited

structure Cursor where
  rest : List Char
  index : Nat := 0
  line : Nat := 0
  column : Nat := 0
  indent : Int := -1
  indents : List Int := []
  /-- The possible key of each open flow collection, innermost first, and of the block around
  them. -/
  keys : List (Option OpenKey) := [none]
  keyAllowed : Bool := true
  tokens : Array Token := #[]
  deriving Inhabited

abbrev Advance := Except Fault Cursor

def refuse {α : Type} : Except Fault α := .error .malformed

/-- Nothing if the condition holds. -/
def require (condition : Bool) : Except Fault Unit := if condition then .ok () else refuse

namespace Cursor

def inFlow (r : Cursor) : Bool := 1 < r.keys.length

def emit (r : Cursor) (t : Token) : Cursor := { r with tokens := r.tokens.push t }

def next (r : Cursor) : Cursor :=
  match r.rest with
  | [] => r
  | c :: cs =>
    let r := { r with rest := cs, index := r.index + 1 }
    if isBreak c then { r with line := r.line + 1, column := 0 }
    else if c = '\ufeff' then r
    else { r with column := r.column + 1 }

def advance (r : Cursor) (n : Nat) : Cursor := n.repeat next r

/-- Moves to where only `rest` is left. -/
def advanceTo (r : Cursor) (rest : List Char) : Cursor := r.advance (r.rest.length - rest.length)

/-- Skips spaces, comments and line breaks. A key may stand after a break outside flow
collections. -/
def skipBlank (inComment : Bool) (r : Cursor) : List Char → Cursor
  | [] => r
  | c :: cs =>
    if isBreak c then
      let r := r.next
      skipBlank false { r with keyAllowed := r.keyAllowed || !r.inFlow } cs
    else if inComment || c = ' ' then skipBlank inComment r.next cs
    else if c = '#' then skipBlank true r.next cs
    else r

def skipMark (r : Cursor) : Cursor :=
  if r.index = 0 && r.rest.head? = some '\ufeff' then r.next else r

/-- Gives up keys whose colon can no longer come: it has to be on the same line and near. -/
def dropStale (r : Cursor) : Advance := do
  let keys ← r.keys.mapM fun k =>
    match k with
    | none => .ok none
    | some key =>
      if key.line = r.line && r.index - key.index ≤ 1024 then .ok (some key)
      else if key.required then refuse else .ok none
  return { r with keys }

/-- Closes all blocks that are indented further than the column. -/
def closeBlocks (r : Cursor) (column : Int) : Cursor :=
  if r.inFlow then r
  else
    let closed := (r.indent :: r.indents).takeWhile (column < ·)
    let left := (r.indent :: r.indents).drop closed.length
    { r with
        indent := left.head?.getD (-1)
        indents := left.tail
        tokens := r.tokens ++ (List.replicate closed.length Token.blockEnd).toArray }

/-- The possible key of the innermost collection is given up. -/
def dropKey (r : Cursor) : Advance :=
  match r.keys with
  | some key :: outer => if key.required then refuse else .ok { r with keys := none :: outer }
  | _ => .ok r

/-- What starts here may turn out to be a key. -/
def saveKey (r : Cursor) : Advance := do
  if !r.keyAllowed then return r
  let r ← r.dropKey
  let key : OpenKey :=
    { token := r.tokens.size, required := !r.inFlow && r.indent = r.column, index := r.index
      line := r.line, column := r.column }
  return { r with keys := some key :: r.keys.tail }

/-- What starts here may be a key, and no key can follow it directly. -/
def startKey (r : Cursor) : Advance := do
  let r ← r.saveKey
  return { r with keyAllowed := false }

/-- Opens a block at the column if that is further in than the present one. -/
def openBlock (r : Cursor) (column : Nat) (position : Nat) (t : Token) : Cursor :=
  if r.indent < column then
    { r with
        indents := r.indent :: r.indents
        indent := column
        tokens := (r.tokens.extract 0 position).push t ++ r.tokens.extract position r.tokens.size }
  else r

def openBlockHere (r : Cursor) (t : Token) : Advance :=
  if r.inFlow then .ok r
  else if r.keyAllowed then .ok (r.openBlock r.column r.tokens.size t)
  else refuse

def readItem (r : Cursor) : Advance := do
  let r ← r.openBlockHere .blockSequence
  let r ← ({ r with keyAllowed := true } : Cursor).dropKey
  return r.next.emit .item

def readKeyMark (r : Cursor) : Advance := do
  let r ← r.openBlockHere .blockMapping
  let r ← ({ r with keyAllowed := !r.inFlow } : Cursor).dropKey
  return r.next.emit .key

def insertKey (r : Cursor) (key : OpenKey) : Cursor :=
  let place := key.token
  let r := { r with
    keys := none :: r.keys.tail
    keyAllowed := false
    tokens := (r.tokens.extract 0 place).push .key ++ r.tokens.extract place r.tokens.size }
  if r.inFlow then r else r.openBlock key.column place .blockMapping

def readValueMark (r : Cursor) : Advance :=
  match r.keys with
  | some key :: _ => .ok ((r.insertKey key).next.emit .value)
  | _ => do
    let r ← r.openBlockHere .blockMapping
    let r ← ({ r with keyAllowed := !r.inFlow } : Cursor).dropKey
    return r.next.emit .value

def openFlow (r : Cursor) (t : Token) : Advance := do
  let r ← r.saveKey
  return ({ r with keys := none :: r.keys, keyAllowed := true } : Cursor).next.emit t

def closeFlow (r : Cursor) (t : Token) : Advance := do
  require r.inFlow
  let r ← r.dropKey
  return ({ r with keys := r.keys.tail, keyAllowed := false } : Cursor).next.emit t

def readComma (r : Cursor) : Advance := do
  let r ← ({ r with keyAllowed := true } : Cursor).dropKey
  return r.next.emit .comma

/-- Leaves all blocks, as directives and document marks do. -/
def leaveDocument (r : Cursor) : Advance := do
  let r ← (r.closeBlocks (-1)).dropKey
  return { r with keyAllowed := false }

def readSeparator (r : Cursor) (t : Token) : Advance := do
  let r ← r.leaveDocument
  return (r.advance 3).emit t

end Cursor

def hexDigit? (c : Char) : Option Nat :=
  if c.isDigit then some (c.toNat - '0'.toNat)
  else if 'a' ≤ c ∧ c ≤ 'f' then some (c.toNat - 'a'.toNat + 10)
  else if 'A' ≤ c ∧ c ≤ 'F' then some (c.toNat - 'A'.toNat + 10)
  else none

/-- The number in the first `width` symbols, all of which have to be hexadecimal digits. -/
def hexNumber (width : Nat) (cs : List Char) : Except Fault Nat :=
  let ds := (cs.take width).filterMap hexDigit?
  if ds.length = width then .ok (ds.foldl (fun n d => n * 16 + d) 0) else refuse

/-- Escaped bytes in a tag, each a percent sign and two digits, and what follows them. -/
def percentBytes : List Char → Except Fault (Bytes × List Char)
  | '%' :: a :: b :: cs => do
    let n ← hexNumber 2 [a, b]
    let (bytes, rest) ← percentBytes cs
    return (n.toUInt8 :: bytes, rest)
  | '%' :: _ => refuse
  | cs => .ok ([], cs)

def isUriChar (c : Char) : Bool := c.isAlphanum || "-;/?:@&=+$,_.!~*'()[]".toList.contains c

/-- The text of a tag, in which escaped bytes spell UTF-8, at most `limit` symbols or escapes. -/
def uriText (limit : Nat) (cs : List Char) : Except Fault (List Char × List Char) :=
  match limit, cs with
  | limit + 1, c :: rest =>
    if c = '%' then do
      let (bytes, rest) ← percentBytes cs
      match (Encoding.utf8.decode bytes).toString? with
      | none => refuse
      | some s =>
        let (tail, rest) ← uriText limit rest
        return (s.toList ++ tail, rest)
    else if isUriChar c then do
      let (tail, rest) ← uriText limit rest
      return (c :: tail, rest)
    else .ok ([], cs)
  | _, cs => .ok ([], cs)

/-- A tag text, which has to have something in it. -/
def readUri (cs : List Char) : Except Fault (String × List Char) := do
  let (text, rest) ← uriText cs.length cs
  require (rest.length < cs.length)
  return (String.ofList text, rest)

/-- A tag handle: a mark alone before a space, or a name between two marks. -/
def readHandle : List Char → Except Fault (String × List Char)
  | '!' :: cs =>
    if cs.head? = some ' ' then .ok ("!", cs)
    else
      let name := cs.takeWhile isNameChar
      match cs.drop name.length with
      | '!' :: rest => .ok (String.ofList ('!' :: name ++ ['!']), rest)
      | _ => refuse
  | _ => refuse

def dropSpaces (cs : List Char) : List Char := cs.dropWhile (· = ' ')

/-- A number in a version directive. It has a bound on its digits. -/
def versionNumber (cs : List Char) : Except Fault (Nat × List Char) :=
  let ds := cs.takeWhile Char.isDigit
  if ds.isEmpty then refuse
  else if 4300 < ds.length then .error (.tooManyDigits ds.length)
  else .ok (ds.foldl (fun n c => n * 10 + (c.toNat - '0'.toNat)) 0, cs.drop ds.length)

/-- What a directive of that name says, and what follows it on the line. -/
def directiveToken (name : String) (cs : List Char) : Except Fault (Token × List Char) :=
  if name = "YAML" then do
    let (major, cs) ← versionNumber (dropSpaces cs)
    require (cs.head? = some '.')
    let (_, cs) ← versionNumber (cs.drop 1)
    require (atSpace cs)
    return (.version major, cs)
  else if name = "TAG" then do
    let (handle, cs) ← readHandle (dropSpaces cs)
    require (cs.head? = some ' ')
    let (uri, cs) ← readUri (dropSpaces cs)
    require (atSpace cs)
    return (.handle handle uri, cs)
  else .ok (.otherDirective, cs.dropWhile (!isBreak ·))

/-- What may end a line: spaces and a comment. -/
def dropComment (cs : List Char) : Except Fault (List Char) :=
  let cs := dropSpaces cs
  let cs := if cs.head? = some '#' then cs.dropWhile (!isBreak ·) else cs
  if atLineEnd cs then .ok cs else refuse

namespace Cursor

def readDirective (r : Cursor) : Advance := do
  let r ← r.leaveDocument
  let line := r.rest.drop 1
  let name := line.takeWhile isNameChar
  let cs := line.drop name.length
  require (!name.isEmpty && atSpace cs)
  let (token, cs) ← directiveToken (String.ofList name) cs
  let cs ← dropComment cs
  return (r.advanceTo (cs.drop 1)).emit token

/-- The name behind the mark of an anchor or of a reference to one. -/
def readName (r : Cursor) (token : String → Token) : Advance := do
  let r ← r.startKey
  let name := (r.rest.drop 1).takeWhile isNameChar
  let cs := r.rest.drop (name.length + 1)
  require (!name.isEmpty && (atGap cs || cs.head?.any ("?:,]\x7d%@\x60".toList.contains ·)))
  return (r.advance (name.length + 1)).emit (token (String.ofList name))

/-- A second mark comes before the next space. -/
def hasHandle (cs : List Char) : Bool :=
  (cs.takeWhile fun c => c ≠ ' ' && !isBreak c).contains '!'

/-- A tag in one of its forms: in angle brackets, a mark alone, or a suffix behind a handle. -/
def tagToken (cs : List Char) : Except Fault (Token × List Char) :=
  match cs.drop 1 with
  | '<' :: inside => do
    let (uri, rest) ← readUri inside
    require (rest.head? = some '>')
    return (.tag none uri, rest.drop 1)
  | after =>
    if atGap after then .ok (.tag none "!", after)
    else do
      let (handle, rest) ← if hasHandle after then readHandle cs else .ok ("!", after)
      let (suffix, rest) ← readUri rest
      return (.tag (some handle) suffix, rest)

def readTag (r : Cursor) : Advance := do
  let r ← r.startKey
  let (token, rest) ← tagToken r.rest
  require (atSpace rest)
  return (r.advanceTo rest).emit token

/-- A word of a plain scalar. -/
def plainWord (flow : Bool) : List Char → List Char
  | [] => []
  | c :: cs =>
    let colonEnds := atGap cs || (flow && cs.head?.any (",[]\x7b\x7d".toList.contains ·))
    let endsHere :=
      isGap c || (c = ':' && colonEnds) || (flow && ",?[]\x7b\x7d".toList.contains c)
    if endsHere then [] else c :: plainWord flow cs

/-- Breaks and spaces at the start of lines: the breaks, how much was passed, and whether a
separator follows a break. -/
def lineBreaks : List Char → List Char × Nat × Bool
  | [] => ([], 0, false)
  | c :: cs =>
    if c = ' ' then
      let (breaks, n, stop) := lineBreaks cs
      (breaks, n + 1, stop)
    else if isBreak c then
      if atSeparator cs then ([breakChar c], 1, true)
      else
        let (breaks, n, stop) := lineBreaks cs
        (breakChar c :: breaks, n + 1, stop)
    else ([], 0, false)

/-- What stands between two words of a plain scalar, none if the scalar ends; how much was passed;
and whether a line ended. -/
def plainGap (cs : List Char) : Option (List Char) × Nat × Bool :=
  let spaces := cs.takeWhile (· = ' ')
  match cs.drop spaces.length with
  | [] => (none, spaces.length, false)
  | c :: rest =>
    if isBreak c then
      if atSeparator rest then (none, spaces.length + 1, true)
      else
        let (breaks, n, stop) := lineBreaks rest
        (if stop then none else some (foldBreaks c breaks), spaces.length + 1 + n, true)
    else (if spaces.isEmpty then none else some spaces, spaces.length, false)

/-- Words and gaps up to the end of the scalar, which has to stay right of `indent` outside flow
collections. There are at most `limit` words. -/
def plainWords (limit : Nat) (indent : Int) (gap done : List Char) (r : Cursor) :
    List Char × Cursor :=
  match limit with
  | 0 => (done, r)
  | limit + 1 =>
    let word := plainWord r.inFlow r.rest
    if r.rest.head? = some '#' || word.isEmpty then (done, r)
    else
      let r := r.advance word.length
      let (between, n, broke) := plainGap r.rest
      let r := { r.advance n with keyAllowed := broke }
      let done := done ++ gap ++ word
      match between with
      | none => (done, r)
      | some gap =>
        if r.rest.head? = some '#' || (!r.inFlow && r.column ≤ indent) then (done, r)
        else plainWords limit indent gap done r

def readPlain (r : Cursor) : Advance := do
  let r ← r.startKey
  let (text, r) := plainWords r.rest.length r.indent [] [] r
  return r.emit (.scalar (text.map .char) true)

end Cursor

def escapes : List (Char × Char) :=
  [('0', '\x00'), ('a', '\x07'), ('b', '\x08'), ('t', '\t'), ('\t', '\t'), ('n', '\n'),
    ('v', '\x0b'), ('f', '\x0c'), ('r', '\r'), ('e', '\x1b'), (' ', ' '), ('"', '"'), ('\\', '\\'),
    ('/', '/'), ('N', '\x85'), ('_', '\xa0'), ('L', '\u2028'), ('P', '\u2029')]

/-- The symbol by its code point in `width` hexadecimal digits. -/
def codePoint (width : Nat) (cs : List Char) : Except Fault Sym := do
  let n ← hexNumber width cs
  match Sym.ofCode? n with
  | some s => .ok s
  | none => .error (if n < 0x80000000 then .codePoint else .codePointSize)

/-- The breaks of empty lines inside a quoted scalar and the text behind them. -/
def quotedBreaks : Nat → List Char → Except Fault (List Char × List Char)
  | 0, _ => refuse
  | limit + 1, cs =>
    if atSeparator cs then refuse
    else
      match cs.dropWhile isSpacing with
      | [] => .ok ([], [])
      | c :: rest =>
        if isBreak c then
          (quotedBreaks limit rest).map fun (bs, rest) => (breakChar c :: bs, rest)
        else .ok ([], c :: rest)

/-- The number of digits behind the mark of an escape. -/
def escapeWidth? (c : Char) : Option Nat :=
  if c = 'x' then some 2 else if c = 'u' then some 4 else if c = 'U' then some 8 else none

/-- What an escape in double quotes stands for, and what follows it. -/
def readEscape (limit : Nat) : List Char → Except Fault (Text × List Char)
  | [] => refuse
  | e :: rest =>
    match escapes.lookup e, escapeWidth? e with
    | some replacement, _ => .ok ([.char replacement], rest)
    | none, some width => (codePoint width rest).map fun s => ([s], rest.drop width)
    | none, none =>
      if isBreak e then (quotedBreaks limit rest).map fun (bs, rest) => (bs.map .char, rest)
      else refuse

/-- What a gap in quotes stands for, and what follows it. -/
def quotedGap (limit : Nat) (cs : List Char) : Except Fault (Text × List Char) :=
  let blanks := cs.takeWhile isSpacing
  match cs.drop blanks.length with
  | [] => refuse
  | b :: rest =>
    if isBreak b then
      (quotedBreaks limit rest).map fun (bs, rest) => ((foldBreaks b bs).map .char, rest)
    else .ok (blanks.map .char, b :: rest)

/-- The value of a quoted scalar up to its closing quote, and the text behind that. -/
def quotedText (double : Bool) (done : Array Sym) : Nat → List Char → Except Fault (Text × List Char)
  | 0, _ => refuse
  | _, [] => refuse
  | limit + 1, c :: cs =>
    if c = (if double then '"' else '\'') then
      if !double && cs.head? = some '\'' then quotedText double (done.push '\'') limit cs.tail
      else .ok (done.toList, cs)
    else if double && c = '\\' then do
      let (part, rest) ← readEscape limit cs
      quotedText double (done ++ part.toArray) limit rest
    else if isGap c then do
      let (part, rest) ← quotedGap limit (c :: cs)
      quotedText double (done ++ part.toArray) limit rest
    else quotedText double (done.push c) limit cs

/-- What becomes of the line breaks that end a block scalar. -/
inductive Chomping where
  | clip | strip | keep
  deriving DecidableEq, Repr, Inhabited

namespace Chomping

def ofMark? : Char → Option Chomping
  | '+' => some keep
  | '-' => some strip
  | _ => none

end Chomping

/-- The header of a block scalar: chomping, further indentation, and what follows. -/
structure BlockHeader where
  chomping : Chomping := .clip
  increment : Option Nat := none
  rest : List Char
  deriving Repr, Inhabited

namespace BlockHeader

def readIncrement (h : BlockHeader) : Except Fault BlockHeader :=
  match h.rest with
  | c :: cs =>
    if c = '0' then refuse
    else if c.isDigit then .ok { h with increment := some (c.toNat - '0'.toNat), rest := cs }
    else .ok h
  | [] => .ok h

def readChomping (h : BlockHeader) : BlockHeader :=
  match h.rest with
  | c :: cs => (Chomping.ofMark? c).elim h fun m => { h with chomping := m, rest := cs }
  | [] => h

/-- The two marks may come in either order, each at most once. -/
def read (cs : List Char) : Except Fault BlockHeader := do
  let h := readChomping { rest := cs }
  let h ←
    if h.rest.length < cs.length then h.readIncrement
    else h.readIncrement.map fun i => if i.increment.isSome then i.readChomping else i
  require (atSpace h.rest)
  return { h with rest := ← dropComment h.rest }

end BlockHeader

namespace Cursor

/-- Passes the empty lines in front of a block scalar: their breaks, and the furthest column that
spaces reach. -/
def leadingBreaks (furthest : Nat) (breaks : Array Char) (r : Cursor) :
    List Char → Nat × Array Char × Cursor
  | [] => (furthest, breaks, r)
  | c :: cs =>
    if c = ' ' then leadingBreaks (max furthest r.next.column) breaks r.next cs
    else if isBreak c then leadingBreaks furthest (breaks.push (breakChar c)) r.next cs
    else (furthest, breaks, r)

/-- Passes empty lines and the indentation of the next line. -/
def indentedBreaks (indent : Nat) (breaks : Array Char) (r : Cursor) :
    List Char → Array Char × Cursor
  | [] => (breaks, r)
  | c :: cs =>
    if c = ' ' && r.column < indent then indentedBreaks indent breaks r.next cs
    else if isBreak c then indentedBreaks indent (breaks.push (breakChar c)) r.next cs
    else (breaks, r)

/-- Whether a line of a block scalar starts here. -/
def atBlockLine (indent : Nat) (r : Cursor) : Bool := r.column = indent && !r.rest.isEmpty

/-- The break between two lines of a block scalar. A folded one joins lines that start with text. -/
def blockBreak (folded joins : Bool) (lineBreak : Option Char) (breaks : Array Char) : List Char :=
  if folded && joins && lineBreak = some '\n' then if breaks.isEmpty then [' '] else []
  else lineBreak.toList

/-- The lines of a block scalar, with the break of the last line and those behind it. -/
def blockLines (folded : Bool) (indent : Nat) (done : Array Char) (lineBreak : Option Char)
    (breaks : Array Char) (r : Cursor) : Nat → Array Char × Option Char × Array Char × Cursor
  | 0 => (done, lineBreak, breaks, r)
  | limit + 1 =>
    if !r.atBlockLine indent then (done, lineBreak, breaks, r)
    else
      let startsText (r : Cursor) := !r.rest.head?.any isSpacing
      let joins := startsText r
      let line := r.rest.takeWhile (!isBreak ·)
      let done := done ++ breaks ++ line.toArray
      let r := r.advance line.length
      let lineBreak := r.rest.head?.map breakChar
      let (breaks, r) := indentedBreaks indent #[] r.next r.next.rest
      if r.atBlockLine indent then
        let between := blockBreak folded (joins && startsText r) lineBreak breaks
        blockLines folded indent (done ++ between.toArray) lineBreak breaks r limit
      else (done, lineBreak, breaks, r)

/-- The line breaks that a block scalar ends with. -/
def blockTail (chomping : Chomping) (lineBreak : Option Char) (breaks : Array Char) : List Char :=
  match chomping with
  | .strip => []
  | .clip => lineBreak.toList
  | .keep => lineBreak.toList ++ breaks.toList

/-- A block scalar, whose indentation is that of its first line unless the header gives it. -/
def readBlock (r : Cursor) (folded : Bool) : Advance := do
  let r ← ({ r with keyAllowed := true } : Cursor).dropKey
  let header ← BlockHeader.read (r.rest.drop 1)
  let r := r.advanceTo (header.rest.drop 1)
  let least := (max (r.indent + 1) 1).toNat
  let (indent, breaks, r) :=
    match header.increment with
    | none =>
      let (furthest, breaks, r) := leadingBreaks 0 #[] r r.rest
      (max least furthest, breaks, r)
    | some n =>
      let (breaks, r) := indentedBreaks (least + n - 1) #[] r r.rest
      (least + n - 1, breaks, r)
  let (done, lineBreak, breaks, r) :=
    blockLines folded indent #[] none breaks r (r.rest.length + 1)
  let text := done.toList ++ blockTail header.chomping lineBreak breaks
  return r.emit (.scalar (text.map .char) false)

def readQuoted (r : Cursor) (double : Bool) : Advance := do
  let r ← r.startKey
  let (text, rest) ← quotedText double #[] (r.rest.length + 1) (r.rest.drop 1)
  return (r.advanceTo rest).emit (.scalar text false)

/-- Whether a plain scalar may start with `c` before `cs`. -/
def startsPlain (flow : Bool) (c : Char) (cs : List Char) : Bool :=
  !("-?:,[]\x7b\x7d#&*!|>'\"%@\x60".toList.contains c || isGap c) ||
    (!atGap cs && (c = '-' || (!flow && (c = '?' || c = ':'))))

/-- Reads the token that starts with `c`, which is not blank. -/
def readToken (r : Cursor) (c : Char) (cs : List Char) : Advance :=
  let marks := r.inFlow || atGap cs
  if r.column = 0 && c = '%' then r.readDirective
  else if r.column = 0 && atSeparator (c :: cs) then
    r.readSeparator (if c = '-' then .documentStart else .documentEnd)
  else if c = '[' then r.openFlow .openSequence
  else if c = '{' then r.openFlow .openMapping
  else if c = ']' then r.closeFlow .closeSequence
  else if c = '}' then r.closeFlow .closeMapping
  else if c = ',' then r.readComma
  else if c = '-' && atGap cs then r.readItem
  else if c = '?' && marks then r.readKeyMark
  else if c = ':' && marks then r.readValueMark
  else if c = '*' then r.readName .reference
  else if c = '&' then r.readName .anchor
  else if c = '!' then r.readTag
  else if c = '|' && !r.inFlow then r.readBlock false
  else if c = '>' && !r.inFlow then r.readBlock true
  else if c = '\'' then r.readQuoted false
  else if c = '"' then r.readQuoted true
  else if startsPlain r.inFlow c cs then r.readPlain
  else refuse

/-- Reads on from one token to the next; nothing is left at the end of the stream. -/
def step (r : Cursor) : Except Fault (Cursor × Bool) := do
  let r ← (r.skipMark.skipBlank false r.skipMark.rest).dropStale
  let r := r.closeBlocks r.column
  match r.rest with
  | [] => return (← r.leaveDocument, false)
  | c :: cs => return (← r.readToken c cs, true)

/-- The tokens that are settled: a possible key holds back itself and all behind it. -/
def settled (r : Cursor) : List Token :=
  let first := r.keys.foldl (fun n k => min n ((k.map OpenKey.token).getD n)) r.tokens.size
  r.tokens.toList.take first

/-- Reads tokens to the end of the stream, at most `limit` of them. -/
def readAll : Nat → Cursor → List Token
  | 0, r => r.settled ++ [.stop .malformed]
  | limit + 1, r =>
    match r.dropStale with
    | .error f => r.settled ++ [.stop f]
    | .ok r =>
      match r.step with
      | .error f => r.settled ++ [.stop f]
      | .ok (r, true) => readAll limit r
      | .ok (r, false) => r.tokens.toList

end Cursor

/-- Characters that a stream may hold. -/
def isAllowed (c : Char) : Bool :=
  c = '\t' || c = '\n' || c = '\r' || c = '\x85' ||
    inRanges [(0x20, 0x7E), (0xA0, 0xD7FF), (0xE000, 0xFFFD), (0x10000, 0x10FFFF)] c

def tokens (cs : List Char) : List Token :=
  if cs.all isAllowed then Cursor.readAll (cs.length + 1) { rest := cs } else [.stop .malformed]

end DocBlock.Yaml
