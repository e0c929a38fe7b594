import DocBlock.Page
import DocBlock.Text.Encoding

/-! Annotating a whole text, and a byte stream through a codec.

Left out: an edit is encoded as a whole, also where it is written in several pieces. -/

namespace DocBlock

/-- What was written before the run ended, the notes left, and the fault that ended it early. -/
structure Output (α : Type) where
  data : List α := []
  notes : List Note := []
  fault : Option Fault := none
  deriving DecidableEq, Repr, Inhabited

namespace Output

variable {α : Type}

/-- One output after the other, up to the first fault. -/
def append (a b : Output α) : Output α :=
  if a.fault.isSome then a
  else { data := a.data ++ b.data, notes := a.notes ++ b.notes, fault := b.fault }

def concat (os : List (Output α)) : Output α := os.foldr append {}

def ofEdit (write : Text → Except Fault (List α)) (e : Edit) : Output α :=
  match write e.written with
  | .ok data => { data }
  | .error f => { fault := some f }

def ofPage (write : Text → Except Fault (List α)) (p : Page) : Output α :=
  concat ({ notes := p.notes } :: p.edits.map (ofEdit write) ++ [{ fault := p.fault }])

def toExcept (o : Output α) : Except Fault (List α) :=
  match o.fault with
  | none => .ok o.data
  | some f => .error f

end Output

/-- The pages of a text in order, whether or not an earlier one has a fault. -/
def pages (o : Options) (plate : Option Boilerplate.Reading) (t : Text) : List Page :=
  (events o.bufferCapacity t).map (Event.page o plate)

def annotate (o : Options) (plate : Option Boilerplate.Reading) (t : Text) : Output Sym :=
  .concat ((pages o plate t).map (.ofPage .ok))

def Encoding.write (e : Encoding) (t : Text) : Except Fault Bytes :=
  match e.encode? t with
  | some bytes => .ok bytes
  | none => .error .unencodable

namespace Codec

/-- Writes a piece behind earlier ones. Where there is nothing to write, the codec is not asked. -/
def write (c : Codec) (earlier : List Text) (t : Text) : Except Fault Bytes :=
  if t = [] then .ok []
  else
    match c.encode? earlier t with
    | some bytes => .ok bytes
    | none => .error .unencodable

def writeEdits (c : Codec) (earlier : List Text) : List Edit → List (Output UInt8)
  | [] => []
  | e :: es => .ofEdit (c.write earlier) e :: c.writeEdits (e.written :: earlier) es

def writePages (c : Codec) (earlier : List Text) : List Page → List (Output UInt8)
  | [] => []
  | p :: ps =>
    .concat ({ notes := p.notes } :: c.writeEdits earlier p.edits ++ [{ fault := p.fault }]) ::
      c.writePages ((p.edits.map Edit.written).reverse ++ earlier) ps

end Codec

/-- The pages of what was decoded. A symbol is annotated once the next one has been read, so behind
undecodable bytes the last one before them is lost. -/
def Decoded.pages (o : Options) (plate : Option Boilerplate.Reading) (d : Decoded) : List Page :=
  if d.isComplete then DocBlock.pages o plate d.text
  else
    let read := (Pass.moments o.bufferCapacity {} d.text).dropLast
    (read.flatMap (·.events)).map (Event.page o plate) ++ [{ fault := some .undecodable }]

/-- The same on bytes. An edit that the codec cannot express writes nothing. -/
def annotateBytes (c : Codec) (o : Options) (plate : Option Boilerplate.Reading) (bytes : Bytes) :
    Output UInt8 :=
  .concat (c.writePages [] ((c.decode bytes).pages o plate))

end DocBlock
