import DocBlock.Annotation
import DocBlock.Files.Site
import DocBlock.Settings.Basic

/-! Annotating a file in place. The result goes to a temporary sibling first; only when that is
complete is the file renamed to its backup and the temporary one moved into its place. -/

namespace DocBlock

/-- What annotating one file did: the changes to the tree and the calls in order, the notes, and the
backup path or the fault. -/
structure Attempt where
  changes : List Change := []
  calls : List Syscall := []
  notes : List Note := []
  result : Except Fault Path
  deriving DecidableEq, Repr

/-- The attempt with something done before it. -/
def Attempt.after (changes : List Change) (calls : List Syscall) (notes : List Note) (a : Attempt) :
    Attempt :=
  { changes := changes ++ a.changes, calls := calls ++ a.calls, notes := notes ++ a.notes
    result := a.result }

/-- What processing a file came to. -/
structure Product where
  output : Output UInt8
  /-- Whether the temporary file has disappeared meanwhile. -/
  losesTemp : Bool := false
  deriving DecidableEq, Repr

/-- The fault of a breakdown while a file is processed. -/
def Breakdown.fileFault (b : Breakdown) (path temp : Path) : Fault :=
  match b.error with
  | none => .memory path
  | some e => .write temp e

/-- A full device refuses the output as soon as there is any, whatever else went wrong. -/
def Tree.writeFault? (t : Tree) (place : Place) (temp : Path) (out : Output UInt8) : Option Fault :=
  if t.find? place = some .fullDevice && !out.data.isEmpty then some (.write temp .noSpace)
  else out.fault

namespace Site

variable (s : Site) (past : List Syscall) (t : Tree)

/-- Annotates the bytes of a file, once its temporary sibling is open. -/
def process (o : Options) (path temp : Path) (c : Codec) (bytes : Bytes) : Product :=
  match s.breaksDown past (some path) with
  | some b =>
    { output := { data := b.written, fault := some (b.fileFault path temp) }
      losesTemp := b.losesTemp }
  | none =>
    match s.boilerplate? past t o with
    | .error f => { output := { fault := some f } }
    | .ok plate => { output := annotateBytes c o plate bytes }

/-- Moves the finished temporary file into place. -/
def replace (path temp backup : Path) : Attempt :=
  match s.rename past t path backup with
  | .error trouble =>
    { calls := [.rename path backup], result := .error (trouble.fault (.backup path backup)) }
  | .ok (a, b) =>
    let first := Change.rename a b
    let calls := [Syscall.rename path backup, .rename temp path]
    match s.rename (past ++ [.rename path backup]) (t.apply first) temp path with
    | .error trouble =>
      { changes := [first], calls, notes := [.kept temp backup]
        result := .error (trouble.fault (.rename temp path)) }
    | .ok (c, d) =>
      { changes := [first, .rename c d], calls, notes := [.annotated path backup]
        result := .ok backup }

/-- Removes the temporary file after a fault. If it is gone already, so much the better; any other
trouble takes the place of the fault. -/
def discard (temp : Path) (f : Fault) : Attempt :=
  match s.remove past t temp with
  | .ok place => { changes := [.remove place], calls := [.remove temp], result := .error f }
  | .error (.path g) => { calls := [.remove temp], result := .error g }
  | .error (.system e) =>
    if e.code = SystemError.noEntry.code then
      { calls := [.remove temp], notes := [.alreadyGone temp], result := .error f }
    else { calls := [.remove temp], result := .error (.system e (some temp)) }

/-- The changes by which the temporary file has disappeared. -/
def losses (temp : Path) (made : Product) : List Change :=
  if made.losesTemp then ((s.place? t temp).map Change.remove).toList else []

/-- Writes the output to the temporary file and, if all went well, moves it into place. -/
def produce (path temp backup : Path) (place : Place) (made : Product) : Attempt :=
  let written := [Change.create place, .fill place made.output.data]
  match t.writeFault? place temp made.output with
  | some f =>
    let changes := written ++ s.losses (t.applyAll written) temp made
    (s.discard past (t.applyAll changes) temp f).after changes [] made.output.notes
  | none => (s.replace past (t.applyAll written) path temp backup).after written [] made.output.notes

/-- Opens the file and its temporary sibling: the codec, the file, and the place to write to. -/
def openBoth (encoding : Text) (path temp : Path) : Except Fault (Codec × Nat × Place) := do
  let name ← Encoding.spelled encoding
  let id ← (s.openRead past t path).mapError (Trouble.fault (.read path))
  let c ← s.codec name
  let place ← (s.openWrite (past ++ [.openRead path]) t temp).mapError (Trouble.fault (.openTemp temp))
  return (c, id, place)

/-- Annotates a file in place. It is read after the temporary file has been opened, so it is empty by
then if the temporary file is another name of it. -/
def annotateInPlace (o : Options) (x : Suffixes) (path : Path) : Attempt :=
  match path.addSuffix x.temp, path.addSuffix x.backup with
  | .error f, _ | .ok _, .error f => { result := .error f }
  | .ok temp, .ok backup =>
    let calls := [Syscall.openRead path, .openWrite temp]
    match s.openBoth past t o.encoding path temp with
    | .error f => { calls, result := .error f }
    | .ok (c, id, place) =>
      let opened := t.apply (.create place)
      let made := s.process (past ++ calls) opened o path temp c (opened.content id)
      (s.produce (past ++ calls) t path temp backup place made).after [] calls []

end Site

end DocBlock
