import DocBlock.Files.RealPath
import DocBlock.Settings.Basic
import DocBlock.Yaml.Value

/-! Loading the settings from a configuration file. How a stream is read and how its entries are checked
is left to a `Loader`; the one of the program is `Settings.loader`. -/

namespace DocBlock

/-- What is at the top of a configuration file. A key that is no text is not told further. -/
inductive Content (α : Type) where
  | empty
  | mapping (entries : List (Option Text × α))
  | other
  deriving Repr, Inhabited

/-- How a configuration is read from a stream of characters, and how its entries are checked. -/
structure Loader (α : Type) where
  read : List Char → Except Yaml.Fault (Content α)
  check : List (Text × α) → Checked Settings

namespace Content

def ofDatum : Datum → Content Datum
  | .null => .empty
  | .map entries => .mapping (entries.map fun (key, d) => (key.text?, d))
  | _ => .other

end Content

namespace Settings

def loader : Loader Datum where
  read content := (Yaml.value content).map Content.ofDatum
  check entries := check (entries.map fun (key, d) => (.text key, d))

/-- Every line ending as a line feed. -/
def unifyLineEnds : List Char → List Char
  | '\r' :: '\n' :: cs => '\n' :: unifyLineEnds cs
  | '\r' :: cs => '\n' :: unifyLineEnds cs
  | c :: cs => c :: unifyLineEnds cs
  | [] => []

variable {α : Type} (l : Loader α) (s : Site) (t : Tree)

/-- The content of a configuration file. -/
def readContent (path : Path) : Except ConfigFault (List Char) :=
  match s.look [] t path with
  | .error (.path _) => .error (.missing path)
  | .error (.system e) => .error (if e.isAbsence then .missing path else .system e path)
  | .ok _ =>
    match s.openRead [.look path] t path with
    | .error (.path _) => .error (.missing path)
    | .error (.system e) => .error (.system e path)
    | .ok id =>
      match (Encoding.utf8.decode (t.content id)).toString? with
      | some content => .ok (unifyLineEnds content.toList)
      | none => .error .notUtf8

/-- The entries at the top of a configuration. An empty document has none. -/
def topEntries (path : Path) : Content α → Except ConfigFault (List (Option Text × α))
  | .empty => .ok []
  | .mapping entries => .ok entries
  | .other => .error (.notMapping path)

/-- The entries under their keys, which all have to be text. -/
def textEntries (entries : List (Option Text × α)) : Except Fault (List (Text × α)) :=
  match entries.mapM fun (key, d) => key.map (·, d) with
  | some named => .ok named
  | none => .error .keyNotText

/-- A stream that is refused makes the configuration invalid; other faults of a stream end the run. -/
def streamFault (config : Text) (f : Yaml.Fault) : Fault :=
  if f.isRefusal then .config config (.notYaml f) else .value f

/-- The calls by which a configuration file is loaded. -/
def loadingCalls (path : Path) : List Syscall := [.look path, .openRead path]

/-- A relative boilerplate path is taken from the directory of the configuration file; an absolute one,
or one from a home directory, is kept as written. -/
def anchorBoilerplate (path : Path) (o : Options) : Except Fault Options := do
  let some written := o.boilerplatePath? | return o
  if (← s.expandHome (Path.ofText written)).isAbsolute then return o
  let past := loadingCalls path
  let file ← s.realPlace past t ((s.start path).map Name.toText) path.parts
  let place ← s.realPlace past t file.dropLast (Path.ofText written).parts
  return { o with boilerplate := some (TextPlace.toPath place).toText }

/-- The settings in a file. -/
def load (config : Text) : Except Fault Settings := do
  let path := Path.ofText config
  let content ← (readContent s t path).mapError (.config config)
  let top ← (l.read content).mapError (streamFault config)
  let entries ← (topEntries path top).mapError (.config config)
  let settings ← (l.check (← textEntries entries)).mapError fun issues => .config config (.invalid issues)
  return { settings with options := ← anchorBoilerplate s t path settings.options }

end Settings

end DocBlock
