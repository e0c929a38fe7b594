import DocBlock.Files.InPlace
import DocBlock.Settings.Load

/-! The command: annotate the named files in place one after the other, or standard input to standard
output if none is named. A file that fails does not stop the others, unless the boilerplate is
missing. -/

namespace DocBlock

/-- What the command is asked to do. -/
structure Request where
  files : List Text := []
  prototypes : Bool := false
  boilerplate : Option Text := none
  config : Option Text := none
  deriving DecidableEq, Repr, Inhabited

/-- What is shown on the error stream. -/
inductive Diagnostic where
  | version
  | failure (f : Fault)
  | unknownOption (argument : Text)
  | noBoilerplate (path : Text)
  | note (n : Note)
  deriving DecidableEq, Repr, Inhabited

/-- Which notes are shown. Unless logging is set up, warnings appear without level and logger. -/
inductive Logging where
  | unset | warnings | debug
  deriving DecidableEq, Repr, Inhabited

namespace Diagnostic

def noteLine (l : Logging) (n : Note) : Option String :=
  let full := n.level ++ " " ++ n.logger ++ ": " ++ n.text
  match l, n.isWarning with
  | .unset, true => some n.text
  | .unset, false => none
  | .warnings, true => some full
  | .warnings, false => none
  | .debug, _ => some full

def line (l : Logging) : Diagnostic → Option String
  | version => some "insertdox, version 0.9.1"
  | failure f => some ("### error: " ++ f.message)
  | unknownOption argument => some ("### error: unknown option '" ++ argument.display ++ "'")
  | noBoilerplate path => some ("### error: unable to open '" ++ path.display ++ "' to read")
  | note n => noteLine l n

end Diagnostic

/-- The outcome of a run: the changes to the tree in order, what went to standard output, the
diagnostics, and the exit code or the fault that ended it. -/
structure Run where
  changes : List Change := []
  output : Bytes := []
  diagnostics : List Diagnostic := []
  result : Except Fault ExitCode
  deriving DecidableEq, Repr

namespace Run

def fail (f : Fault) : Run :=
  match f.exitCode? with
  | some code => { diagnostics := [.failure f], result := .ok code }
  | none => { result := .error f }

/-- The run with something said before it. -/
def after (ds : List Diagnostic) (r : Run) : Run := { r with diagnostics := ds ++ r.diagnostics }

end Run

/-- The fault of a breakdown while standard input is processed, which nothing is prepared for. -/
def Breakdown.inputFault (b : Breakdown) : Fault :=
  match b.error with
  | none => .outOfMemory
  | some e => .system e none

namespace Site

/-- Annotates the files in order. `code` is the exit code of the first failure so far. -/
def annotateFiles (s : Site) (o : Options) (x : Suffixes) (code : ExitCode) (past : List Syscall)
    (t : Tree) : List Path → Run
  | [] => { result := .ok code }
  | path :: paths =>
    let a := s.annotateInPlace past t { o with filename := some path.name } x path
    let said := a.notes.map Diagnostic.note
    let past := past ++ a.calls
    let after := t.applyAll a.changes
    match a.result with
    | .ok _ =>
      let rest := s.annotateFiles o x code past after paths
      { rest with changes := a.changes ++ rest.changes, diagnostics := said ++ rest.diagnostics }
    | .error f =>
      match f.exitCode? with
      | none => { changes := a.changes, diagnostics := said, result := .error f }
      | some .boilerplate =>
        { changes := a.changes, diagnostics := said ++ [.failure f]
          result := .ok .boilerplate }
      | some failed =>
        let rest := s.annotateFiles o x (if code = .ok then failed else code) past after paths
        { rest with
            changes := a.changes ++ rest.changes
            diagnostics := said ++ .failure f :: rest.diagnostics }

variable (s : Site)

/-- Annotates standard input. What was written before a fault stays written. -/
def annotateInput (past : List Syscall) (t : Tree) (o : Options) (input : Bytes) : Run :=
  match Encoding.spelled o.encoding >>= s.codec, s.boilerplate? past t o with
  | .error f, _ | .ok _, .error f => .fail f
  | .ok c, .ok plate =>
    let out : Output UInt8 :=
      match s.breaksDown past none with
      | some b => { data := b.written, fault := some b.inputFault }
      | none => annotateBytes c o plate input
    let said := out.notes.map Diagnostic.note
    let ended : Run := out.fault.elim { result := .ok .ok } .fail
    { ended.after said with output := out.data }

/-- The options of the settings with those of the request over them. -/
def requested (r : Request) (o : Options) : Options :=
  { o with
      prototypesOnly := o.prototypesOnly || r.prototypes
      boilerplate := (r.boilerplate.filter (· ≠ [])).or o.boilerplate }

def isOption (argument : Text) : Bool := argument.head? = some (.char '-')

/-- Annotates what the request names, once its options are settled. -/
def annotateRequested (past : List Syscall) (t : Tree) (input : Bytes) (settings : Settings)
    (files : List Text) : Run :=
  let o := settings.options
  let unknown := (files.filter isOption).map Diagnostic.unknownOption
  let paths := (files.filter (!isOption ·)).map Path.ofText
  .after unknown
    (if paths.isEmpty then s.annotateInput past t o input
    else s.annotateFiles o settings.suffixes .ok past t paths)

/-- The boilerplate has to be a file when the run starts. A path that cannot be handed to the system is
taken for a missing file; an error that says more than that nothing is there ends the run. -/
def checkBoilerplate (past : List Syscall) (t : Tree) (o : Options) : Except Run Unit :=
  match o.boilerplatePath? with
  | none => .ok ()
  | some path =>
    let missing : Run := { diagnostics := [.noBoilerplate path], result := .ok .boilerplate }
    match s.expandHome (Path.ofText path) with
    | .error f => .error (.fail f)
    | .ok p =>
      match s.look past t p with
      | .ok (.file _) => .ok ()
      | .ok _ | .error (.path _) => .error missing
      | .error (.system e) => .error (if e.isAbsence then missing else .fail (.system e (some p)))

variable {α : Type} (l : Loader α)

def configPath? (r : Request) : Option Text := r.config.filter (· ≠ [])

def settings (t : Tree) (r : Request) : Except Fault Settings :=
  match configPath? r with
  | none => .ok {}
  | some config => Settings.load l s t config

/-- The calls that loading the configuration takes. -/
def configCalls (r : Request) : List Syscall :=
  ((configPath? r).map fun config => Settings.loadingCalls (Path.ofText config)).getD []

/-- The calls before the files are dealt with: for the configuration and for the boilerplate. -/
def openingCalls (r : Request) (o : Options) : List Syscall :=
  let plate := o.boilerplatePath?.bind fun path => (s.expandHome (Path.ofText path)).toOption
  configCalls r ++ (plate.map Syscall.look).toList

def command (t : Tree) (input : Bytes) (r : Request) : Run :=
  match s.settings l t r with
  | .error f => .fail f
  | .ok loaded =>
    let settled := { loaded with options := requested r loaded.options }
    match s.checkBoilerplate (configCalls r) t settled.options with
    | .error run => run
    | .ok _ => s.annotateRequested (s.openingCalls r settled.options) t input settled r.files

end Site

end DocBlock
