import DocBlock.Command

/-! The command line. Options may stand anywhere before a double dash; what is not understood is kept
as an argument. -/

namespace DocBlock

inductive OptionName where
  | prototypes | boilerplate | config | debug | version | help
  deriving DecidableEq, Repr, Inhabited

namespace OptionName

def takesValue : OptionName → Bool
  | boilerplate | config => true
  | _ => false

def ofShort? : Sym → Option OptionName
  | .char 'p' => some prototypes
  | .char 'b' => some boilerplate
  | .char 'c' => some config
  | .char 'v' => some version
  | .char 'h' => some help
  | _ => none

def ofLong? (t : Text) : Option OptionName :=
  match t.toString? with
  | some "--prototypes" => some prototypes
  | some "--boilerplate" => some boilerplate
  | some "--config" => some config
  | some "--debug" => some debug
  | some "--version" => some version
  | some "--help" => some help
  | _ => none

end OptionName

/-- An option, as typed, that is used in the wrong way. -/
inductive UsageFault where
  | valueMissing (option : Text)
  | valueUnwanted (option : Text)
  deriving DecidableEq, Repr, Inhabited

namespace UsageFault

def message : UsageFault → String
  | valueMissing option => "Option '" ++ option.display ++ "' requires an argument."
  | valueUnwanted option => "Option '" ++ option.display ++ "' does not take a value."

end UsageFault

structure Invocation where
  request : Request := {}
  debug : Bool := false
  version : Bool := false
  help : Bool := false
  deriving DecidableEq, Repr, Inhabited

namespace Invocation

def addFiles (i : Invocation) (files : List Text) : Invocation :=
  { i with request.files := i.request.files ++ files }

/-- Notes an option; of several values the last counts. -/
def set (i : Invocation) (option : OptionName) (value : Text) : Invocation :=
  match option with
  | .prototypes => { i with request.prototypes := true }
  | .boilerplate => { i with request.boilerplate := some value }
  | .config => { i with request.config := some value }
  | .debug => { i with debug := true }
  | .version => { i with version := true }
  | .help => { i with help := true }

/-- What one argument that starts with a dash amounts to: it is complete, or its last option still
wants the next argument as its value. -/
inductive Progress where
  | complete (i : Invocation)
  | wanting (i : Invocation) (option : OptionName) (typed unknown : Text)

/-- Letters of a cluster that mean nothing are gathered into one argument. -/
def keepUnknown (unknown : Text) (i : Invocation) : Invocation :=
  if unknown.isEmpty then i else i.addFiles [.char '-' :: unknown.reverse]

/-- A cluster of one-letter options. The rest of the cluster is the value of an option that takes
one. -/
def readCluster (i : Invocation) (unknown : Text) : Text → Progress
  | [] => .complete (keepUnknown unknown i)
  | c :: cs =>
    match OptionName.ofShort? c with
    | none => readCluster i (c :: unknown) cs
    | some option =>
      if !option.takesValue then readCluster (i.set option []) unknown cs
      else if cs.isEmpty then .wanting i option [.char '-', c] unknown
      else .complete (keepUnknown unknown (i.set option cs))

/-- A long option before and behind its equals sign. -/
def splitLong (t : Text) : Text × Option Text :=
  let name := t.takeWhile (· ≠ .char '=')
  (name, (t[name.length]?).map fun _ => t.drop (name.length + 1))

def readLong (i : Invocation) (t : Text) : Except UsageFault Progress :=
  let (name, value) := splitLong t
  match OptionName.ofLong? name, value with
  | none, _ => .ok (.complete (i.addFiles [t]))
  | some option, some v =>
    if option.takesValue then .ok (.complete (i.set option v)) else .error (.valueUnwanted name)
  | some option, none =>
    if option.takesValue then .ok (.wanting i option name []) else .ok (.complete (i.set option []))

def readOption (i : Invocation) (t : Text) : Except UsageFault Progress :=
  match t with
  | .char '-' :: .char '-' :: _ => i.readLong t
  | _ => .ok (i.readCluster [] t.tail)

def read (i : Invocation) : List Text → Except UsageFault Invocation
  | [] => .ok i
  | argument :: rest =>
    if argument = Text.ofString "--" then .ok (i.addFiles rest)
    else if argument.head? = some (.char '-') && argument.length ≠ 1 then
      match i.readOption argument with
      | .error f => .error f
      | .ok (.complete i) => i.read rest
      | .ok (.wanting i option typed unknown) =>
        match rest with
        | [] => .error (.valueMissing typed)
        | value :: rest => (keepUnknown unknown (i.set option value)).read rest
    else (i.addFiles [argument]).read rest

def ofArguments (arguments : List Text) : Except UsageFault Invocation := read {} arguments

def logging (i : Invocation) : Logging := if i.debug then .debug else .warnings

/-- The version is told first; the run then goes on with any files. -/
def run {α : Type} (i : Invocation) (l : Loader α) (s : Site) (t : Tree) (input : Bytes) : Run :=
  .after (if i.version then [.version] else []) (s.command l t input i.request)

end Invocation

end DocBlock
